import Mathlib.Data.List.Basic
import Mathlib.Logic.Function.Basic
import Mathlib.Logic.Relation

/-!
# Runs of a transition system, and what holds along them

A `System` has initial states and a labelled step relation.  A `Run` remembers
the steps it has taken, latest first, each as the state it was taken in and the
event that drove it.  Keeping the history in the run rather than only the state
it reached is what lets a condition speak about the run: "every step of the run
met the guard" is a statement about the history, and so is "this was put there by
that step".

One rule carries every invariant of the development: a property that holds
initially and that every guarded step preserves holds when a guarded run has come
to its last state.  `Run.invariant_trace` is the rule for properties of the state
and the history, `Run.invariant` for properties of the state alone.

`Reaches` is what steps lead to from a given state; `exists_run_of_reaches` appends
them to a run.  `ofStep` reads a partial step function as a system, and `exists_run_of_foldlM`
turns an evaluated list of events into a run of it, which is how concrete runs
are exhibited.  `bind_eq_ok` takes a step made of several fallible calls apart.
-/

namespace SoftPatchPanel.Transition

variable {S E : Type*} {G : S → E → Prop} {s s₀ t : S} {h : List (S × E)} {f : S → E → Option S}

/-- A labelled transition system. -/
structure System (S E : Type*) where
  /-- The states a run may start in. -/
  init : S → Prop
  /-- One step, labelled by the event that drives it. -/
  step : S → E → S → Prop

/-- `Run T h s`: the system has taken the steps of `h`, latest first, and is now
in `s`. -/
inductive Run (T : System S E) : List (S × E) → S → Prop where
  | start {s : S} : T.init s → Run T [] s
  | snoc {h : List (S × E)} {s s' : S} {e : E} :
      Run T h s → T.step s e s' → Run T ((s, e) :: h) s'

/-- Every step of the history met the guard. -/
def Guarded (G : S → E → Prop) (h : List (S × E)) : Prop :=
  ∀ p ∈ h, G p.1 p.2

theorem guarded_nil (G : S → E → Prop) : Guarded G ([] : List (S × E)) := by
  simp [Guarded]

theorem guarded_cons {e : E} : Guarded G ((s, e) :: h) ↔ G s e ∧ Guarded G h := by
  simp [Guarded]

variable {T : System S E} {I : S → Prop}

/-- **The invariant rule, with the history.**  What holds initially and is preserved
by every guarded step holds when a guarded run has come to its last state. -/
theorem Run.invariant_trace {J : List (S × E) → S → Prop} (hinit : ∀ s, T.init s → J [] s)
    (hstep : ∀ h s e s', J h s → G s e → T.step s e s' → J ((s, e) :: h) s')
    {h : List (S × E)} {s : S} (hrun : Run T h s) (hG : Guarded G h) : J h s := by
  induction hrun with
  | start h0 => exact hinit _ h0
  | snoc _ hst ih =>
    rw [guarded_cons] at hG
    exact hstep _ _ _ _ (ih hG.2) hG.1 hst

/-- **The invariant rule**, for invariants of states alone. -/
theorem Run.invariant (hinit : ∀ s, T.init s → I s)
    (hstep : ∀ s e s', I s → G s e → T.step s e s' → I s')
    {h : List (S × E)} {s : S} (hrun : Run T h s) (hG : Guarded G h) : I s :=
  hrun.invariant_trace (J := fun _ s => I s) hinit (fun _ => hstep) hG

/-! ## From one state to another -/

/-- Steps that meet the guard lead from the first state to the second. -/
def Reaches (T : System S E) (G : S → E → Prop) : S → S → Prop :=
  Relation.ReflTransGen fun s s' => ∃ e, G s e ∧ T.step s e s'

/-- What can be reached from the end of a run is the end of a run. -/
theorem exists_run_of_reaches {s' : S} (h : Reaches T G s s') {hist : List (S × E)}
    (hrun : Run T hist s) (hG : Guarded G hist) :
    ∃ hist', Run T hist' s' ∧ Guarded G hist' := by
  induction h with
  | refl => exact ⟨hist, hrun, hG⟩
  | tail _ hstep ih =>
    obtain ⟨e, he, hstep⟩ := hstep
    obtain ⟨hist', hrun', hG'⟩ := ih
    exact ⟨_, hrun'.snoc hstep, guarded_cons.mpr ⟨he, hG'⟩⟩

/-! ## Systems given by a step function -/

/-- What a call returns through a function. -/
theorem map_eq_ok {ε α β : Type} {f : α → β} {r : Except ε α} {b : β}
    (h : r.map f = .ok b) : ∃ a, r = .ok a ∧ f a = b := by
  cases r with
  | error e => cases h
  | ok a => exact ⟨a, rfl, by injection h⟩

/-- A sequence of two calls returns exactly when both do. -/
theorem bind_eq_ok {ε α β : Type} {x : Except ε α} {f : α → Except ε β} {b : β} :
    (x >>= f) = .ok b ↔ ∃ a, x = .ok a ∧ f a = .ok b := by
  cases x with
  | error e =>
    constructor
    · intro h
      cases h
    · rintro ⟨a, h, -⟩
      cases h
  | ok a =>
    constructor
    · intro h
      exact ⟨a, rfl, h⟩
    · rintro ⟨a', h, h'⟩
      cases h
      exact h'

/-- The system of a partial step function with one initial state. -/
def ofStep (s₀ : S) (f : S → E → Option S) : System S E where
  init s := s = s₀
  step s e s' := f s e = some s'

/-- Folding the step function over a list of events is a run. -/
theorem exists_run_of_foldlM (hrun : Run (ofStep s₀ f) h s) :
    ∀ {es : List E} {t : S}, es.foldlM f s = some t →
      ∃ h', Run (ofStep s₀ f) h' t ∧ h'.map Prod.snd = es.reverse ++ h.map Prod.snd := by
  intro es
  induction es generalizing h s with
  | nil =>
    intro t ht
    have hst : s = t := by simpa using ht
    subst hst
    exact ⟨h, hrun, by simp⟩
  | cons e es ih =>
    intro t ht
    rw [List.foldlM_cons] at ht
    cases hf : f s e with
    | none => rw [hf] at ht; exact absurd ht (by simp)
    | some s' =>
      rw [hf] at ht
      obtain ⟨h', hr, hmap⟩ := ih (hrun.snoc hf) (by simpa using ht)
      exact ⟨h', hr, by simpa using hmap⟩

/-- A list of events that the step function accepts from the initial state is a
run. -/
theorem exists_run_of_accepts {es : List E} (ht : es.foldlM f s₀ = some t) :
    ∃ h, Run (ofStep s₀ f) h t ∧ h.map Prod.snd = es.reverse := by
  obtain ⟨h, hr, hmap⟩ := exists_run_of_foldlM (.start rfl) ht
  exact ⟨h, hr, by simpa using hmap⟩

/-- The same for a fact about the state that is reached, which can be evaluated
without writing the state down. -/
theorem exists_run_of_any (s₀ : S) (f : S → E → Option S) (es : List E) (Q : S → Prop)
    [DecidablePred Q] (hQ : (es.foldlM f s₀).any (fun s => Q s) = true) :
    ∃ h t, Run (ofStep s₀ f) h t ∧ h.map Prod.snd = es.reverse ∧ Q t := by
  obtain ⟨t, ht, hQt⟩ := (Option.any_eq_true _ _).mp hQ
  obtain ⟨h, hr, hmap⟩ := exists_run_of_accepts ht
  exact ⟨h, t, hr, hmap, of_decide_eq_true hQt⟩

/-- A step function that refuses what does not meet a test. -/
def checked (c : S → E → Bool) (f : S → E → Option S) (s : S) (e : E) : Option S :=
  if c s e then f s e else none

/-- A run of the checked steps is a run in which every step meets the test. -/
theorem guarded_of_checked {c : S → E → Bool} (hrun : Run (ofStep s₀ (checked c f)) h t) :
    Run (ofStep s₀ f) h t ∧ Guarded (fun s e => c s e = true) h := by
  induction hrun with
  | start h0 => exact ⟨.start h0, guarded_nil _⟩
  | @snoc h s s' e _ hstep ih =>
    have hstep : checked c f s e = some s' := hstep
    unfold checked at hstep
    split at hstep
    · rename_i hc
      exact ⟨.snoc ih.1 hstep, guarded_cons.mpr ⟨hc, ih.2⟩⟩
    · cases hstep

/-- A run to a state with a property, all of whose steps meet a guard that can be tested. -/
theorem exists_guarded_run (c : S → E → Bool)
    (hG : ∀ {s e}, c s e = true → G s e) (s₀ : S) (f : S → E → Option S) (es : List E)
    (Q : S → Prop) [DecidablePred Q] (hQ : (es.foldlM (checked c f) s₀).any (fun s => Q s) = true) :
    ∃ h t, Run (ofStep s₀ f) h t ∧ h.map Prod.snd = es.reverse ∧ Guarded G h ∧ Q t := by
  obtain ⟨h, t, hrun, hmap, hQt⟩ := exists_run_of_any s₀ (checked c f) es Q hQ
  obtain ⟨hrun, hc⟩ := guarded_of_checked hrun
  exact ⟨h, t, hrun, hmap, fun x hx => hG (hc x hx), hQt⟩

end SoftPatchPanel.Transition
