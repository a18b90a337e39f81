import Mathlib.Data.Fin.Basic
import Mathlib.Data.ZMod.Defs
import SoftPatchPanel.Foundation.Transition

/-!
# A table with two sides, an updater and a worker

The table has two sides and two indices.  The worker works on the side `ref`; the
updater builds on the side `upd`.  To hand a new side over, the updater copies `ref`
to `upd`, so that the two are equal, and waits; the worker, when it next finds them
equal, moves `ref` to the other side, and with that the updater may clear the side
that the worker has left.

Each access to an index is a step of its own, and what the two parties do between
accesses may come in any order.  While a party is busy with a side its position says
so (`Updater.side`, `Worker.side`), however long that takes.

The protocol rests on the indices being different when an update starts.  If they are
(`Started`), the two never have the same side (`Exclusive`), and an update that has
returned has left the worker what it built (`Delivered`); this is
`exclusive_and_delivered_of_run`.
-/

namespace SoftPatchPanel.DoubleBuffer

open Transition
open Function (update update_self update_of_ne)

variable {α β : Type} {table : Fin 2 → α} {ref upd : Fin 2}

/-- Under a name, so that the two sides are the same terms throughout. -/
instance neZero_two : NeZero 2 := ⟨two_ne_zero⟩

/-- What is done to a side of the table. -/
structure Design (α : Type) where
  /-- A build that succeeds. -/
  Build : α → α → Prop
  /-- A build that fails. -/
  Fail : α → α → Prop
  /-- What the updater does with the side that the worker has left. -/
  retire : α → α
  /-- What the worker does with a side before it leaves it. -/
  Drain : α → α → Prop
  /-- What the worker does with a side in an iteration. -/
  Work : α → α → Prop

/-- Where the updater is.  From the end of the build on it remembers what it has
built. -/
inductive Updater (α : Type) where
  /-- No update so far, or the last one has failed. -/
  | idle
  /-- Building a side. -/
  | build (side : Fin 2)
  /-- About to read `ref`. -/
  | built (a : α)
  /-- Has read `ref`, and is about to store it in `upd`. -/
  | publish (a : α) (ref : Fin 2)
  /-- About to read `ref`. -/
  | wait (a : α)
  /-- Has read `ref`, and is about to compare it with `upd`. -/
  | compare (a : α) (ref : Fin 2)
  /-- Busy with the side that the worker has left. -/
  | retire (a : α) (side : Fin 2)
  /-- The update has returned. -/
  | returned (a : α)

/-- Where the worker is. -/
inductive Worker where
  /-- Between two iterations. -/
  | top
  /-- Has read `ref`, and is about to compare it with `upd`. -/
  | compare (ref : Fin 2)
  /-- Has found the indices equal. -/
  | swap
  /-- Busy with the side that it is going to leave. -/
  | drain (side : Fin 2)
  /-- About to read `upd`. -/
  | load
  /-- Has read `upd`, and is about to store the other side in `ref`. -/
  | store (upd : Fin 2)
  /-- About to read `ref`. -/
  | enter
  /-- Busy with a side for the rest of the iteration. -/
  | work (side : Fin 2)

structure State (α : Type) where
  table : Fin 2 → α
  ref : Fin 2
  upd : Fin 2
  updater : Updater α
  worker : Worker

/-- The side the updater is busy with. -/
def Updater.side : Updater α → Option (Fin 2)
  | build side => some side
  | retire _ side => some side
  | _ => none

/-- The side the worker is busy with. -/
def Worker.side : Worker → Option (Fin 2)
  | drain side => some side
  | work side => some side
  | _ => none

/-- Whose step it is; the start of an update is told apart. -/
inductive Event where
  | start
  | updater
  | worker
  deriving DecidableEq

/-- The steps. -/
inductive Step (D : Design α) : State α → Event → State α → Prop where
  | start {s : State α} (hidle : s.updater = .idle ∨ ∃ a, s.updater = .returned a) :
      Step D s .start { s with updater := .build s.upd }
  | build {s : State α} {side : Fin 2} {a : α} (hat : s.updater = .build side)
      (hbuild : D.Build (s.table side) a) :
      Step D s .updater
        { s with table := Function.update s.table side a, updater := .built a }
  | fail {s : State α} {side : Fin 2} {a : α} (hat : s.updater = .build side)
      (hfail : D.Fail (s.table side) a) :
      Step D s .updater { s with table := Function.update s.table side a, updater := .idle }
  | readRef {s : State α} {a : α} (hat : s.updater = .built a) :
      Step D s .updater { s with updater := .publish a s.ref }
  | storeUpd {s : State α} {a : α} {ref : Fin 2} (hat : s.updater = .publish a ref) :
      Step D s .updater { s with upd := ref, updater := .wait a }
  | poll {s : State α} {a : α} (hat : s.updater = .wait a) :
      Step D s .updater { s with updater := .compare a s.ref }
  | again {s : State α} {a : α} {ref : Fin 2} (hat : s.updater = .compare a ref)
      (heq : ref = s.upd) : Step D s .updater { s with updater := .wait a }
  | left {s : State α} {a : α} {ref : Fin 2} (hat : s.updater = .compare a ref)
      (hne : ref ≠ s.upd) : Step D s .updater { s with updater := .retire a s.upd }
  | retire {s : State α} {a : α} {side : Fin 2} (hat : s.updater = .retire a side) :
      Step D s .updater
        { s with
          table := Function.update s.table side (D.retire (s.table side))
          updater := .returned a }
  | top {s : State α} (hat : s.worker = .top) :
      Step D s .worker { s with worker := .compare s.ref }
  | differ {s : State α} {ref : Fin 2} (hat : s.worker = .compare ref) (hne : ref ≠ s.upd) :
      Step D s .worker { s with worker := .enter }
  | equal {s : State α} {ref : Fin 2} (hat : s.worker = .compare ref) (heq : ref = s.upd) :
      Step D s .worker { s with worker := .swap }
  | swap {s : State α} (hat : s.worker = .swap) :
      Step D s .worker { s with worker := .drain s.ref }
  | drain {s : State α} {side : Fin 2} {a : α} (hat : s.worker = .drain side)
      (hdrain : D.Drain (s.table side) a) :
      Step D s .worker { s with table := Function.update s.table side a, worker := .load }
  | load {s : State α} (hat : s.worker = .load) :
      Step D s .worker { s with worker := .store s.upd }
  | store {s : State α} {upd : Fin 2} (hat : s.worker = .store upd) :
      Step D s .worker { s with ref := upd + 1, worker := .enter }
  | enter {s : State α} (hat : s.worker = .enter) :
      Step D s .worker { s with worker := .work s.ref }
  | work {s : State α} {side : Fin 2} {a : α} (hat : s.worker = .work side)
      (hwork : D.Work (s.table side) a) :
      Step D s .worker { s with table := Function.update s.table side a, worker := .top }

/-- The two parties at work, from a state in which neither has begun. -/
def system (D : Design α) (table : Fin 2 → α) (ref upd : Fin 2) : System (State α) Event where
  init s := s = ⟨table, ref, upd, .idle, .top⟩
  step := Step D

/-- The two parties are not busy with the same side. -/
def Exclusive (s : State α) : Prop := ∀ side, s.updater.side = some side → s.worker.side ≠ some side

/-- An update that has returned has left the worker what it built, as far as `view`
shows. -/
def Delivered (view : α → β) (s : State α) : Prop :=
  ∀ a, s.updater = .returned a → view (s.table s.ref) = view a

/-- No update starts while the indices are equal. -/
def Started (s : State α) (e : Event) : Prop := e = .start → s.ref ≠ s.upd

/-! ## The invariant -/

theorem add_one_ne (i : Fin 2) : i + 1 ≠ i := by
  revert i
  decide

theorem add_one_of_ne {i j : Fin 2} (h : i ≠ j) : j + 1 = i := by
  revert i j
  decide

/-- What the position of the worker says about the indices. -/
def WorkerOk (ref upd : Fin 2) : Worker → Prop
  | .top => True
  | .compare r => r = ref
  | .swap => ref = upd
  | .drain side => ref = upd ∧ side = ref
  | .load => ref = upd
  | .store u => ref = upd ∧ u = upd
  | .enter => True
  | .work side => side = ref

/-- What the position of the updater says about the indices and the table. -/
def UpdaterOk (view : α → β) (table : Fin 2 → α) (ref upd : Fin 2) : Updater α → Prop
  | .idle => True
  | .build side => ref ≠ upd ∧ side = upd
  | .built a => ref ≠ upd ∧ view (table upd) = view a
  | .publish a r => ref ≠ upd ∧ r = ref ∧ view (table upd) = view a
  | .wait a => view (table (upd + 1)) = view a
  | .compare a r => (r ≠ upd → ref ≠ upd) ∧ view (table (upd + 1)) = view a
  | .retire a side => ref ≠ upd ∧ side = upd ∧ view (table ref) = view a
  | .returned a => ref ≠ upd ∧ view (table ref) = view a

/-- The two together. -/
structure Inv (view : α → β) (s : State α) : Prop where
  worker : WorkerOk s.ref s.upd s.worker
  updater : UpdaterOk view s.table s.ref s.upd s.updater

variable {D : Design α} {view : α → β} {s s' : State α} {e : Event}

variable {u : Updater α}

/-- The updater finds the table as before if it has changed only in what does not
show. -/
theorem UpdaterOk.congr {table' : Fin 2 → α}
    (h : UpdaterOk view table ref upd u) (htable : ∀ i, view (table' i) = view (table i)) :
    UpdaterOk view table' ref upd u := by
  cases u with
  | idle => trivial
  | build side => exact h
  | built a => exact ⟨h.1, (htable _).trans h.2⟩
  | publish a r => exact ⟨h.1, h.2.1, (htable _).trans h.2.2⟩
  | wait a => exact (htable _).trans h
  | compare a r => exact ⟨h.1, (htable _).trans h.2⟩
  | retire a side => exact ⟨h.1, h.2.1, (htable _).trans h.2.2⟩
  | returned a => exact ⟨h.1, (htable _).trans h.2⟩

/-- The worker moves `ref` away from `upd` only when nobody but a waiting updater
looks at it. -/
theorem UpdaterOk.store (h : UpdaterOk view table ref upd u) (heq : ref = upd) :
    UpdaterOk view table (upd + 1) upd u := by
  cases u with
  | idle => trivial
  | build side => exact absurd heq h.1
  | built a => exact absurd heq h.1
  | publish a r => exact absurd heq h.1
  | wait a => exact h
  | compare a r => exact ⟨fun _ => add_one_ne upd, h.2⟩
  | retire a side => exact absurd heq h.1
  | returned a => exact absurd heq h.1

/-- The updater moves `upd` only when the worker is not about to move `ref`. -/
theorem WorkerOk.storeUpd {w : Worker} (h : WorkerOk ref upd w)
    (hne : ref ≠ upd) (r : Fin 2) : WorkerOk ref r w := by
  cases w with
  | top => trivial
  | compare r => exact h
  | swap => exact absurd h hne
  | drain side => exact absurd h.1 hne
  | load => exact absurd h hne
  | store u => exact absurd h.1 hne
  | enter => trivial
  | work side => exact h

theorem view_update {side : Fin 2} {a : α} (h : view a = view (table side)) (i : Fin 2) :
    view (update table side a i) = view (table i) := by
  rcases eq_or_ne i side with rfl | hne
  · rwa [update_self]
  · rw [update_of_ne hne]

/-- **A step of the updater.** -/
theorem Inv.updater_step (h : Inv view s) (hG : Started s e) (hstep : Step D s e s')
    (he : e ≠ .worker) : Inv view s' := by
  obtain ⟨hworker, hupdater⟩ := h
  cases hstep with
  | start hidle => exact ⟨hworker, hG rfl, rfl⟩
  | build hat hbuild =>
    rw [hat] at hupdater
    obtain ⟨hne, rfl⟩ := hupdater
    refine ⟨hworker, hne, ?_⟩
    dsimp only
    rw [update_self]
  | fail hat hfail => exact ⟨hworker, trivial⟩
  | readRef hat =>
    rw [hat] at hupdater
    exact ⟨hworker, hupdater.1, rfl, hupdater.2⟩
  | storeUpd hat =>
    rw [hat] at hupdater
    obtain ⟨hne, rfl, hview⟩ := hupdater
    refine ⟨hworker.storeUpd hne s.ref, ?_⟩
    show view (s.table (s.ref + 1)) = _
    rwa [add_one_of_ne hne.symm]
  | poll hat =>
    rw [hat] at hupdater
    exact ⟨hworker, fun hne => hne, hupdater⟩
  | again hat heq =>
    rw [hat] at hupdater
    exact ⟨hworker, hupdater.2⟩
  | left hat hne =>
    rw [hat] at hupdater
    have href : s.ref ≠ s.upd := hupdater.1 hne
    have hview := hupdater.2
    rw [add_one_of_ne href] at hview
    exact ⟨hworker, href, rfl, hview⟩
  | retire hat =>
    rw [hat] at hupdater
    obtain ⟨hne, rfl, hview⟩ := hupdater
    refine ⟨hworker, hne, ?_⟩
    dsimp only
    rwa [update_of_ne hne]
  | _ => exact absurd rfl he

/-- **A step of the worker.** -/
theorem Inv.worker_step (hdrain : ∀ a b, D.Drain a b → view b = view a)
    (hwork : ∀ a b, D.Work a b → view b = view a) (h : Inv view s)
    (hstep : Step D s .worker s') : Inv view s' := by
  obtain ⟨hworker, hupdater⟩ := h
  cases hstep with
  | top hat => exact ⟨rfl, hupdater⟩
  | differ hat hne => exact ⟨trivial, hupdater⟩
  | equal hat heq =>
    rw [hat] at hworker
    exact ⟨hworker.symm.trans heq, hupdater⟩
  | swap hat =>
    rw [hat] at hworker
    exact ⟨⟨hworker, rfl⟩, hupdater⟩
  | drain hat hd =>
    rw [hat] at hworker
    exact ⟨hworker.1, hupdater.congr (view_update (hdrain _ _ hd))⟩
  | load hat =>
    rw [hat] at hworker
    exact ⟨⟨hworker, rfl⟩, hupdater⟩
  | store hat =>
    rw [hat] at hworker
    obtain ⟨heq, rfl⟩ := hworker
    exact ⟨trivial, hupdater.store heq⟩
  | enter hat => exact ⟨rfl, hupdater⟩
  | work hat hw => exact ⟨trivial, hupdater.congr (view_update (hwork _ _ hw))⟩

/-- The side of the worker is `ref`, that of the updater is `upd`, and the indices are
different while the updater has one. -/
theorem Inv.exclusive (h : Inv view s) : Exclusive s := by
  intro side hside hworker
  have hupdater := h.updater
  have hwork := h.worker
  have hupd : s.ref ≠ s.upd ∧ side = s.upd := by
    cases hu : s.updater with
    | build side' =>
      rw [hu] at hside hupdater
      cases hside
      exact hupdater
    | retire a side' =>
      rw [hu] at hside hupdater
      cases hside
      exact ⟨hupdater.1, hupdater.2.1⟩
    | _ =>
      rw [hu] at hside
      cases hside
  have href : side = s.ref := by
    cases hw : s.worker with
    | drain side' =>
      rw [hw] at hworker hwork
      cases hworker
      exact hwork.2
    | work side' =>
      rw [hw] at hworker hwork
      cases hworker
      exact hwork
    | _ =>
      rw [hw] at hworker
      cases hworker
  exact hupd.1 (href.symm.trans hupd.2)

theorem Inv.delivered (h : Inv view s) : Delivered view s := by
  intro a ha
  have hupdater := h.updater
  rw [ha] at hupdater
  exact hupdater.2

/-- **The protocol is safe**, in every run in which no update starts while the indices
are equal: the two parties are never busy with the same side, and an update that has
returned has left the worker what it built. -/
theorem exclusive_and_delivered_of_run
    (hdrain : ∀ a b, D.Drain a b → view b = view a) (hwork : ∀ a b, D.Work a b → view b = view a)
    {h : List (State α × Event)} (hrun : Run (system D table ref upd) h s)
    (hG : Guarded Started h) : Exclusive s ∧ Delivered view s := by
  have hinv : Inv view s := by
    refine hrun.invariant (I := Inv view) ?_ ?_ hG
    · rintro s rfl
      exact ⟨trivial, trivial⟩
    intro s e s' hs hstart hstep
    by_cases he : e = .worker
    · subst he
      exact hs.worker_step hdrain hwork hstep
    · exact hs.updater_step hstart hstep he
  exact ⟨hinv.exclusive, hinv.delivered⟩

end SoftPatchPanel.DoubleBuffer
