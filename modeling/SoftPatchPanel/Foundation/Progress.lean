import SoftPatchPanel.Foundation.Fairness
import SoftPatchPanel.Foundation.Handover

/-!
# A call comes to its end

`Foundation.Handover` says what a call has done when it has returned.  Here is that it returns, if
the threads it depends on are not held up for ever.

The command thread polls, so it may take any number of steps without getting on.  While it waits
for a worker that has not moved `ref` yet, only the steps of this worker count; otherwise the
command thread's own do.  `rank` counts what is left of the call, and a step lowers it unless
the call does not depend on it (`Advances`), which is what the rule of `Foundation.Fairness` wants.
-/

namespace SoftPatchPanel.Handover

open Transition
open Function (update_self update_of_ne)

variable {ι α : Type} {D : Design α} {s s' : State ι α} {i : ι} {c : Call ι α}

/-- The command thread is in the call. -/
def Command.InCall (c : Call ι α) : Command ι α → Prop
  | publish c' _ | store c' _ _ _ | wait c' _ | compare c' _ _ _ | settle c' _ _ _ => c' = c
  | _ => False

/-- The table that the command thread waits for, and how many come behind it. -/
def Command.awaited : Command ι α → Option (ι × ℕ)
  | wait _ (i :: todo) | compare _ i _ todo => some (i, todo.length)
  | _ => none

/-- The table that is waited for, if its worker has not moved yet. -/
def State.pending (s : State ι α) : Option (ι × ℕ) :=
  s.command.awaited.filter fun j => (s.buf j.1).ref = (s.buf j.1).upd

/-- The steps of a worker until it has moved `ref`, if the indices are equal. -/
def Worker.distance : Worker → ℕ
  | store _ => 1
  | load => 2
  | compare _ _ => 3
  | top _ => 4
  | work _ => 5
  | enter => 6

/-- A bound for the steps of a call, if the worker that is waited for has moved. -/
def Command.distance (upd : ι → Fin 2) : Command ι α → ℕ
  | publish c todo => 10 * c.indices.length + 2 * todo.length + 2
  | store c _ _ todo => 10 * c.indices.length + 2 * todo.length + 3
  | wait _ todo => 10 * todo.length - 7
  | compare _ i ref todo => 10 * todo.length + if ref = upd i then 4 else 2
  | settle _ _ _ todo => 10 * todo.length + 1
  | _ => 0

/-- What is left of a call. -/
def State.rank (s : State ι α) : ℕ :=
  s.pending.elim (s.command.distance fun i => (s.buf i).upd) fun j =>
    10 * j.2 + 4 + (s.worker j.1).distance

/-- A step brings the call nearer to its end, or is none that it depends on. -/
def Advances (s : State ι α) (a : Option ι) (s' : State ι α) : Prop :=
  s'.rank < s.rank ∨ a ≠ s.pending.map Prod.fst ∧ s'.pending = s.pending ∧ s'.rank = s.rank

/-- The threads that a call depends on. -/
def Call.threads (c : Call ι α) : List (Option ι) := none :: c.indices.map some

/-- No thread is ever stuck, and every call returns, if the threads that it depends on take steps
again and again. -/
def Returns (S : System (State ι α) (Option ι)) : Prop :=
  (∀ s i, ∃ s', S.step s i s') ∧
    ∀ (e : ℕ → State ι α) (who : ℕ → Option ι), S.init (e 0) →
      (∀ n, S.step (e n) (who n) (e (n + 1))) → ∀ n c, (e n).command.InCall c →
        (∀ i ∈ c.threads, ∀ k, ∃ m ≥ k, who m = i) → ∃ m ≥ n, (e m).command = .returned c

/-! ## The rank -/

theorem Worker.distance_pos (w : Worker) : 0 < w.distance ∧ w.distance ≤ 6 := by
  cases w <;> simp [distance]

theorem Command.distance_le {cmd : Command ι α} {j : ι × ℕ} (h : cmd.awaited = some j)
    (upd : ι → Fin 2) : cmd.distance upd ≤ 10 * j.2 + 4 := by
  unfold awaited at h
  split at h <;> cases h
  · simp only [distance, List.length_cons]
    omega
  · simp only [distance]
    split <;> omega

/-- At the head of the second loop. -/
theorem State.rank_le {todo : List ι} (h : s.command = .wait c todo) :
    s.rank ≤ 10 * todo.length := by
  simp only [rank, pending, h, Command.distance]
  cases todo with
  | nil => exact le_refl 0
  | cons i todo =>
    have hpos := (s.worker i).distance_pos
    simp only [Command.awaited, Option.filter_some, List.length_cons]
    split
    · simp only [Option.elim_some]
      omega
    · simp only [Option.elim_none]
      omega

/-! ## Steps -/

variable [DecidableEq ι]

theorem exists_step [Nonempty ι] (hedit : ∀ a, ∃ b, D.Edit a b) (s : State ι α) (i : Option ι) :
    ∃ s', Step D s i s' := by
  cases i with
  | none =>
    cases hat : s.command with
    | idle | returned =>
      obtain ⟨i⟩ := ‹Nonempty ι›
      exact ⟨_, .edit i (by rw [hat]; trivial)⟩
    | edit i side =>
      obtain ⟨b, hb⟩ := hedit ((s.buf i).side side)
      exact ⟨_, .write hat hb⟩
    | edited =>
      cases hown : D.ownCall
      · exact ⟨_, .leave hat hown⟩
      · exact ⟨_, .handOver hat hown⟩
    | publish _ todo =>
      cases todo with
      | nil => exact ⟨_, .published hat⟩
      | cons => exact ⟨_, .readRef hat⟩
    | store => exact ⟨_, .storeUpd hat⟩
    | wait _ todo =>
      cases todo with
      | nil => exact ⟨_, .ret hat⟩
      | cons => exact ⟨_, .poll hat⟩
    | compare _ i ref =>
      rcases eq_or_ne ref (s.buf i).upd with heq | hne
      · exact ⟨_, .again hat heq⟩
      · exact ⟨_, .left hat hne⟩
    | settle => exact ⟨_, .settle hat⟩
  | some i =>
    cases hat : s.worker i with
    | top => exact ⟨_, .top hat⟩
    | compare _ ref =>
      rcases eq_or_ne ref (s.buf i).upd with heq | hne
      · exact ⟨_, .equal hat heq⟩
      · exact ⟨_, .differ hat hne⟩
    | load => exact ⟨_, .load hat⟩
    | store => exact ⟨_, .store hat⟩
    | enter => exact ⟨_, .enter hat⟩
    | work => exact ⟨_, .work hat⟩

/-- What a worker does to the indices: nothing while its own are different, and while they are
equal it comes nearer to moving `ref`. -/
theorem Inv.worker_moves (h : Inv D s) (hstep : Step D s (some i) s') :
    s'.command = s.command ∧ (∀ j, (s'.buf j).upd = (s.buf j).upd) ∧
      (∀ j ≠ i, (s'.buf j).ref = (s.buf j).ref ∧ s'.worker j = s.worker j) ∧
      ((s'.buf i).ref = (s.buf i).ref ∧ ((s.buf i).ref = (s.buf i).upd →
          (s'.worker i).distance < (s.worker i).distance) ∨
        (s.buf i).ref = (s.buf i).upd ∧ (s'.buf i).ref ≠ (s.buf i).upd) := by
  have hi := h.worker i
  cases hstep with
  | top hat | load hat | enter hat | work hat | equal hat _ =>
    refine ⟨rfl, fun _ => rfl, fun j hj => ⟨rfl, update_of_ne hj _ _⟩, .inl ⟨rfl, fun _ => ?_⟩⟩
    simp [hat, Worker.distance]
  | differ hat hne =>
    rw [hat] at hi
    exact ⟨rfl, fun _ => rfl, fun j hj => ⟨rfl, update_of_ne hj _ _⟩,
      .inl ⟨rfl, fun heq => absurd (hi.1.trans heq) hne⟩⟩
  | @store _ upd hat =>
    rw [hat] at hi
    obtain ⟨heq, rfl⟩ := hi
    refine ⟨rfl, fun j => ?_, fun j hj => ⟨?_, update_of_ne hj _ _⟩, .inr ⟨heq, ?_⟩⟩
    · rcases eq_or_ne j i with rfl | hne
      · simp only [update_self]
      · simp only [update_of_ne hne]
    · simp only [update_of_ne hj]
    · simp only [update_self]
      exact DoubleBuffer.add_one_ne _

/-- **A step of a worker.** -/
theorem Inv.worker_advances (h : Inv D s) (hstep : Step D s (some i) s') :
    Advances s (some i) s' := by
  obtain ⟨hcommand, hupd, hother, hself⟩ := h.worker_moves hstep
  simp only [Advances, State.rank, State.pending, hcommand, hupd]
  cases haw : s.command.awaited with
  | none => simp
  | some j =>
    have hle := Command.distance_le haw fun i => (s.buf i).upd
    have hpos := (s.worker j.1).distance_pos
    have hj := hother j.1
    rw [Option.filter_some, Option.filter_some]
    rcases eq_or_ne j.1 i with rfl | hne <;> grind

/-- **A step of the command thread.** -/
theorem Inv.command_advances (h : Inv D s) (hc : s.command.InCall c) (hstep : Step D s none s') :
    s'.command = .returned c ∨ s'.command.InCall c ∧ Advances s none s' := by
  have hbusy (hfree : s.command.Free) : False := by
    cases hcmd : s.command <;> rw [hcmd] at hc hfree <;> first | exact hc | exact hfree
  have hcommand := h.command
  cases hstep with
  | edit _ hfree | call _ _ hfree => exact (hbusy hfree).elim
  | write hat | leave hat | handOver hat =>
    rw [hat] at hc
    exact hc.elim
  | readRef hat | storeUpd hat =>
    rw [hat] at hc
    refine .inr ⟨hc, .inl ?_⟩
    simp only [State.rank, State.pending, hat, Command.awaited, Command.distance,
      Option.filter_none, Option.elim_none, List.length_cons]
    omega
  | published hat | settle hat =>
    rw [hat] at hc
    refine .inr ⟨hc, .inl (Nat.lt_of_le_of_lt (State.rank_le rfl) ?_)⟩
    simp only [State.rank, State.pending, hat, Command.awaited, Command.distance,
      Option.filter_none, Option.elim_none]
    omega
  | poll hat | again hat _ | left hat _ =>
    -- if the worker has not moved nothing depends on this step, and nothing changes
    rw [hat] at hc hcommand
    refine .inr ⟨hc, ?_⟩
    simp only [Advances, State.rank, State.pending, hat, Command.awaited, Command.distance,
      Option.filter_none, Option.filter_some, List.length_cons]
    grind [CommandOk]
  | ret hat =>
    rw [hat] at hc
    exact .inl (congrArg _ hc)

theorem Inv.pending_mem (h : Inv D s) (hc : s.command.InCall c) :
    s.pending.map Prod.fst ∈ c.threads := by
  have hcommand := h.command
  cases hp : s.pending with
  | none => exact List.mem_cons_self
  | some j =>
    refine List.mem_cons_of_mem _ (List.mem_map_of_mem ?_)
    obtain ⟨haw, -⟩ := Option.filter_eq_some_iff.mp hp
    unfold Command.awaited at haw
    split at haw <;> cases haw <;> rename_i hat <;> rw [hat] at hc hcommand <;> obtain rfl := hc
    · exact hcommand.todo.subset List.mem_cons_self
    · exact hcommand.1.todo.subset List.mem_cons_self

/-! ## Every run -/

/-- **Calls return** if the indices are different at the start. -/
theorem returns_of_apart [Nonempty ι] {init : ι → Buffer α} (hedit : ∀ a, ∃ b, D.Edit a b)
    (hinit : ∀ i, (init i).ref ≠ (init i).upd) : Returns (system D init) := by
  refine ⟨exists_step hedit, fun e who h0 hstep n c hc hfair => ?_⟩
  have hinv (n : ℕ) : Inv D (e n) := by
    induction n with
    | zero => exact h0 ▸ ⟨fun _ => rfl, hinit⟩
    | succ n ih => exact ih.step (hstep n)
  have hadvances {n : ℕ} (hc : (e n).command.InCall c) : (e (n + 1)).command = .returned c ∨
      (e (n + 1)).command.InCall c ∧ Advances (e n) (who n) (e (n + 1)) := by
    have hs := hstep n
    cases hwho : who n <;> rw [hwho] at hs
    · exact (hinv n).command_advances hc hs
    · exact .inr ⟨((hinv n).worker_moves hs).1 ▸ hc, (hinv n).worker_advances hs⟩
  -- a thread that the call does not depend on need not act
  have hfair : Fairness.Fair fun i m => who m = i ∨ i ∉ c.threads := by
    intro i k
    by_cases hi : i ∈ c.threads
    · obtain ⟨m, hm, hwho⟩ := hfair i hi k
      exact ⟨m, hm, .inl hwho⟩
    · exact ⟨k, le_refl k, .inr hi⟩
  refine Fairness.leads_to hfair (P := fun i m => (e m).command.InCall c ∧
    (e m).pending.map Prod.fst = i) (fun _ m => (e m).rank) ?_ ?_ ⟨hc, rfl⟩
  · rintro _ m ⟨hc, rfl⟩ -
    rcases hadvances hc with hret | ⟨hc', hlt | ⟨-, hp, hr⟩⟩
    · exact .inl hret
    · exact .inr (.inr ⟨_, ⟨hc', rfl⟩, hlt⟩)
    · exact .inr (.inl ⟨⟨hc', by rw [hp]⟩, hr⟩)
  rintro _ m ⟨hc, rfl⟩ hacts
  rcases hadvances hc with hret | ⟨hc', hlt | ⟨hne, -⟩⟩
  · exact .inl hret
  · exact .inr ⟨_, ⟨hc', rfl⟩, hlt⟩
  · exact (hacts.elim hne fun hnot => hnot ((hinv m).pending_mem hc)).elim

end SoftPatchPanel.Handover
