import Mathlib.Data.List.Infix
import Mathlib.Data.List.Nodup
import SoftPatchPanel.Foundation.DoubleBuffer

/-!
# Many tables with two sides, one command thread and a worker for each

As in `Foundation.DoubleBuffer`, a table has two sides and two indices: the worker reads the
side `ref`, the command thread prepares the side `upd`.  Here there are many tables, and the
command thread hands several over in one call: it stores `ref` in `upd` of one after the other,
and then waits for one after the other.  While it is still storing, the workers of the first
tables may be through.

The workers only read.  So there is no need to look at the tables through a view: what a call
leaves is known exactly (`Buffer.handed`), and this is what the induction carries.  During a
call every table is in one of three phases, which depend on the place the command thread has
reached (`Command.phase`); a step moves at most one table to the next phase, and a worker never
moves one.

Two things differ between the tables this is for, and are parameters.  The call may edit the
one table it hands over, or hand over what was edited before; and the worker may read `ref` in
every iteration, or keep the pointer until it moves `ref` itself.
-/

namespace SoftPatchPanel.Handover

open Transition
open Function (update update_self update_of_ne update_idem)

variable {ι α : Type}

/-- A table with two sides. -/
structure Buffer (α : Type) where
  side : Fin 2 → α
  ref : Fin 2
  upd : Fin 2

/-- What is done with the tables. -/
structure Design (α : Type) where
  /-- What the command thread writes to its side. -/
  Edit : α → α → Prop
  /-- What it leaves in the side that the worker has left, given what is there and what the
  worker has now. -/
  settle : α → α → α
  /-- An edit is part of the call that hands it over. -/
  ownCall : Bool
  /-- The worker keeps the pointer to its side from one iteration to the next. -/
  keepsPointer : Bool

/-- A call: the tables when it starts, and what it hands over. -/
structure Call (ι α : Type) where
  old : ι → Buffer α
  batch : List (ι × α)

/-- The tables that a call hands over, in order. -/
def Call.indices (c : Call ι α) : List ι := c.batch.map Prod.fst

/-- Where the command thread is. -/
inductive Command (ι α : Type) where
  /-- Between two calls. -/
  | idle
  /-- Writing to a side. -/
  | edit (i : ι) (side : Fin 2)
  /-- Has written. -/
  | edited (i : ι) (a : α)
  /-- In the first loop, with the tables still to do. -/
  | publish (c : Call ι α) (todo : List ι)
  /-- Has read `ref`, and is about to store it in `upd`. -/
  | store (c : Call ι α) (i : ι) (ref : Fin 2) (todo : List ι)
  /-- In the second loop. -/
  | wait (c : Call ι α) (todo : List ι)
  /-- Has read `ref`, and is about to compare it with `upd`. -/
  | compare (c : Call ι α) (i : ι) (ref : Fin 2) (todo : List ι)
  /-- Busy with the side that the worker has left. -/
  | settle (c : Call ι α) (i : ι) (side : Fin 2) (todo : List ι)
  /-- The call has returned. -/
  | returned (c : Call ι α)

/-- Where a worker is; `held` is the side it has a pointer to. -/
inductive Worker where
  /-- Between two iterations. -/
  | top (held : Fin 2)
  /-- Has read `ref`, and is about to compare it with `upd`. -/
  | compare (held ref : Fin 2)
  /-- Has found the indices equal, and is about to read `upd`. -/
  | load
  /-- Has read `upd`, and is about to store the other side in `ref`. -/
  | store (upd : Fin 2)
  /-- About to read `ref`. -/
  | enter
  /-- Reading a side for the rest of the iteration. -/
  | work (side : Fin 2)

structure State (ι α : Type) where
  buf : ι → Buffer α
  command : Command ι α
  worker : ι → Worker

/-- The side that the command thread writes to. -/
def Command.writes : Command ι α → Option (ι × Fin 2)
  | edit i side => some (i, side)
  | settle _ i side _ => some (i, side)
  | _ => none

/-- The side that a worker reads. -/
def Worker.reads : Worker → Option (Fin 2)
  | work side => some side
  | _ => none

/-- No call is under way. -/
def Command.Outside : Command ι α → Prop
  | idle | edit _ _ | edited _ _ | returned _ => True
  | _ => False

/-- The command thread may begin something new. -/
def Command.Free : Command ι α → Prop
  | idle | returned _ => True
  | _ => False

section

variable [DecidableEq ι]

/-- The steps, by who makes them: the command thread, or the worker of a table. -/
inductive Step (D : Design α) : State ι α → Option ι → State ι α → Prop where
  | edit {s : State ι α} (i : ι) (hfree : s.command.Free) :
      Step D s none { s with command := .edit i (s.buf i).upd }
  | write {s : State ι α} {i : ι} {side : Fin 2} {a : α} (hat : s.command = .edit i side)
      (hedit : D.Edit ((s.buf i).side side) a) :
      Step D s none
        { s with
          buf := Function.update s.buf i
            { s.buf i with side := Function.update (s.buf i).side side a }
          command := .edited i a }
  | leave {s : State ι α} {i : ι} {a : α} (hat : s.command = .edited i a)
      (hown : D.ownCall = false) : Step D s none { s with command := .idle }
  | call {s : State ι α} (l : List ι) (hl : l.Nodup) (hfree : s.command.Free)
      (hown : D.ownCall = false) :
      Step D s none
        { s with command := .publish ⟨s.buf, l.map fun i => (i, (s.buf i).side (s.buf i).upd)⟩ l }
  | handOver {s : State ι α} {i : ι} {a : α} (hat : s.command = .edited i a)
      (hown : D.ownCall = true) :
      Step D s none { s with command := .publish ⟨s.buf, [(i, a)]⟩ [i] }
  | readRef {s : State ι α} {c : Call ι α} {i : ι} {todo : List ι}
      (hat : s.command = .publish c (i :: todo)) :
      Step D s none { s with command := .store c i (s.buf i).ref todo }
  | storeUpd {s : State ι α} {c : Call ι α} {i : ι} {ref : Fin 2} {todo : List ι}
      (hat : s.command = .store c i ref todo) :
      Step D s none
        { s with
          buf := Function.update s.buf i { s.buf i with upd := ref }
          command := .publish c todo }
  | published {s : State ι α} {c : Call ι α} (hat : s.command = .publish c []) :
      Step D s none { s with command := .wait c c.indices }
  | poll {s : State ι α} {c : Call ι α} {i : ι} {todo : List ι}
      (hat : s.command = .wait c (i :: todo)) :
      Step D s none { s with command := .compare c i (s.buf i).ref todo }
  | again {s : State ι α} {c : Call ι α} {i : ι} {ref : Fin 2} {todo : List ι}
      (hat : s.command = .compare c i ref todo) (heq : ref = (s.buf i).upd) :
      Step D s none { s with command := .wait c (i :: todo) }
  | left {s : State ι α} {c : Call ι α} {i : ι} {ref : Fin 2} {todo : List ι}
      (hat : s.command = .compare c i ref todo) (hne : ref ≠ (s.buf i).upd) :
      Step D s none { s with command := .settle c i (s.buf i).upd todo }
  | settle {s : State ι α} {c : Call ι α} {i : ι} {side : Fin 2} {todo : List ι}
      (hat : s.command = .settle c i side todo) :
      Step D s none
        { s with
          buf := Function.update s.buf i
            { s.buf i with
              side := Function.update (s.buf i).side side
                (D.settle ((s.buf i).side side) ((s.buf i).side (s.buf i).ref)) }
          command := .wait c todo }
  | ret {s : State ι α} {c : Call ι α} (hat : s.command = .wait c []) :
      Step D s none { s with command := .returned c }
  | top {s : State ι α} {i : ι} {held : Fin 2} (hat : s.worker i = .top held) :
      Step D s (some i)
        { s with worker := Function.update s.worker i (.compare held (s.buf i).ref) }
  | differ {s : State ι α} {i : ι} {held ref : Fin 2} (hat : s.worker i = .compare held ref)
      (hne : ref ≠ (s.buf i).upd) :
      Step D s (some i)
        { s with
          worker := Function.update s.worker i (if D.keepsPointer then .work held else .enter) }
  | equal {s : State ι α} {i : ι} {held ref : Fin 2} (hat : s.worker i = .compare held ref)
      (heq : ref = (s.buf i).upd) :
      Step D s (some i) { s with worker := Function.update s.worker i .load }
  | load {s : State ι α} {i : ι} (hat : s.worker i = .load) :
      Step D s (some i) { s with worker := Function.update s.worker i (.store (s.buf i).upd) }
  | store {s : State ι α} {i : ι} {upd : Fin 2} (hat : s.worker i = .store upd) :
      Step D s (some i)
        { s with
          buf := Function.update s.buf i { s.buf i with ref := upd + 1 }
          worker := Function.update s.worker i .enter }
  | enter {s : State ι α} {i : ι} (hat : s.worker i = .enter) :
      Step D s (some i) { s with worker := Function.update s.worker i (.work (s.buf i).ref) }
  | work {s : State ι α} {i : ι} {side : Fin 2} (hat : s.worker i = .work side) :
      Step D s (some i) { s with worker := Function.update s.worker i (.top side) }

/-- The parties at work, from a state in which none has begun. -/
def system (D : Design α) (init : ι → Buffer α) : System (State ι α) (Option ι) where
  init s := s = ⟨init, .idle, fun i => .top (init i).ref⟩
  step := Step D

end

/-! ## What is to hold -/

/-- The side that the command thread writes to is not read. -/
def Exclusive (s : State ι α) : Prop :=
  ∀ i side, s.command.writes = some (i, side) → (s.worker i).reads ≠ some side

/-- Outside a call the indices are different. -/
def Apart (s : State ι α) : Prop := s.command.Outside → ∀ i, (s.buf i).ref ≠ (s.buf i).upd

/-- A table whose prepared side has been handed over. -/
def Buffer.handed (settle : α → α → α) (b : Buffer α) : Buffer α where
  side := Function.update b.side b.ref (settle (b.side b.ref) (b.side b.upd))
  ref := b.upd
  upd := b.ref

/-- A call that has returned has handed its tables over, with what it wrote, and has left the
other tables as they were. -/
def Delivered (D : Design α) (s : State ι α) : Prop :=
  ∀ c, s.command = .returned c →
    (∀ i a, (i, a) ∈ c.batch → (s.buf i).side (s.buf i).ref = a ∧
      s.buf i = (c.old i).handed D.settle) ∧
    ∀ i ∉ c.indices, s.buf i = c.old i

/-! ## The invariant -/

/-- What the position of a worker says about its table. -/
def WorkerOk (b : Buffer α) : Worker → Prop
  | .top held => held = b.ref
  | .compare held r => r = b.ref ∧ held = b.ref
  | .load => b.ref = b.upd
  | .store u => b.ref = b.upd ∧ u = b.upd
  | .enter => True
  | .work side => side = b.ref

/-- How far a table has come in a call. -/
inductive Phase where
  | fresh
  | pending
  | done

/-- A table in a phase, against what it was when the call started. -/
def Phase.Ok (settle : α → α → α) (old b : Buffer α) : Phase → Prop
  | .fresh => b = old
  | .pending => b.upd = old.ref ∧ b.side = old.side
  | .done => b = old.handed settle

section

variable [DecidableEq ι] {D : Design α} {s s' : State ι α} {b old : Buffer α} {c : Call ι α} {i : ι}
  {todo : List ι} {buf init : ι → Buffer α} {p : Phase} {phase : ι → Phase} {w : Worker}
  {worker : ι → Worker} {cmd : Command ι α} {h : List (State ι α × Option ι)} {held : Fin 2}

/-- The phase of a table in the first loop. -/
def Call.publishing (c : Call ι α) (todo : List ι) (i : ι) : Phase :=
  if i ∈ c.indices ∧ i ∉ todo then .pending else .fresh

/-- The phase of a table in the second loop. -/
def Call.waiting (c : Call ι α) (todo : List ι) (i : ι) : Phase :=
  if i ∈ todo then .pending else if i ∈ c.indices then .done else .fresh

/-- What a call knows of the tables at its start. -/
structure Call.Ok (c : Call ι α) : Prop where
  nodup : c.indices.Nodup
  apart : ∀ i, (c.old i).ref ≠ (c.old i).upd
  data : ∀ i a, (i, a) ∈ c.batch → (c.old i).side (c.old i).upd = a

/-- The tables are in the phases that the place of the command thread says. -/
structure InPhases (D : Design α) (buf : ι → Buffer α) (c : Call ι α) (todo : List ι)
    (phase : ι → Phase) : Prop where
  call : c.Ok
  todo : todo <:+ c.indices
  phases : ∀ i, (phase i).Ok D.settle (c.old i) (buf i)

/-- What the place of the command thread says about the tables. -/
def CommandOk (D : Design α) (buf : ι → Buffer α) : Command ι α → Prop
  | .idle => ∀ i, (buf i).ref ≠ (buf i).upd
  | .edit i side => (∀ i, (buf i).ref ≠ (buf i).upd) ∧ side = (buf i).upd
  | .edited i a => (∀ i, (buf i).ref ≠ (buf i).upd) ∧ (buf i).side (buf i).upd = a
  | .publish c todo => InPhases D buf c todo (c.publishing todo)
  | .store c i ref todo =>
      InPhases D buf c (i :: todo) (c.publishing (i :: todo)) ∧ ref = (buf i).ref
  | .wait c todo => InPhases D buf c todo (c.waiting todo)
  | .compare c i ref todo => InPhases D buf c (i :: todo) (c.waiting (i :: todo)) ∧
      (ref ≠ (buf i).upd → (buf i).ref ≠ (buf i).upd)
  | .settle c i side todo => InPhases D buf c (i :: todo) (c.waiting (i :: todo)) ∧
      (buf i).ref ≠ (buf i).upd ∧ side = (buf i).upd
  | .returned c => InPhases D buf c [] (c.waiting [])

/-- The two together. -/
structure Inv (D : Design α) (s : State ι α) : Prop where
  worker : ∀ i, WorkerOk (s.buf i) (s.worker i)
  command : CommandOk D s.buf s.command

/-! ## Tables and phases -/

open DoubleBuffer (add_one_ne add_one_of_ne)

/-- Outside the calls for it, a table has different indices. -/
theorem Phase.Ok.apart {settle : α → α → α}
    (h : p.Ok settle old b) (hold : old.ref ≠ old.upd) (hp : p ≠ .pending) : b.ref ≠ b.upd := by
  cases p with
  | fresh =>
    obtain rfl : b = old := h
    exact hold
  | pending => exact absurd rfl hp
  | done =>
    obtain rfl : b = old.handed settle := h
    exact hold.symm

/-- The worker has moved on, and the side it has left is brought up to date. -/
theorem Phase.Ok.settle {settle : α → α → α}
    (h : Phase.pending.Ok settle old b) (hold : old.ref ≠ old.upd) (hne : b.ref ≠ b.upd) :
    Phase.done.Ok settle old
      { b with side := update b.side b.upd (settle (b.side b.upd) (b.side b.ref)) } := by
  obtain ⟨hupd, hside⟩ := h
  have href : b.ref = old.upd := by
    rw [← add_one_of_ne hne, hupd, add_one_of_ne hold.symm]
  show Buffer.mk _ _ _ = _
  rw [href, hupd, hside]
  rfl

theorem Call.waiting_nil_ne (c : Call ι α) (i : ι) : c.waiting [] i ≠ .pending := by
  unfold Call.waiting
  rw [if_neg List.not_mem_nil]
  split <;> nofun

/-- One table moves on in the first loop. -/
theorem Call.publishing_cons (hc : c.Ok) (htodo : i :: todo <:+ c.indices) (j : ι) :
    c.publishing (i :: todo) i = .fresh ∧ c.publishing todo i = .pending ∧
      (j ≠ i → c.publishing todo j = c.publishing (i :: todo) j) := by
  have hnotin : i ∉ todo := (List.nodup_cons.mp (hc.nodup.sublist htodo.sublist)).1
  have hin : i ∈ c.indices := htodo.subset List.mem_cons_self
  refine ⟨if_neg fun h => h.2 List.mem_cons_self, if_pos ⟨hin, hnotin⟩, fun hne => ?_⟩
  simp only [Call.publishing, List.mem_cons, hne, false_or]

/-- One table moves on in the second loop. -/
theorem Call.waiting_cons (hc : c.Ok) (htodo : i :: todo <:+ c.indices) (j : ι) :
    c.waiting (i :: todo) i = .pending ∧ c.waiting todo i = .done ∧
      (j ≠ i → c.waiting todo j = c.waiting (i :: todo) j) := by
  have hnotin : i ∉ todo := (List.nodup_cons.mp (hc.nodup.sublist htodo.sublist)).1
  have hin : i ∈ c.indices := htodo.subset List.mem_cons_self
  refine ⟨if_pos List.mem_cons_self, ?_, fun hne => ?_⟩
  · rw [Call.waiting, if_neg hnotin, if_pos hin]
  · simp only [Call.waiting, List.mem_cons, hne, false_or]

/-- The second loop starts where the first has ended. -/
theorem Call.waiting_indices (c : Call ι α) (i : ι) :
    c.waiting c.indices i = c.publishing [] i := by
  unfold Call.waiting Call.publishing
  by_cases hi : i ∈ c.indices
  · rw [if_pos hi, if_pos ⟨hi, List.not_mem_nil⟩]
  · rw [if_neg hi, if_neg hi, if_neg fun h => hi h.1]

/-- A table is changed and moves on to the next phase. -/
theorem InPhases.update {phase' : ι → Phase} (h : InPhases D buf c (i :: todo) phase)
    (hb : (phase' i).Ok D.settle (c.old i) b) (hother : ∀ j ≠ i, phase' j = phase j) :
    InPhases D (update buf i b) c todo phase' := by
  refine ⟨h.call, (List.suffix_cons i todo).trans h.todo, fun j => ?_⟩
  rcases eq_or_ne j i with rfl | hne
  · rwa [update_self]
  · rw [update_of_ne hne, hother j hne]
    exact h.phases j

/-! ## Steps of the command thread -/

/-- The command thread does not change `ref`, and changes `upd` only while the indices are
different. -/
theorem WorkerOk.congr {b' : Buffer α} (h : WorkerOk b w) (href : b'.ref = b.ref)
    (hupd : b'.upd = b.upd ∨ b.ref ≠ b.upd) : WorkerOk b' w := by
  cases w with
  | top held => exact h.trans href.symm
  | compare held r => exact ⟨h.1.trans href.symm, h.2.trans href.symm⟩
  | load =>
    rcases hupd with hupd | hne
    · exact (href.trans h).trans hupd.symm
    · exact absurd h hne
  | store u =>
    rcases hupd with hupd | hne
    · exact ⟨(href.trans h.1).trans hupd.symm, h.2.trans hupd.symm⟩
    · exact absurd h.1 hne
  | enter => trivial
  | work side => exact h.trans href.symm

theorem workerOk_update (h : ∀ i, WorkerOk (buf i) (worker i)) (href : b.ref = (buf i).ref)
    (hupd : b.upd = (buf i).upd ∨ (buf i).ref ≠ (buf i).upd) (j : ι) :
    WorkerOk (update buf i b j) (worker j) := by
  rcases eq_or_ne j i with rfl | hne
  · rw [update_self]
    exact (h j).congr href hupd
  · rw [update_of_ne hne]
    exact h j

/-- Between the calls, all indices are different. -/
theorem CommandOk.apart (h : CommandOk D buf cmd)
    (hout : cmd.Outside) (i : ι) : (buf i).ref ≠ (buf i).upd := by
  cases cmd with
  | idle => exact h i
  | edit | edited => exact h.1 i
  | returned c =>
    have h : InPhases D buf c [] (c.waiting []) := h
    exact (h.phases i).apart (h.call.apart i) (c.waiting_nil_ne i)
  | _ => exact hout.elim

omit [DecidableEq ι] in
theorem Command.Free.outside (h : cmd.Free) : cmd.Outside := by
  cases cmd with
  | idle | returned => trivial
  | _ => exact h.elim

/-- A call starts with all tables fresh. -/
theorem inPhases_of_call (hapart : ∀ i, (buf i).ref ≠ (buf i).upd)
    {batch : List (ι × α)} (hnodup : (batch.map Prod.fst).Nodup)
    (hdata : ∀ i a, (i, a) ∈ batch → (buf i).side (buf i).upd = a) :
    InPhases D buf ⟨buf, batch⟩ (batch.map Prod.fst)
      (Call.publishing ⟨buf, batch⟩ (batch.map Prod.fst)) := by
  refine ⟨⟨hnodup, hapart, hdata⟩, List.suffix_refl _, fun i => ?_⟩
  have hfresh : Call.publishing ⟨buf, batch⟩ (batch.map Prod.fst) i = .fresh :=
    if_neg fun h => h.2 h.1
  rw [hfresh]
  rfl

/-- **A step of the command thread.** -/
theorem Inv.command_step (h : Inv D s) (hstep : Step D s none s') : Inv D s' := by
  obtain ⟨hworker, hcommand⟩ := h
  cases hstep with
  | edit i hfree => exact ⟨hworker, hcommand.apart hfree.outside, rfl⟩
  | @write i side a hat hedit =>
    rw [hat] at hcommand
    obtain ⟨hapart, rfl⟩ := hcommand
    refine ⟨workerOk_update hworker rfl (.inl rfl), fun j => ?_, ?_⟩
    · dsimp only
      rcases eq_or_ne j i with rfl | hne
      · rw [update_self]
        exact hapart j
      · rw [update_of_ne hne]
        exact hapart j
    · dsimp only
      rw [update_self]
      exact update_self ..
  | leave hat =>
    rw [hat] at hcommand
    exact ⟨hworker, hcommand.1⟩
  | call l hl hfree =>
    refine ⟨hworker, ?_⟩
    have hfst : (l.map fun i => (i, (s.buf i).side (s.buf i).upd)).map Prod.fst = l := by
      rw [List.map_map]
      exact List.map_id l
    have hdata : ∀ i a, (i, a) ∈ l.map (fun i => (i, (s.buf i).side (s.buf i).upd)) →
        (s.buf i).side (s.buf i).upd = a := by
      intro i a hmem
      obtain ⟨j, -, hj⟩ := List.mem_map.mp hmem
      cases hj
      rfl
    have hphases := inPhases_of_call (D := D) (hcommand.apart hfree.outside)
      (by rwa [hfst]) hdata
    rwa [hfst] at hphases
  | handOver hat =>
    rw [hat] at hcommand
    refine ⟨hworker, inPhases_of_call hcommand.1 (List.nodup_singleton _) ?_⟩
    intro i a hmem
    cases List.mem_singleton.mp hmem
    exact hcommand.2
  | readRef hat =>
    rw [hat] at hcommand
    exact ⟨hworker, hcommand, rfl⟩
  | @storeUpd c i ref todo hat =>
    rw [hat] at hcommand
    obtain ⟨hphases, rfl⟩ := hcommand
    obtain ⟨hfresh, hpending, -⟩ := Call.publishing_cons hphases.call hphases.todo i
    have hold : s.buf i = c.old i := by
      have hphase := hphases.phases i
      rwa [hfresh] at hphase
    have hne : (s.buf i).ref ≠ (s.buf i).upd := by
      rw [hold]
      exact hphases.call.apart i
    refine ⟨workerOk_update hworker rfl (.inr hne), hphases.update ?_ fun j hj =>
      (Call.publishing_cons hphases.call hphases.todo j).2.2 hj⟩
    rw [hpending, ← hold]
    exact ⟨rfl, rfl⟩
  | published hat =>
    rw [hat] at hcommand
    refine ⟨hworker, hcommand.call, List.suffix_refl _, fun i => ?_⟩
    rw [Call.waiting_indices]
    exact hcommand.phases i
  | poll hat =>
    rw [hat] at hcommand
    exact ⟨hworker, hcommand, fun hne => hne⟩
  | again hat =>
    rw [hat] at hcommand
    exact ⟨hworker, hcommand.1⟩
  | left hat hne =>
    rw [hat] at hcommand
    exact ⟨hworker, hcommand.1, hcommand.2 hne, rfl⟩
  | @settle c i side todo hat =>
    rw [hat] at hcommand
    obtain ⟨hphases, hne, rfl⟩ := hcommand
    obtain ⟨hpending, hdone, -⟩ := Call.waiting_cons hphases.call hphases.todo i
    refine ⟨workerOk_update hworker rfl (.inl rfl), hphases.update ?_ fun j hj =>
      (Call.waiting_cons hphases.call hphases.todo j).2.2 hj⟩
    have hphase := hphases.phases i
    rw [hpending] at hphase
    rw [hdone]
    exact hphase.settle (hphases.call.apart i) hne
  | ret hat =>
    rw [hat] at hcommand
    exact ⟨hworker, hcommand⟩

/-! ## Steps of a worker -/

/-- The worker moves `ref` while the indices are equal, which they are in one phase only. -/
theorem Phase.Ok.moveRef {settle : α → α → α}
    (h : p.Ok settle old b) (hold : old.ref ≠ old.upd) (heq : b.ref = b.upd) (r : Fin 2) :
    p.Ok settle old { b with ref := r } := by
  cases p with
  | pending => exact h
  | fresh | done => exact absurd heq (h.apart hold nofun)

theorem InPhases.moveRef
    (h : InPhases D buf c todo phase) (heq : (buf i).ref = (buf i).upd) (r : Fin 2) :
    InPhases D (Function.update buf i { buf i with ref := r }) c todo phase := by
  refine ⟨h.call, h.todo, fun j => ?_⟩
  rcases eq_or_ne j i with rfl | hne
  · rw [update_self]
    exact (h.phases j).moveRef (h.call.apart j) heq r
  · rw [update_of_ne hne]
    exact h.phases j

theorem CommandOk.moveRef (h : CommandOk D buf cmd) (heq : (buf i).ref = (buf i).upd) :
    CommandOk D (update buf i { buf i with ref := (buf i).upd + 1 }) cmd := by
  cases cmd with
  | idle => exact absurd heq (h i)
  | edit | edited => exact absurd heq (h.1 i)
  | publish c todo => exact InPhases.moveRef h heq _
  | store c j ref todo =>
    obtain ⟨hphases, rfl⟩ := h
    have hne : j ≠ i := by
      rintro rfl
      obtain ⟨hfresh, -, -⟩ := Call.publishing_cons hphases.call hphases.todo j
      have hphase := hphases.phases j
      rw [hfresh] at hphase
      exact hphase.apart (hphases.call.apart j) nofun heq
    refine ⟨hphases.moveRef heq _, ?_⟩
    rw [update_of_ne hne]
  | wait c todo => exact InPhases.moveRef h heq _
  | compare c j ref todo =>
    refine ⟨h.1.moveRef heq _, ?_⟩
    rcases eq_or_ne j i with rfl | hne
    · rw [update_self]
      exact fun _ => add_one_ne _
    · rw [update_of_ne hne]
      exact h.2
  | settle c j side todo =>
    have hne : j ≠ i := by
      rintro rfl
      exact h.2.1 heq
    refine ⟨h.1.moveRef heq _, ?_⟩
    rw [update_of_ne hne]
    exact h.2
  | returned c => exact InPhases.moveRef h heq _

theorem workerOk_move (h : ∀ i, WorkerOk (buf i) (worker i)) (hw : WorkerOk (buf i) w) (j : ι) :
    WorkerOk (buf j) (update worker i w j) := by
  rcases eq_or_ne j i with rfl | hne
  · rwa [update_self]
  · rw [update_of_ne hne]
    exact h j

/-- **A step of a worker.** -/
theorem Inv.worker_step (h : Inv D s) (hstep : Step D s (some i) s') : Inv D s' := by
  obtain ⟨hworker, hcommand⟩ := h
  have hi := hworker i
  cases hstep with
  | top hat =>
    rw [hat] at hi
    exact ⟨workerOk_move hworker ⟨rfl, hi⟩, hcommand⟩
  | differ hat hne =>
    rw [hat] at hi
    refine ⟨workerOk_move hworker ?_, hcommand⟩
    split
    · exact hi.2
    · trivial
  | equal hat heq =>
    rw [hat] at hi
    exact ⟨workerOk_move hworker (hi.1.symm.trans heq), hcommand⟩
  | load hat =>
    rw [hat] at hi
    exact ⟨workerOk_move hworker ⟨hi, rfl⟩, hcommand⟩
  | @store _ upd hat =>
    rw [hat] at hi
    obtain ⟨heq, rfl⟩ := hi
    refine ⟨fun j => ?_, hcommand.moveRef heq⟩
    dsimp only
    rcases eq_or_ne j i with rfl | hne
    · rw [update_self, update_self]
      trivial
    · rw [update_of_ne hne, update_of_ne hne]
      exact hworker j
  | enter hat => exact ⟨workerOk_move hworker rfl, hcommand⟩
  | work hat =>
    rw [hat] at hi
    exact ⟨workerOk_move hworker hi, hcommand⟩

/-! ## Every run -/

theorem Inv.step (h : Inv D s) {a : Option ι} (hstep : Step D s a s') : Inv D s' := by
  cases a with
  | none => exact h.command_step hstep
  | some i => exact h.worker_step hstep

theorem inv_of_run (hinit : ∀ i, (init i).ref ≠ (init i).upd)
    (hrun : Run (system D init) h s) : Inv D s := by
  refine hrun.invariant (I := Inv D) (G := fun _ _ => True) ?_ ?_ fun _ _ => trivial
  · rintro s rfl
    exact ⟨fun _ => rfl, hinit⟩
  intro s e s' hs _ hstep
  exact hs.step hstep

/-- The command thread writes to `upd` while it is not `ref`, and the worker reads `ref`. -/
theorem Inv.exclusive (h : Inv D s) : Exclusive s := by
  intro i side hwrites hreads
  have hupd : (s.buf i).ref ≠ (s.buf i).upd ∧ side = (s.buf i).upd := by
    have hcommand := h.command
    cases hcmd : s.command with
    | edit j side' =>
      rw [hcmd] at hwrites hcommand
      cases hwrites
      exact ⟨hcommand.1 i, hcommand.2⟩
    | settle c j side' todo =>
      rw [hcmd] at hwrites hcommand
      cases hwrites
      exact hcommand.2
    | _ =>
      rw [hcmd] at hwrites
      cases hwrites
  have href : side = (s.buf i).ref := by
    have hworker := h.worker i
    cases hw : s.worker i with
    | work side' =>
      rw [hw] at hreads hworker
      cases hreads
      exact hworker
    | _ =>
      rw [hw] at hreads
      cases hreads
  exact hupd.1 (href.symm.trans hupd.2)

theorem Inv.delivered (h : Inv D s) : Delivered D s := by
  intro c hret
  have hphases : InPhases D s.buf c [] (c.waiting []) := by
    have hcommand := h.command
    rwa [hret] at hcommand
  refine ⟨fun i a hmem => ?_, fun i hi => ?_⟩
  · have hin : i ∈ c.indices := List.mem_map_of_mem hmem
    have hdone : c.waiting [] i = .done := by
      rw [Call.waiting, if_neg List.not_mem_nil, if_pos hin]
    have hbuf : s.buf i = (c.old i).handed D.settle := by
      have hphase := hphases.phases i
      rwa [hdone] at hphase
    refine ⟨?_, hbuf⟩
    rw [hbuf]
    exact (update_of_ne (hphases.call.apart i).symm _ _).trans (hphases.call.data i a hmem)
  · have hfresh : c.waiting [] i = .fresh := by
      rw [Call.waiting, if_neg List.not_mem_nil, if_neg hi]
    have hphase := hphases.phases i
    rwa [hfresh] at hphase

/-- **The protocol is safe**, in every run from tables whose indices are different: what the
command thread writes is not read, outside a call the indices are different, and a call that
has returned has handed over what it wrote. -/
theorem safe_of_run (hinit : ∀ i, (init i).ref ≠ (init i).upd) (hrun : Run (system D init) h s) :
    Exclusive s ∧ Apart s ∧ Delivered D s := by
  have hinv := inv_of_run hinit hrun
  exact ⟨hinv.exclusive, hinv.command.apart, hinv.delivered⟩

/-! ## A call that returns -/

/-- The worker finds the indices equal and moves to the other side. -/
theorem reaches_swap (s : State ι α)
    (hat : s.worker i = .top held) (heq : (s.buf i).ref = (s.buf i).upd) :
    Reaches (system D init) (fun _ _ => True) s
      { s with
        buf := update s.buf i { s.buf i with ref := (s.buf i).upd + 1 }
        worker := update s.worker i .enter } := by
  refine .head ⟨some i, trivial, .top hat⟩ ?_
  refine .head ⟨some i, trivial, .equal (update_self ..) heq⟩ ?_
  refine .head ⟨some i, trivial, .load (update_self ..)⟩ ?_
  refine .head ⟨some i, trivial, .store (update_self ..)⟩ ?_
  simp only [update_idem]
  exact .refl

/-- **A call for one table**, with the worker moving while the command thread waits. -/
theorem reaches_returned (s : State ι α)
    (hcommand : s.command = .publish c [i]) (hindices : c.indices = [i])
    (hat : s.worker i = .top held) (hne : (s.buf i).ref ≠ (s.buf i).upd) :
    Reaches (system D init) (fun _ _ => True) s
      ⟨update s.buf i ((s.buf i).handed D.settle), .returned c,
        update s.worker i .enter⟩ := by
  have hupd : (s.buf i).ref + 1 = (s.buf i).upd := add_one_of_ne hne.symm
  refine .head ⟨none, trivial, .readRef hcommand⟩ ?_
  refine .head ⟨none, trivial, .storeUpd rfl⟩ ?_
  refine .head ⟨none, trivial, .published rfl⟩ ?_
  refine .trans (reaches_swap _ hat (by simp only [update_self])) ?_
  refine .head ⟨none, trivial, .poll (by rw [hindices])⟩ ?_
  refine .head ⟨none, trivial, .left rfl ?_⟩ ?_
  · simp only [update_self]
    exact add_one_ne _
  refine .head ⟨none, trivial, .settle rfl⟩ ?_
  refine .head ⟨none, trivial, .ret rfl⟩ ?_
  simp only [update_idem, update_self, hupd]
  exact .refl

end

end SoftPatchPanel.Handover
