import Mathlib.Data.Fintype.Basic
import Mathlib.Data.List.Nodup
import SoftPatchPanel.Foundation.CString
import SoftPatchPanel.Foundation.Transition

/-!
# The registry of processes in `spp-ctl`

`spp-ctl` keeps the connected processes in the dictionary `procs`, by client id.  Green
threads work on it: one accepts the primary process, one the secondary processes, any
number scan the processes for those that do not answer (`_update_procs` and
`get_cpu_usage`), and others exit a process or execute a command.  A green thread runs
until it waits for a socket or for the semaphore of a process.  A step here is what it
does in between.

An entry of `procs` refers to an object.  Connections and objects are numbered in the
order in which they are made.

## Iterating over a dictionary

A scan talks to one process after another while it iterates over `procs`.  Python only
promises something about the iteration as long as no key is added or deleted.  After that,
the iterator may raise, go on with any item, or stop; `keyChanges` counts those changes, so
that an iterator can tell.

A scan deletes the processes that did not answer at its end, by id.

## What can go wrong

The id 0 of the primary process is accepted as a client id.  And whatever happens to
`procs` during a scan can make the iteration raise, make the deletion raise because the
entry is gone, or have it remove a process that has come back under the same id.  `Guard`
keeps registrations, exits and removals out of the scans of other threads.
-/

namespace SoftPatchPanel.SppCtl
namespace Registry

open Transition (System Run Guarded ofStep)
open Function (update update_self update_of_ne)

variable {ι : Type} {proc maxLcore : ℕ} {withPrimary : Bool} {i : ι}

/-! ## A dictionary in insertion order -/

section Dict

variable {V : Type} {d : List (ℤ × V)} {k : ℤ} {v : V} {e : ℤ × V}

/-- `d.get(k)`. -/
def get (d : List (ℤ × V)) (k : ℤ) : Option V := (d.find? fun e => e.1 = k).map Prod.snd

/-- `d[k] = v`: a key that is there keeps its place. -/
def put (d : List (ℤ × V)) (k : ℤ) (v : V) : List (ℤ × V) :=
  if (get d k).isSome then d.map fun e => if e.1 = k then (k, v) else e else d ++ [(k, v)]

/-- `del d[k]`. -/
def del (d : List (ℤ × V)) (k : ℤ) : List (ℤ × V) := d.filter fun e => e.1 ≠ k

theorem mem_of_get (h : get d k = some v) : (k, v) ∈ d := by
  obtain ⟨e, he, rfl⟩ := Option.map_eq_some_iff.mp h
  have hk := List.find?_some he
  rw [decide_eq_true_eq] at hk
  subst hk
  exact List.mem_of_find?_eq_some he

theorem get_of_mem (hd : (d.map Prod.fst).Nodup) (h : (k, v) ∈ d) : get d k = some v := by
  cases hget : get d k with
  | none =>
    have hnone := List.find?_eq_none.mp (Option.map_eq_none_iff.mp hget) (k, v) h
    exact absurd (decide_eq_true rfl) hnone
  | some v' =>
    have heq := List.inj_on_of_nodup_map hd (mem_of_get hget) h rfl
    rw [(Prod.mk.inj heq).2]

theorem mem_put (h : e ∈ put d k v) : e ∈ d ∨ e = (k, v) := by
  unfold put at h
  split at h
  · obtain ⟨e', he', rfl⟩ := List.mem_map.mp h
    split
    · exact .inr rfl
    · exact .inl he'
  · rcases List.mem_append.mp h with h | h
    · exact .inl h
    · exact .inr (List.mem_singleton.mp h)

theorem nodup_put (hd : (d.map Prod.fst).Nodup) (k : ℤ) (v : V) :
    ((put d k v).map Prod.fst).Nodup := by
  unfold put
  split
  · rw [List.map_map]
    have hkeys : d.map (Prod.fst ∘ fun e => if e.1 = k then (k, v) else e) = d.map Prod.fst := by
      refine List.map_congr_left fun e _ => ?_
      show (if e.1 = k then (k, v) else e).1 = e.1
      split
      · rename_i hk
        exact hk.symm
      · rfl
    rwa [hkeys]
  · rename_i hnone
    rw [List.map_append, List.nodup_append]
    refine ⟨hd, List.nodup_singleton _, fun a ha b hb => ?_⟩
    rw [List.mem_singleton.mp hb]
    rintro rfl
    obtain ⟨e, he, rfl⟩ := List.mem_map.mp ha
    exact hnone (by rw [get_of_mem hd he]; rfl)

theorem nodup_del (hd : (d.map Prod.fst).Nodup) (k : ℤ) : ((del d k).map Prod.fst).Nodup :=
  (List.filter_sublist.map Prod.fst).nodup hd

theorem mem_del : e ∈ del d k ↔ e ∈ d ∧ e.1 ≠ k := by
  rw [del, List.mem_filter, decide_eq_true_eq]

end Dict

/-! ## The state -/

/-- `ID_PRIMARY`. -/
def idPrimary : ℤ := 0

inductive ProcType where
  | primary
  | vf
  | nfv
  | mirror
  | pcap
  deriving DecidableEq, Repr

/-- `SppProc`, but for its semaphore. -/
structure Proc where
  id : ℤ
  type : ProcType
  conn : ℕ
  deriving DecidableEq, Repr

/-- Who holds the semaphore of a process. -/
inductive Holder (ι : Type) where
  | command
  | acceptPrimary
  | acceptSecondary
  | scan (i : ι)
  deriving DecidableEq, Repr

/-- Where `accept_primary` is.  With a connection it waits for the semaphore of the old
process, or holds it and closes the old connection. -/
inductive AcceptPrimary where
  | listening
  | waiting (proc conn : ℕ)
  | closing (proc conn : ℕ)
  deriving DecidableEq, Repr

/-- Where `accept_secondary` is: in `_get_proc`, or with an old process under the id of the
new one. -/
inductive AcceptSecondary where
  | listening
  | identifying (conn : ℕ)
  | waiting (old new : ℕ)
  | closing (old new : ℕ)
  deriving DecidableEq, Repr

/-- A scan in its loop: the iterator, `removed_ids`, and the item at which `get_status`
waits for the semaphore or has it and talks to the process.  `get_cpu_usage` looks at the
primary process too. -/
structure Scan where
  withPrimary : Bool
  keyChanges : ℕ
  pos : ℕ
  removedIds : List ℤ
  idx : ℤ
  proc : ℕ
  talking : Bool
  deriving DecidableEq, Repr

/-- The state of `spp-ctl`, with any set of threads that scan.  `alive` is about both ends of a connection and
`fromPrimary` about the port it was accepted at.  `raised` records that an iteration over
`procs` or a deletion from it has raised, and `lost` that a scan has removed a process
whose connection is alive. -/
structure State (ι : Type) where
  procs : List (ℤ × ℕ)
  keyChanges : ℕ
  object : ℕ → Proc
  objects : ℕ
  alive : ℕ → Bool
  fromPrimary : ℕ → Bool
  conns : ℕ
  sem : ℕ → Option (Holder ι)
  acceptPrimary : AcceptPrimary
  acceptSecondary : AcceptSecondary
  scan : ι → Option Scan
  raised : Bool
  lost : Bool

def State.init : State ι where
  procs := []
  keyChanges := 0
  object _ := ⟨0, .primary, 0⟩
  objects := 0
  alive _ := false
  fromPrimary _ := false
  conns := 0
  sem _ := none
  acceptPrimary := .listening
  acceptSecondary := .listening
  scan _ := none
  raised := false
  lost := false

/-- `procs[id] = proc`. -/
def State.register (s : State ι) (id : ℤ) (proc : ℕ) : State ι :=
  { s with
    procs := put s.procs id proc
    keyChanges := if (get s.procs id).isSome then s.keyChanges else s.keyChanges + 1 }

/-- A new object. -/
def State.create (s : State ι) (proc : Proc) : State ι :=
  { s with object := Function.update s.object s.objects proc, objects := s.objects + 1 }

/-- A new connection. -/
def State.connect (s : State ι) (fromPrimary : Bool) : State ι :=
  { s with
    alive := Function.update s.alive s.conns true
    fromPrimary := Function.update s.fromPrimary s.conns fromPrimary
    conns := s.conns + 1 }

/-- A connection ends. -/
def State.close (s : State ι) (conn : ℕ) : State ι :=
  { s with alive := Function.update s.alive conn false }

/-- A process gets another connection. -/
def State.reconnect (s : State ι) (proc conn : ℕ) : State ι :=
  { s with object := Function.update s.object proc ⟨(s.object proc).id, (s.object proc).type, conn⟩ }

/-- A semaphore is taken or given back. -/
def State.setSem (s : State ι) (proc : ℕ) (holder : Option (Holder ι)) : State ι :=
  { s with sem := Function.update s.sem proc holder }

/-! ## `accept_primary` -/

/-- A primary process connects. -/
def acceptPrimary (s : State ι) : Option (State ι) :=
  match s.acceptPrimary with
  | .listening =>
    let conn := s.conns
    let s := s.connect true
    match get s.procs idPrimary with
    | some proc => some { s with acceptPrimary := .waiting proc conn }
    | none => some ((s.create ⟨idPrimary, .primary, conn⟩).register idPrimary s.objects)
  | _ => none

def primaryAcquire (s : State ι) : Option (State ι) :=
  match s.acceptPrimary with
  | .waiting proc conn =>
    if s.sem proc = none then
      some { s.setSem proc (some .acceptPrimary) with acceptPrimary := .closing proc conn }
    else none
  | _ => none

def primaryClose (s : State ι) : Option (State ι) :=
  match s.acceptPrimary with
  | .closing proc conn =>
    let s' := ((s.close (s.object proc).conn).reconnect proc conn).setSem proc none
    some { s' with acceptPrimary := .listening }
  | _ => none

/-! ## `accept_secondary` -/

/-- `parse_client_id` of the secondary processes.  Only the upper bound is tested. -/
def parseClientId (maxLcore : ℕ) (arg : CString) : Option ℤ :=
  match CString.strtol 0 arg with
  | some (n, []) => if CString.intOfLong n ≥ maxLcore then none else some (CString.intOfLong n)
  | _ => none

def acceptSecondary (s : State ι) : Option (State ι) :=
  match s.acceptSecondary with
  | .listening => some { s.connect false with acceptSecondary := .identifying s.conns }
  | _ => none

/-- `_get_proc` returns: nothing, or a process of some type that was started with the
client id in `arg`. -/
def identify (maxLcore : ℕ) (s : State ι) (reply : Option (ProcType × CString)) : Option (State ι) :=
  match s.acceptSecondary, reply with
  | .identifying conn, none => some { s.close conn with acceptSecondary := .listening }
  | .identifying conn, some (type, arg) =>
    match parseClientId maxLcore arg with
    | none => none
    | some id =>
      if type = .primary then none
      else
        match get s.procs id with
        | some old => some { s.create ⟨id, type, conn⟩ with
            acceptSecondary := .waiting old s.objects }
        | none =>
          let s' := (s.create ⟨id, type, conn⟩).register id s.objects
          some { s' with acceptSecondary := .listening }
  | _, _ => none

def secondaryAcquire (s : State ι) : Option (State ι) :=
  match s.acceptSecondary with
  | .waiting old new =>
    if s.sem old = none then
      some { s.setSem old (some .acceptSecondary) with acceptSecondary := .closing old new }
    else none
  | _ => none

def secondaryClose (s : State ι) : Option (State ι) :=
  match s.acceptSecondary with
  | .closing old new =>
    let s := ((s.close (s.object old).conn).setSem old none).register (s.object new).id new
    some { s with acceptSecondary := .listening }
  | _ => none

/-! ## Scans -/

/-- What an iterator does after a key was added or deleted. -/
inductive Iter where
  | raise
  | stop
  | item (idx : ℤ)
  deriving DecidableEq, Repr

/-- The scan looks at this process. -/
def State.Scanned (s : State ι) (withPrimary : Bool) (proc : ℕ) : Prop :=
  withPrimary = true ∨ (s.object proc).id ≠ idPrimary

instance (s : State ι) (withPrimary : Bool) (proc : ℕ) : Decidable (s.Scanned withPrimary proc) :=
  inferInstanceAs (Decidable (_ ∨ _))

/-- The next item to look at, with the position behind it. -/
def nextItem (s : State ι) (withPrimary : Bool) : List (ℤ × ℕ) → ℕ → Option (ℕ × ℤ × ℕ)
  | [], _ => none
  | (idx, proc) :: rest, pos =>
    if s.Scanned withPrimary proc then some (pos + 1, idx, proc)
    else nextItem s withPrimary rest (pos + 1)

/-- The deletions at the end of a scan. -/
def removeAll (s : State ι) : List ℤ → State ι
  | [] => s
  | idx :: rest =>
    match get s.procs idx with
    | none => { s with raised := true }
    | some proc =>
      removeAll { s with
        procs := del s.procs idx
        keyChanges := s.keyChanges + 1
        lost := s.lost || s.alive (s.object proc).conn } rest

section Threads

variable [DecidableEq ι]

/-- A scan goes on with the next item. -/
def lookAt (s : State ι) (i : ι) (sc : Scan) (pos : ℕ) (idx : ℤ) (proc : ℕ) : State ι :=
  let sc' := { sc with pos := pos, idx := idx, proc := proc, talking := false }
  { s with scan := Function.update s.scan i (some sc') }

/-- A scan ends. -/
def leave (s : State ι) (i : ι) : State ι := { s with scan := Function.update s.scan i none }

/-- A scan goes on until it has to wait.  `o` says what an iterator does that is no longer
good. -/
def scanOn (s : State ι) (i : ι) (sc : Scan) (o : Iter) : Option (State ι) :=
  if sc.keyChanges = s.keyChanges then
    match nextItem s sc.withPrimary (s.procs.drop sc.pos) sc.pos with
    | some (pos, idx, proc) => some (lookAt s i sc pos idx proc)
    | none => some (removeAll (leave s i) sc.removedIds)
  else
    match o with
    | .raise => some { leave s i with raised := true }
    | .stop => some (removeAll (leave s i) sc.removedIds)
    | .item idx =>
      match get s.procs idx with
      | some proc =>
        if s.Scanned sc.withPrimary proc then some (lookAt s i sc sc.pos idx proc) else none
      | none => none

/-- `_update_procs` or `get_cpu_usage` begins. -/
def startScan (s : State ι) (i : ι) (withPrimary : Bool) (o : Iter) : Option (State ι) :=
  match s.scan i with
  | none => scanOn s i ⟨withPrimary, s.keyChanges, 0, [], 0, 0, false⟩ o
  | some _ => none

def scanAcquire (s : State ι) (i : ι) : Option (State ι) :=
  match s.scan i with
  | some sc =>
    if sc.talking = false ∧ s.sem sc.proc = none then
      some { s.setSem sc.proc (some (.scan i)) with
        scan := Function.update s.scan i (some { sc with talking := true }) }
    else none
  | none => none

/-- The ids of the processes that did not answer. -/
def Scan.noted (sc : Scan) (answered : Bool) : List ℤ :=
  if answered then sc.removedIds else sc.removedIds ++ [sc.idx]

/-- `get_status` returns or raises. -/
def scanCheck (s : State ι) (i : ι) (answered : Bool) (o : Iter) : Option (State ι) :=
  match s.scan i with
  | some sc =>
    if sc.talking then
      scanOn (s.setSem sc.proc none) i { sc with removedIds := sc.noted answered } o
    else none
  | none => none

/-! ## Exits, commands and the world outside -/

/-- `do_exit` of the controller. -/
def doExit (s : State ι) (type : ProcType) (id : ℤ) : State ι :=
  match s.procs.find? fun e => (s.object e.2).type = type ∧ (s.object e.2).id = id with
  | none => s
  | some e =>
    if (get s.procs (s.object e.2).id).isSome then
      { s with procs := del s.procs (s.object e.2).id, keyChanges := s.keyChanges + 1 }
    else { s with raised := true }

inductive Event (ι : Type) where
  | acceptPrimary
  | primaryAcquire
  | primaryClose
  | acceptSecondary
  | identify (reply : Option (ProcType × CString))
  | secondaryAcquire
  | secondaryClose
  | startScan (i : ι) (withPrimary : Bool) (o : Iter)
  | scanAcquire (i : ι)
  | scanCheck (i : ι) (answered : Bool) (o : Iter)
  | exit (type : ProcType) (id : ℤ)
  /-- A command takes the semaphore of a process. -/
  | command (proc : ℕ)
  | commandDone (proc : ℕ)
  /-- A process goes away. -/
  | hangUp (conn : ℕ)

def next (maxLcore : ℕ) (s : State ι) : Event ι → Option (State ι)
  | .acceptPrimary => acceptPrimary s
  | .primaryAcquire => primaryAcquire s
  | .primaryClose => primaryClose s
  | .acceptSecondary => acceptSecondary s
  | .identify reply => identify maxLcore s reply
  | .secondaryAcquire => secondaryAcquire s
  | .secondaryClose => secondaryClose s
  | .startScan i withPrimary o => startScan s i withPrimary o
  | .scanAcquire i => scanAcquire s i
  | .scanCheck i answered o => scanCheck s i answered o
  | .exit type id => some (doExit s type id)
  | .command proc =>
    if proc < s.objects ∧ s.sem proc = none then some (s.setSem proc (some .command)) else none
  | .commandDone proc => if s.sem proc = some .command then some (s.setSem proc none) else none
  | .hangUp conn => some (s.close conn)

/-- The threads of `spp-ctl`. -/
def controller (maxLcore : ℕ) : System (State ι) (Event ι) := ofStep .init (next maxLcore)

end Threads

/-! ## What is wanted, and when it holds -/

/-- No thread scans. -/
def Quiet (s : State ι) : Prop := ∀ i, s.scan i = none

/-- A process registers, comes back or exits only while no scan is under way, and not under
the id of the primary process; a scan only takes a process for gone whose connection has
ended, and it goes on with such a process noted only if there is no other scan. -/
def Guard (maxLcore : ℕ) (s : State ι) : Event ι → Prop
  | .acceptPrimary => get s.procs idPrimary = none → Quiet s
  | .primaryClose => Quiet s
  | .identify (some (_, arg)) => ∀ id ∈ parseClientId maxLcore arg,
      id ≠ idPrimary ∧ (get s.procs id = none → Quiet s)
  | .secondaryClose => Quiet s
  | .exit _ _ => Quiet s
  | .scanCheck i answered _ => ∀ sc ∈ s.scan i,
      (answered = false → s.alive (s.object sc.proc).conn = false) ∧
      (sc.noted answered ≠ [] → ∀ j ≠ i, s.scan j = none)
  | _ => True

instance [Fintype ι] (s : State ι) : Decidable (Quiet s) :=
  inferInstanceAs (Decidable (∀ _, _))

instance [Fintype ι] [DecidableEq ι] (maxLcore : ℕ) (s : State ι) :
    (e : Event ι) → Decidable (Guard maxLcore s e)
  | .acceptPrimary => inferInstanceAs (Decidable (_ → _))
  | .primaryClose | .secondaryClose | .exit _ _ => inferInstanceAs (Decidable (Quiet s))
  | .identify (some (_, arg)) => inferInstanceAs (Decidable (∀ id ∈ parseClientId maxLcore arg, _))
  | .scanCheck i _ _ => inferInstanceAs (Decidable (∀ sc ∈ s.scan i, _))
  | .primaryAcquire | .acceptSecondary | .identify none | .secondaryAcquire | .startScan _ _ _
  | .scanAcquire _ | .command _ | .commandDone _ | .hangUp _ => .isTrue trivial

/-- The entry under the id of the primary process is the primary process, on a connection
accepted at its port; no scan has removed a process whose connection is alive; and no
iteration or deletion has raised. -/
structure Sound (s : State ι) : Prop where
  primary : ∀ proc, get s.procs idPrimary = some proc →
    (s.object proc).type = .primary ∧ s.fromPrimary (s.object proc).conn = true
  lost : s.lost = false
  raised : s.raised = false

/-! ## The invariant -/

/-- The object is well-formed. -/
structure ProcOk (s : State ι) (proc : ℕ) : Prop where
  lt : proc < s.objects
  type : (s.object proc).type = .primary ↔ (s.object proc).id = idPrimary
  primary : (s.object proc).type = .primary → s.fromPrimary (s.object proc).conn = true
  conn : (s.object proc).conn < s.conns

/-- What a scan relies on: the iterator is good, the item is in its place, and those noted
stand before it and have lost their connections. -/
structure ScanOk (s : State ι) (sc : Scan) : Prop where
  keyChanges : sc.keyChanges = s.keyChanges
  pos : 0 < sc.pos
  item : s.procs[sc.pos - 1]? = some (sc.idx, sc.proc)
  nodup : sc.removedIds.Nodup
  removed : ∀ r ∈ sc.removedIds, ∃ k < sc.pos - 1, ∃ proc, s.procs[k]? = some (r, proc) ∧
    s.alive (s.object proc).conn = false

/-- What `accept_primary` relies on. -/
def PrimaryOk (s : State ι) : Prop :=
  match s.acceptPrimary with
  | .listening => True
  | .waiting proc conn | .closing proc conn =>
    proc < s.objects ∧ (s.object proc).type = .primary ∧ s.fromPrimary conn = true ∧ conn < s.conns

/-- What `accept_secondary` relies on. -/
def SecondaryOk (s : State ι) : Prop :=
  match s.acceptSecondary with
  | .listening => True
  | .identifying conn => conn < s.conns
  | .waiting _ new | .closing _ new => new < s.objects

structure Inv (s : State ι) : Prop where
  nodup : (s.procs.map Prod.fst).Nodup
  entry : ∀ e ∈ s.procs, e.2 < s.objects ∧ (s.object e.2).id = e.1
  object : ∀ proc < s.objects, ProcOk s proc
  acceptPrimary : PrimaryOk s
  acceptSecondary : SecondaryOk s
  scan : ∀ i sc, s.scan i = some sc → ScanOk s sc
  lost : s.lost = false
  raised : s.raised = false

variable {s : State ι}

theorem Inv.sound (h : Inv s) : Sound s where
  primary proc hget := by
    obtain ⟨hlt, hid⟩ := h.entry _ (mem_of_get hget)
    have hproc := h.object proc hlt
    have htype := hproc.type.mpr hid
    exact ⟨htype, hproc.primary htype⟩
  lost := h.lost
  raised := h.raised

theorem inv_init : Inv (State.init : State ι) where
  nodup := List.nodup_nil
  entry _ he := by cases he
  object _ hlt := by cases hlt
  acceptPrimary := trivial
  acceptSecondary := trivial
  scan _ _ hsc := by cases hsc
  lost := rfl
  raised := rfl

/-! ### What the invariant depends on -/

/-- Connections and objects are only added, and a connection that has ended stays so. -/
structure Grows (s s' : State ι) : Prop where
  object : ∀ p < s.objects, s'.object p = s.object p
  objects : s.objects ≤ s'.objects
  alive : ∀ c < s.conns, s.alive c = false → s'.alive c = false
  fromPrimary : ∀ c < s.conns, s'.fromPrimary c = s.fromPrimary c
  conns : s.conns ≤ s'.conns

theorem grows_create (s : State ι) (proc : Proc) : Grows s (s.create proc) where
  object _ hp := update_of_ne (Nat.ne_of_lt hp) ..
  objects := Nat.le_succ _
  alive _ _ h := h
  fromPrimary _ _ := rfl
  conns := le_rfl

theorem grows_connect (s : State ι) (b : Bool) : Grows s (s.connect b) where
  object _ _ := rfl
  objects := le_rfl
  alive _ hc h := (update_of_ne (Nat.ne_of_lt hc) ..).trans h
  fromPrimary _ hc := update_of_ne (Nat.ne_of_lt hc) ..
  conns := Nat.le_succ _

theorem grows_close (s : State ι) (conn : ℕ) : Grows s (s.close conn) where
  object _ _ := rfl
  objects := le_rfl
  alive c _ h := by
    show update s.alive conn false c = false
    by_cases hc : c = conn
    · rw [hc, update_self]
    · rw [update_of_ne hc, h]
  fromPrimary _ _ := rfl
  conns := le_rfl

variable {s' : State ι}

theorem grows_of_eq (hobject : s'.object = s.object)
    (hobjects : s'.objects = s.objects) (halive : s'.alive = s.alive)
    (hfrom : s'.fromPrimary = s.fromPrimary) (hconns : s'.conns = s.conns) : Grows s s' :=
  ⟨fun _ _ => by rw [hobject], Nat.le_of_eq hobjects.symm, fun _ _ h => by rw [halive, h], fun _ _ => by rw [hfrom],
    Nat.le_of_eq hconns.symm⟩

theorem ProcOk.grows (h : ProcOk s proc) (hg : Grows s s') : ProcOk s' proc where
  lt := Nat.lt_of_lt_of_le h.lt hg.objects
  type := by rw [hg.object proc h.lt]; exact h.type
  primary := by
    rw [hg.object proc h.lt, hg.fromPrimary _ h.conn]
    exact h.primary
  conn := by
    rw [hg.object proc h.lt]
    exact Nat.lt_of_lt_of_le h.conn hg.conns

theorem PrimaryOk.grows (h : PrimaryOk s) (hg : Grows s s')
    (heq : s'.acceptPrimary = s.acceptPrimary) : PrimaryOk s' := by
  unfold PrimaryOk at h ⊢
  rw [heq]
  cases hp : s.acceptPrimary with
  | listening => trivial
  | waiting proc conn | closing proc conn =>
    rw [hp] at h
    obtain ⟨hlt, htype, hfrom, hconn⟩ := h
    exact ⟨Nat.lt_of_lt_of_le hlt hg.objects, by rw [hg.object proc hlt]; exact htype,
      (hg.fromPrimary conn hconn).trans hfrom, Nat.lt_of_lt_of_le hconn hg.conns⟩

theorem SecondaryOk.grows (h : SecondaryOk s) (hg : Grows s s')
    (heq : s'.acceptSecondary = s.acceptSecondary) : SecondaryOk s' := by
  unfold SecondaryOk at h ⊢
  rw [heq]
  cases hs : s.acceptSecondary with
  | listening => trivial
  | identifying conn =>
    rw [hs] at h
    exact Nat.lt_of_lt_of_le h hg.conns
  | waiting old new | closing old new =>
    rw [hs] at h
    exact Nat.lt_of_lt_of_le h hg.objects

variable {sc : Scan}

section

variable (h : Inv s)
include h

theorem Inv.scanOk_grows (hg : Grows s s') (hprocs : s'.procs = s.procs)
    (hkeys : s'.keyChanges = s.keyChanges) (hsc : ScanOk s sc) : ScanOk s' sc where
  keyChanges := hsc.keyChanges.trans hkeys.symm
  pos := hsc.pos
  item := by rw [hprocs]; exact hsc.item
  nodup := hsc.nodup
  removed r hr := by
    obtain ⟨k, hk, proc, hget, hdead⟩ := hsc.removed r hr
    have hlt := (h.entry _ (List.mem_of_getElem? hget)).1
    refine ⟨k, hk, proc, by rw [hprocs]; exact hget, ?_⟩
    rw [hg.object proc hlt]
    exact hg.alive _ (h.object proc hlt).conn hdead

/-- A step that leaves `procs` alone keeps what is said about it. -/
theorem Inv.frame (hg : Grows s s') (hprocs : s'.procs = s.procs)
    (hnew : ∀ p, s.objects ≤ p → p < s'.objects → ProcOk s' p)
    (hprimary : PrimaryOk s') (hsecondary : SecondaryOk s')
    (hscan : ∀ i sc, s'.scan i = some sc → ScanOk s' sc)
    (hlost : s'.lost = s.lost) (hraised : s'.raised = s.raised) : Inv s' where
  nodup := by rw [hprocs]; exact h.nodup
  entry e he := by
    rw [hprocs] at he
    obtain ⟨hlt, hid⟩ := h.entry e he
    exact ⟨Nat.lt_of_lt_of_le hlt hg.objects, by rw [hg.object _ hlt]; exact hid⟩
  object p hp := by
    by_cases hold : p < s.objects
    · exact (h.object p hold).grows hg
    · exact hnew p (Nat.le_of_not_lt hold) hp
  acceptPrimary := hprimary
  acceptSecondary := hsecondary
  scan := hscan
  lost := hlost.trans h.lost
  raised := hraised.trans h.raised

/-- A step that leaves `procs`, the scans and the objects alone. -/
theorem Inv.frame_threads (hg : Grows s s')
    (hprocs : s'.procs = s.procs) (hkeys : s'.keyChanges = s.keyChanges)
    (hobjects : s'.objects = s.objects) (hscan : s'.scan = s.scan)
    (hprimary : PrimaryOk s' ∨ s'.acceptPrimary = s.acceptPrimary)
    (hsecondary : SecondaryOk s' ∨ s'.acceptSecondary = s.acceptSecondary)
    (hlost : s'.lost = s.lost) (hraised : s'.raised = s.raised) : Inv s' := by
  refine h.frame hg hprocs (fun p hle hlt => absurd hlt (by omega))
    (hprimary.elim id (h.acceptPrimary.grows hg)) (hsecondary.elim id (h.acceptSecondary.grows hg))
    (fun i sc hsc => ?_) hlost hraised
  rw [hscan] at hsc
  exact h.scanOk_grows hg hprocs hkeys (h.scan i sc hsc)

theorem Inv.setSem (proc : ℕ) (holder : Option (Holder ι)) : Inv (s.setSem proc holder) :=
  h.frame_threads (grows_of_eq rfl rfl rfl rfl rfl) rfl rfl rfl rfl (.inr rfl) (.inr rfl) rfl rfl

theorem Inv.close (conn : ℕ) : Inv (s.close conn) :=
  h.frame_threads (grows_close s conn) rfl rfl rfl rfl (.inr rfl) (.inr rfl) rfl rfl

theorem Inv.connect (b : Bool) : Inv (s.connect b) :=
  h.frame_threads (grows_connect s b) rfl rfl rfl rfl (.inr rfl) (.inr rfl) rfl rfl

theorem Inv.create {proc : Proc} (htype : proc.type = .primary ↔ proc.id = idPrimary)
    (hfrom : proc.type = .primary → s.fromPrimary proc.conn = true) (hconn : proc.conn < s.conns) :
    Inv (s.create proc) := by
  have hg := grows_create s proc
  have hnew : (s.create proc).object s.objects = proc := update_self ..
  refine h.frame hg rfl (fun p hle hlt => ?_) (h.acceptPrimary.grows hg rfl)
    (h.acceptSecondary.grows hg rfl) (fun i sc hsc => ?_) rfl rfl
  · have hp : p = s.objects := Nat.le_antisymm (Nat.le_of_lt_succ hlt) hle
    subst hp
    exact ⟨hlt, by rw [hnew]; exact htype, by rw [hnew]; exact hfrom, by rw [hnew]; exact hconn⟩
  · exact h.scanOk_grows hg rfl rfl (h.scan i sc hsc)

/-- The two accepting threads move on. -/
theorem Inv.setAcceptPrimary {a : AcceptPrimary}
    (ha : PrimaryOk { s with acceptPrimary := a }) : Inv { s with acceptPrimary := a } :=
  h.frame_threads (grows_of_eq rfl rfl rfl rfl rfl) rfl rfl rfl rfl (.inl ha) (.inr rfl) rfl rfl

theorem Inv.setAcceptSecondary {a : AcceptSecondary}
    (ha : SecondaryOk { s with acceptSecondary := a }) : Inv { s with acceptSecondary := a } :=
  h.frame_threads (grows_of_eq rfl rfl rfl rfl rfl) rfl rfl rfl rfl (.inr rfl) (.inl ha) rfl rfl

/-! ### Steps that change the registry -/

/-- Without a scan, what happens to `procs` has to keep the keys apart and lead to
objects. -/
theorem Inv.setProcs (hquiet : Quiet s) {procs : List (ℤ × ℕ)} {n : ℕ}
    (hnodup : (procs.map Prod.fst).Nodup)
    (hentry : ∀ e ∈ procs, e.2 < s.objects ∧ (s.object e.2).id = e.1) :
    Inv { s with procs := procs, keyChanges := n } :=
  { h with
    nodup := hnodup
    entry := hentry
    object := fun p hp => { h.object p hp with }
    scan := fun i _ hsc => nomatch (hquiet i).symm.trans hsc }

theorem Inv.register (hquiet : Quiet s) {id : ℤ}
    (hlt : proc < s.objects) (hid : (s.object proc).id = id) : Inv (s.register id proc) := by
  refine h.setProcs hquiet (nodup_put h.nodup id proc) fun e he => ?_
  rcases mem_put he with he | rfl
  · exact h.entry e he
  · exact ⟨hlt, hid⟩

theorem Inv.del (hquiet : Quiet s) (id : ℤ) (n : ℕ) :
    Inv { s with procs := del s.procs id, keyChanges := n } :=
  h.setProcs hquiet (nodup_del h.nodup id) fun e he => h.entry e (mem_del.mp he).1

omit h in
theorem reconnect_id (s : State ι) (proc conn p : ℕ) :
    ((s.reconnect proc conn).object p).id = (s.object p).id ∧
      ((s.reconnect proc conn).object p).type = (s.object p).type := by
  show (update s.object proc _ p).id = _ ∧ (update s.object proc _ p).type = _
  by_cases hp : p = proc
  · rw [hp, update_self]
    exact ⟨rfl, rfl⟩
  · rw [update_of_ne hp]
    exact ⟨rfl, rfl⟩

omit h in
theorem reconnect_conn (s : State ι) (proc conn p : ℕ) :
    ((s.reconnect proc conn).object p).conn = if p = proc then conn else (s.object p).conn := by
  show (update s.object proc _ p).conn = _
  by_cases hp : p = proc
  · rw [hp, update_self, if_pos rfl]
  · rw [update_of_ne hp, if_neg hp]

/-- The primary process comes back on a new connection. -/
theorem Inv.reconnect (hquiet : Quiet s) {conn : ℕ}
    (hfrom : s.fromPrimary conn = true) (hconn : conn < s.conns) : Inv (s.reconnect proc conn) where
  nodup := h.nodup
  entry e he := by
    rw [(reconnect_id s proc conn e.2).1]
    exact h.entry e he
  object p hp := by
    have hold := h.object p hp
    refine ⟨hp, ?_, ?_, ?_⟩
    · rw [(reconnect_id s proc conn p).1, (reconnect_id s proc conn p).2]
      exact hold.type
    · rw [(reconnect_id s proc conn p).2, reconnect_conn]
      split
      · exact fun _ => hfrom
      · exact hold.primary
    · rw [reconnect_conn]
      split
      · exact hconn
      · exact hold.conn
  acceptPrimary := by
    have hP := h.acceptPrimary
    unfold PrimaryOk at hP ⊢
    rw [show (s.reconnect proc conn).acceptPrimary = s.acceptPrimary from rfl]
    cases hp : s.acceptPrimary with
    | listening => trivial
    | waiting p c | closing p c =>
      rw [hp] at hP
      show _ ∧ ((s.reconnect proc conn).object p).type = _ ∧ _
      rwa [(reconnect_id s proc conn p).2]
  acceptSecondary := h.acceptSecondary
  scan i _ hsc := nomatch (hquiet i).symm.trans hsc
  lost := h.lost
  raised := h.raised

/-- The deletions of a scan go through if every id is there once, and remove nobody who is
alive if all have lost their connections. -/
theorem Inv.removeAll (hquiet : Quiet s) {ids : List ℤ} (hnodup : ids.Nodup)
    (hids : ∀ r ∈ ids, ∃ proc, (r, proc) ∈ s.procs ∧ s.alive (s.object proc).conn = false) :
    Inv (removeAll s ids) := by
  induction ids generalizing s with
  | nil => exact h
  | cons idx rest ih =>
    obtain ⟨proc, hmem, hdead⟩ := hids idx List.mem_cons_self
    obtain ⟨hnot, hrest⟩ := List.nodup_cons.mp hnodup
    unfold Registry.removeAll
    simp only [get_of_mem h.nodup hmem, hdead, Bool.or_false]
    refine ih (h.del hquiet idx _) hquiet hrest fun r hr => ?_
    obtain ⟨proc', hmem', hdead'⟩ := hids r (List.mem_cons_of_mem idx hr)
    exact ⟨proc', mem_del.mpr ⟨hmem', fun heq => hnot (heq ▸ hr)⟩, hdead'⟩

end

/-! ### Steps of a scan -/

/-- The next item is at its place. -/
theorem nextItem_eq_some {d rest : List (ℤ × ℕ)} {pos : ℕ}
    (hrest : d.drop pos = rest) {pos' : ℕ} {idx : ℤ}
    (h : nextItem s withPrimary rest pos = some (pos', idx, proc)) :
    pos < pos' ∧ d[pos' - 1]? = some (idx, proc) := by
  induction rest generalizing pos with
  | nil => cases h
  | cons e rest ih =>
    obtain ⟨idx₁, proc₁⟩ := e
    rw [nextItem] at h
    split at h
    · cases h
      refine ⟨Nat.lt_succ_self pos, ?_⟩
      have hget := congrArg (fun l => l[0]?) hrest
      rwa [List.getElem?_drop] at hget
    have hdrop : d.drop (pos + 1) = rest := by
      rw [← List.drop_drop, hrest]
      rfl
    obtain ⟨hlt, hget⟩ := ih hdrop h
    exact ⟨Nat.lt_of_succ_lt hlt, hget⟩

variable [DecidableEq ι]

/-- A scan moves on, and semaphores change hands. -/
theorem Inv.setScan (h : Inv s) {i : ι} {o : Option Scan} (sem : ℕ → Option (Holder ι))
    (ho : ∀ sc, o = some sc → ScanOk s sc) :
    Inv { s with sem := sem, scan := update s.scan i o } := by
  have hg : Grows s { s with sem := sem, scan := update s.scan i o } :=
    grows_of_eq rfl rfl rfl rfl rfl
  refine h.frame hg rfl (fun p hle hlt => absurd hlt (Nat.not_lt.mpr hle))
    (h.acceptPrimary.grows hg rfl) (h.acceptSecondary.grows hg rfl) (fun j sc hsc => ?_) rfl rfl
  have hsc : update s.scan i o j = some sc := hsc
  refine h.scanOk_grows hg rfl rfl ?_
  by_cases hj : j = i
  · rw [hj, update_self] at hsc
    exact ho sc hsc
  · rw [update_of_ne hj] at hsc
    exact h.scan j sc hsc

theorem Inv.leave (h : Inv s) (i : ι) : Inv (leave s i) := h.setScan s.sem nofun

variable {o : Iter}

/-- A scan whose iterator is good goes on. -/
theorem Inv.scanOn (h : Inv s) (hkeys : sc.keyChanges = s.keyChanges) (hnodup : sc.removedIds.Nodup)
    (hremoved : ∀ r ∈ sc.removedIds, ∃ k < sc.pos, ∃ proc, s.procs[k]? = some (r, proc) ∧
      s.alive (s.object proc).conn = false)
    (hothers : sc.removedIds ≠ [] → ∀ j ≠ i, s.scan j = none)
    (hstep : scanOn s i sc o = some s') : Inv s' := by
  unfold Registry.scanOn at hstep
  rw [if_pos hkeys] at hstep
  cases hitem : nextItem s sc.withPrimary (s.procs.drop sc.pos) sc.pos with
  | some x =>
    obtain ⟨pos, idx, proc⟩ := x
    rw [hitem] at hstep
    cases hstep
    obtain ⟨hpos, hget⟩ := nextItem_eq_some rfl hitem
    refine h.setScan s.sem fun sc' hsc' => ?_
    obtain rfl := Option.some.inj hsc'
    refine ⟨hkeys, Nat.zero_lt_of_lt hpos, hget, hnodup, fun r hr => ?_⟩
    obtain ⟨k, hk, proc', hentry, hdead⟩ := hremoved r hr
    exact ⟨k, by show k < pos - 1; omega, proc', hentry, hdead⟩
  | none =>
    rw [hitem] at hstep
    cases hstep
    by_cases hnil : sc.removedIds = []
    · rw [hnil]
      exact h.leave i
    refine (h.leave i).removeAll (fun j => ?_) hnodup fun r hr => ?_
    · show update s.scan i none j = none
      by_cases hj : j = i
      · rw [hj, update_self]
      · rw [update_of_ne hj, hothers hnil j hj]
    · obtain ⟨k, -, proc, hentry, hdead⟩ := hremoved r hr
      exact ⟨proc, List.mem_of_getElem? hentry, hdead⟩

theorem Inv.startScan (h : Inv s) (hstep : startScan s i withPrimary o = some s') : Inv s' := by
  unfold Registry.startScan at hstep
  split at hstep
  · exact h.scanOn rfl List.nodup_nil (fun r hr => by cases hr) (fun hne => absurd rfl hne) hstep
  · cases hstep

theorem Inv.scanAcquire (h : Inv s) (hstep : scanAcquire s i = some s') : Inv s' := by
  unfold Registry.scanAcquire at hstep
  split at hstep
  · rename_i sc hsc
    split at hstep
    · cases hstep
      refine h.setScan (update s.sem sc.proc (some (.scan i))) fun sc' hsc' => ?_
      obtain rfl := Option.some.inj hsc'
      exact { h.scan i sc hsc with }
    · cases hstep
  · cases hstep

/-- A process that does not answer is noted; it stands behind those noted before. -/
theorem Inv.scanCheck (h : Inv s) {answered : Bool}
    (hG : Guard maxLcore s (.scanCheck i answered o)) (hstep : scanCheck s i answered o = some s') :
    Inv s' := by
  unfold Registry.scanCheck at hstep
  split at hstep
  · rename_i sc hsc
    obtain ⟨hdead, hothers⟩ := hG sc hsc
    have hok := h.scan i sc hsc
    have hpos := hok.pos
    have hbefore : ∀ r ∈ sc.removedIds, ∃ k < sc.pos, ∃ proc, s.procs[k]? = some (r, proc) ∧
        s.alive (s.object proc).conn = false := fun r hr => by
      obtain ⟨k, hk, proc, hget, hdead⟩ := hok.removed r hr
      exact ⟨k, by omega, proc, hget, hdead⟩
    split at hstep
    · cases answered with
      | true => exact (h.setSem sc.proc none).scanOn hok.keyChanges hok.nodup hbefore hothers hstep
      | false =>
        refine (h.setSem sc.proc none).scanOn ?_ ?_ (fun r hr => ?_) ?_ hstep
        · exact hok.keyChanges
        · show (sc.removedIds ++ [sc.idx]).Nodup
          refine List.nodup_append.mpr ⟨hok.nodup, List.nodup_singleton _, fun a ha b hb => ?_⟩
          rw [List.mem_singleton.mp hb]
          rintro rfl
          -- two positions with one key
          obtain ⟨k, hk, proc, hget, -⟩ := hok.removed _ ha
          have hk' : (s.procs.map Prod.fst)[k]? = (s.procs.map Prod.fst)[sc.pos - 1]? := by
            rw [List.getElem?_map, List.getElem?_map, hget, hok.item]
            rfl
          have hlt : k < (s.procs.map Prod.fst).length := by
            rw [List.length_map]
            exact (List.getElem?_eq_some_iff.mp hget).1
          have := (List.getElem?_inj hlt h.nodup).mp hk'
          omega
        · rcases List.mem_append.mp hr with hr | hr
          · exact hbefore r hr
          · rw [List.mem_singleton.mp hr]
            exact ⟨sc.pos - 1, by show sc.pos - 1 < sc.pos; omega, sc.proc, hok.item, hdead rfl⟩
        · exact hothers
    · cases hstep
  · cases hstep

/-! ### Steps of the accepting threads -/

omit [DecidableEq ι] in
theorem Inv.acceptPrimaryStep (h : Inv s)
    (hG : get s.procs idPrimary = none → Quiet s) (hstep : Registry.acceptPrimary s = some s') :
    Inv s' := by
  unfold Registry.acceptPrimary at hstep
  cases hp : s.acceptPrimary with
  | waiting proc conn | closing proc conn =>
    rw [hp] at hstep
    cases hstep
  | listening =>
    simp only [hp] at hstep
    have hfrom : (s.connect true).fromPrimary s.conns = true := update_self ..
    cases hget : get (s.connect true).procs idPrimary <;> rw [hget] at hstep <;>
      obtain rfl := Option.some.inj hstep
    case some proc =>
      obtain ⟨hlt, hid⟩ := h.entry _ (mem_of_get hget)
      exact (h.connect true).setAcceptPrimary
        ⟨hlt, (h.object proc hlt).type.mpr hid, hfrom, Nat.lt_succ_self _⟩
    case none =>
      refine ((h.connect true).create (iff_of_true rfl rfl) (fun _ => hfrom)
        (Nat.lt_succ_self _)).register (hG hget) (Nat.lt_succ_self _) ?_
      show (update s.object s.objects _ s.objects).id = idPrimary
      rw [update_self]

omit [DecidableEq ι] in
theorem Inv.identify (h : Inv s) {reply : Option (ProcType × CString)}
    (hG : Guard maxLcore s (.identify reply)) (hstep : identify maxLcore s reply = some s') :
    Inv s' := by
  have hS := h.acceptSecondary
  unfold SecondaryOk at hS
  unfold Registry.identify at hstep
  split at hstep
  · cases hstep
    exact (h.close _).setAcceptSecondary trivial
  · rename_i conn type arg hsec
    rw [hsec] at hS
    split at hstep
    · cases hstep
    rename_i id hparse
    obtain ⟨hid, hquiet⟩ := hG id hparse
    split at hstep
    · cases hstep
    rename_i htype
    have hnew : Inv (s.create ⟨id, type, conn⟩) := h.create (iff_of_false htype hid)
      (fun hprimary => absurd hprimary htype) hS
    cases hget : get s.procs id <;> rw [hget] at hstep <;>
      obtain rfl := Option.some.inj hstep
    case some old => exact hnew.setAcceptSecondary (Nat.lt_succ_self s.objects)
    case none =>
      have hself : ((s.create ⟨id, type, conn⟩).object s.objects).id = id := by
        show (update s.object s.objects _ s.objects).id = id
        rw [update_self]
      exact (hnew.register (hquiet hget) (Nat.lt_succ_self s.objects) hself).setAcceptSecondary
        trivial
  · cases hstep

variable {e : Event ι}

theorem Inv.acceptingThreads (h : Inv s)
    (he : e = .primaryAcquire ∨ e = .primaryClose ∨ e = .acceptSecondary ∨ e = .secondaryAcquire ∨
      e = .secondaryClose) (hG : Guard maxLcore s e) (hstep : next maxLcore s e = some s') :
    Inv s' := by
  have hP := h.acceptPrimary
  have hS := h.acceptSecondary
  unfold PrimaryOk at hP
  unfold SecondaryOk at hS
  rcases he with rfl | rfl | rfl | rfl | rfl
  · simp only [next, primaryAcquire] at hstep
    split at hstep
    · rename_i proc conn hp
      rw [hp] at hP
      split at hstep
      · cases hstep
        exact (h.setSem proc _).setAcceptPrimary hP
      · cases hstep
    · cases hstep
  · simp only [next, primaryClose] at hstep
    split at hstep
    · rename_i proc conn hp
      rw [hp] at hP
      cases hstep
      exact (((h.close _).reconnect hG hP.2.2.1 hP.2.2.2).setSem proc none).setAcceptPrimary trivial
    · cases hstep
  · simp only [next, Registry.acceptSecondary] at hstep
    split at hstep
    · cases hstep
      exact (h.connect false).setAcceptSecondary (Nat.lt_succ_self s.conns)
    · cases hstep
  · simp only [next, secondaryAcquire] at hstep
    split at hstep
    · rename_i old new hs
      rw [hs] at hS
      split at hstep
      · cases hstep
        exact (h.setSem old _).setAcceptSecondary hS
      · cases hstep
    · cases hstep
  · simp only [next, secondaryClose] at hstep
    split at hstep
    · rename_i old new hs
      rw [hs] at hS
      cases hstep
      exact (((h.close _).setSem old none).register hG hS rfl).setAcceptSecondary trivial
    · cases hstep

omit [DecidableEq ι] in
theorem Inv.doExit (h : Inv s) (hquiet : Quiet s) (type : ProcType) (id : ℤ) :
    Inv (doExit s type id) := by
  unfold Registry.doExit
  split
  · exact h
  rename_i e he
  have hmem := List.mem_of_find?_eq_some he
  have hget : get s.procs (s.object e.2).id = some e.2 := by
    rw [(h.entry e hmem).2]
    exact get_of_mem h.nodup hmem
  rw [hget, if_pos Option.isSome_some]
  exact h.del hquiet _ _

/-- **One step of any thread.** -/
theorem Inv.next (h : Inv s) (hG : Guard maxLcore s e)
    (hstep : next maxLcore s e = some s') : Inv s' := by
  cases e with
  | acceptPrimary => exact h.acceptPrimaryStep hG hstep
  | primaryAcquire => exact h.acceptingThreads (.inl rfl) hG hstep
  | primaryClose => exact h.acceptingThreads (.inr (.inl rfl)) hG hstep
  | acceptSecondary => exact h.acceptingThreads (.inr (.inr (.inl rfl))) hG hstep
  | identify reply => exact h.identify hG hstep
  | secondaryAcquire => exact h.acceptingThreads (.inr (.inr (.inr (.inl rfl)))) hG hstep
  | secondaryClose => exact h.acceptingThreads (.inr (.inr (.inr (.inr rfl)))) hG hstep
  | startScan i withPrimary o => exact h.startScan hstep
  | scanAcquire i => exact h.scanAcquire hstep
  | scanCheck i answered o => exact h.scanCheck hG hstep
  | exit type id =>
    obtain rfl := Option.some.inj hstep
    exact h.doExit hG type id
  | command proc | commandDone proc =>
    simp only [Registry.next] at hstep
    split at hstep
    · obtain rfl := Option.some.inj hstep
      exact h.setSem proc _
    · cases hstep
  | hangUp conn =>
    obtain rfl := Option.some.inj hstep
    exact h.close conn

/-- A primary process and two secondary ones; the second goes away, and a scan removes it. -/
def oneGone : List (Event Bool) :=
  [.acceptPrimary, .acceptSecondary, .identify (some (.vf, "1")),
    .acceptSecondary, .identify (some (.nfv, "2")), .hangUp 2,
    .startScan true false .stop, .scanAcquire true, .scanCheck true true .stop,
    .scanAcquire true, .scanCheck true false .stop]

/-- A secondary process with the client id 0 takes the place of the primary process. -/
def idZero : List (Event Bool) :=
  [.acceptPrimary, .acceptSecondary, .identify (some (.vf, "0")), .secondaryAcquire,
    .secondaryClose]

/-- A process that has not answered comes back while the scan talks to the next one. -/
def backDuringScan : List (Event Bool) :=
  [.acceptSecondary, .identify (some (.vf, "1")), .acceptSecondary,
    .identify (some (.nfv, "2")), .hangUp 0, .startScan true false .stop, .scanAcquire true,
    .scanCheck true false .stop, .scanAcquire true, .acceptSecondary,
    .identify (some (.vf, "1")), .secondaryAcquire, .secondaryClose,
    .scanCheck true true .stop]

/-- A new process registers during a scan. -/
def newDuringScan : List (Event Bool) :=
  [.acceptSecondary, .identify (some (.vf, "1")), .startScan true false .stop,
    .scanAcquire true, .acceptSecondary, .identify (some (.nfv, "2")),
    .scanCheck true true .raise]

end Registry
end SoftPatchPanel.SppCtl
