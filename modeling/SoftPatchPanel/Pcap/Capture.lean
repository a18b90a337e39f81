import Mathlib.Algebra.BigOperators.Group.Finset.Basic
import Mathlib.Algebra.Order.Group.Multiset
import Mathlib.Data.Fintype.Card
import Mathlib.Tactic.Abel
import Mathlib.Data.Prod.Lex
import SoftPatchPanel.Foundation.Fairness

/-!
# Capture sessions of `spp_pcap`

A receiver takes packets from the captured port and puts them on a ring.  Writers take
them from the ring and write them to files.  The command thread only sets
`g_capture_request`; the receiver follows it and sets `g_capture_status`; the writers
follow that.

Every thread is a loop of steps, and a step makes one access to what the threads share:
`g_capture_request`, `g_capture_status`, `start_up_cnt` and the ring.  A run is any
sequence of steps of the threads.

A *session* lasts from the receiver's `idle->run` to its `run->idle`.  The state counts
the sessions and keeps two records that the program does not have: the packets that were
enqueued, numbered and with their session, and those that were written, with the session
in which the file was opened.

## What can go wrong

A writer decides to close its file in two steps: it finds the ring empty, and later it
reads that the status is idle.

* If the receiver enqueues its last packets between the two, nobody takes them from the
  ring when all writers close on them.
* If the receiver goes idle and runs again between two readings of a writer, the writer
  never closes its file, and writes the packets of the new session to it.

`Guard` excludes exactly these two.  The receiver goes idle only when the ring is empty or
some writer is going to look at it again, and it starts a session only when all writers
are idle.
-/

namespace SoftPatchPanel.Pcap

open Function (update update_self update_of_ne)

variable {W D : Type}

/-! ## The threads -/

/-- `SPP_CAPTURE_IDLE` and `SPP_CAPTURE_RUNNING`. -/
inductive Capture where
  | idle
  | running
  deriving DecidableEq, Repr

/-- A packet on its way, with the session in which it was enqueued and its number among
all packets that were enqueued. -/
structure Packet (D : Type) where
  data : D
  session : ℕ
  number : ℕ
  deriving DecidableEq, Repr

/-- Where the receiver is in `pcap_proc_receive`. -/
inductive ReceiverAt where
  /-- About to read `g_capture_request`. -/
  | poll
  /-- About to set its own status to idle. -/
  | stopping
  /-- About to set `g_capture_status` to idle. -/
  | lowering
  /-- About to decrement `start_up_cnt`. -/
  | leaving
  /-- About to set its own status to running. -/
  | starting
  /-- About to set `g_capture_status` to running. -/
  | raising
  /-- About to increment `start_up_cnt`. -/
  | entering
  /-- About to compare `start_up_cnt` with the number of threads. -/
  | waiting
  /-- About to enqueue what it receives. -/
  | receiving
  deriving DecidableEq, Repr

/-- Where a writer is in `pcap_proc_write`. -/
inductive WriterAt (D : Type) where
  /-- About to read `g_capture_status`. -/
  | poll
  /-- About to set its own status to running. -/
  | starting
  /-- About to open its file. -/
  | opening
  /-- About to increment `start_up_cnt`. -/
  | entering
  /-- About to dequeue. -/
  | reading
  /-- The ring was empty; about to read `g_capture_status`. -/
  | checking
  /-- About to set its own status to idle. -/
  | stopping
  /-- About to decrement `start_up_cnt`. -/
  | leaving
  /-- About to close its file. -/
  | closing
  /-- About to write what it has dequeued. -/
  | writing (bufs : List (Packet D))
  deriving DecidableEq, Repr

/-- A writer: where it is, the status in its `pcap_mng_info`, and the session in which its
file was opened. -/
structure Writer (D : Type) where
  loc : WriterAt D
  status : Capture
  file : Option ℕ
  deriving DecidableEq, Repr

/-- The state of the process.  `session`, `enqueued` and `written` are records. -/
structure State (W D : Type) where
  request : Capture
  status : Capture
  startUpCnt : ℕ
  ring : List (Packet D)
  receiver : ReceiverAt
  receiverStatus : Capture
  writer : W → Writer D
  session : ℕ
  enqueued : List (Packet D)
  written : List (Packet D × ℕ)

/-- The process before the first command. -/
def State.init : State W D where
  request := .idle
  status := .idle
  startUpCnt := 0
  ring := []
  receiver := .poll
  receiverStatus := .idle
  writer _ := ⟨.poll, .idle, none⟩
  session := 0
  enqueued := []
  written := []

/-- `MAX_PCAP_BURST`. -/
def maxPcapBurst : ℕ := 256

/-- What a ring of `RING_SIZE` elements holds. -/
def ringCapacity : ℕ := 16383

/-- The packets of the session, numbered on. -/
def State.stamp (s : State W D) (ds : List D) : List (Packet D) :=
  (ds.zipIdx s.enqueued.length).map fun x => ⟨x.1, s.session, x.2⟩

/-- Where the receiver goes when it has read the request. -/
def polled : Capture → Capture → ReceiverAt
  | .idle, .running => .stopping
  | .idle, .idle => .poll
  | .running, .idle => .starting
  | .running, .running => .waiting

/-- `pcap_proc_receive`, one step.  `bufs` is what `rte_eth_rx_burst` returns, if the step
calls it; what does not fit into the ring is freed. -/
def receiverStep [Fintype W] (s : State W D) (bufs : List D) : State W D :=
  match s.receiver with
  | .poll => { s with receiver := polled s.request s.receiverStatus }
  | .stopping => { s with receiverStatus := .idle, receiver := .lowering }
  | .lowering => { s with status := .idle, receiver := .leaving }
  | .leaving => { s with startUpCnt := s.startUpCnt - 1, receiver := .poll }
  | .starting => { s with receiverStatus := .running, session := s.session + 1, receiver := .raising }
  | .raising => { s with status := .running, receiver := .entering }
  | .entering => { s with startUpCnt := s.startUpCnt + 1, receiver := .waiting }
  | .waiting =>
    -- all writers and the receiver itself
    if Fintype.card W + 1 > s.startUpCnt then { s with receiver := .poll }
    else { s with receiver := .receiving }
  | .receiving =>
    let taken := s.stamp ((bufs.take maxPcapBurst).take (ringCapacity - s.ring.length))
    { s with ring := s.ring ++ taken, enqueued := s.enqueued ++ taken, receiver := .poll }

variable [DecidableEq W]

/-- Put a writer in its place. -/
def State.setWriter (s : State W D) (w : W) (x : Writer D) : State W D :=
  { s with writer := Function.update s.writer w x }

/-- `pcap_proc_write`, one step.  A packet goes to the file that is open; `roll` tells
whether the file has reached its limit, so that the next one is opened first. -/
def writerStep (s : State W D) (w : W) (roll : Bool) : State W D :=
  let x := s.writer w
  match x.loc with
  | .poll =>
    s.setWriter w { x with loc := if x.status = .running then .reading
                                  else if s.status = .idle then .poll else .starting }
  | .starting => s.setWriter w { x with status := .running, loc := .opening }
  | .opening => s.setWriter w { x with file := some s.session, loc := .entering }
  | .entering => { s.setWriter w { x with loc := .reading } with startUpCnt := s.startUpCnt + 1 }
  | .reading =>
    match s.ring with
    | [] => s.setWriter w { x with loc := .checking }
    | p :: ring =>
      { s.setWriter w { x with loc := .writing ((p :: ring).take maxPcapBurst) } with
        ring := (p :: ring).drop maxPcapBurst }
  | .checking => s.setWriter w { x with loc := if s.status = .idle then .stopping else .poll }
  | .stopping => s.setWriter w { x with status := .idle, loc := .leaving }
  | .leaving => { s.setWriter w { x with loc := .closing } with startUpCnt := s.startUpCnt - 1 }
  | .closing => s.setWriter w { x with file := none, loc := .poll }
  | .writing [] => s.setWriter w { x with loc := .poll }
  | .writing (p :: bufs) =>
    -- without an open file `compress_file_packet` does nothing
    let file := if roll then x.file.map fun _ => s.session else x.file
    { s.setWriter w { x with file := file, loc := .writing bufs } with
      written := s.written ++ (file.map fun f => (p, f)).toList }

/-! ## Runs -/

/-- A step: a command, or a thread goes on.  When the process ends, the receiver sets
`g_capture_request` to idle itself, which is a `stop` right before its step. -/
inductive Event (W D : Type) where
  | start
  | stop
  | receiver (bufs : List D)
  | writer (w : W) (roll : Bool)

variable [Fintype W]

def next (s : State W D) : Event W D → State W D
  | .start => { s with request := .running }
  | .stop => { s with request := .idle }
  | .receiver bufs => receiverStep s bufs
  | .writer w roll => writerStep s w roll

/-- The process after the first steps of a schedule. -/
def after (e : ℕ → Event W D) : ℕ → State W D
  | 0 => .init
  | n + 1 => next (after e n) (e n)

/-- The step is one of the writer. -/
def StepOf (e : ℕ → Event W D) (w : W) (n : ℕ) : Prop := ∃ roll, e n = .writer w roll

/-- The writer runs, and looks at the ring again before it closes its file. -/
def Writer.Busy (x : Writer D) : Prop :=
  x.status = .running ∧ x.loc ≠ .checking ∧ x.loc ≠ .stopping

/-- What the two changes of the receiver's status need. -/
def Guard (s : State W D) : Event W D → Prop
  | .receiver _ =>
    (s.receiver = .stopping → s.ring = [] ∨ ∃ w, (s.writer w).Busy) ∧
      (s.receiver = .starting → ∀ w, (s.writer w).status = .idle)
  | _ => True

instance [DecidableEq D] (x : Writer D) : Decidable x.Busy :=
  inferInstanceAs (Decidable (_ ∧ _))

instance [DecidableEq D] (s : State W D) : (e : Event W D) → Decidable (Guard s e)
  | .receiver _ => inferInstanceAs (Decidable (_ ∧ _))
  | .start | .stop | .writer _ _ => .isTrue trivial

/-- What a writer has taken from the ring and not written yet. -/
def Writer.held (x : Writer D) : List (Packet D) :=
  match x.loc with
  | .writing bufs => bufs
  | _ => []

/-- The packets that were enqueued and not lost. -/
def State.packets (s : State W D) : Multiset (Packet D) :=
  (s.written.map Prod.fst : List (Packet D)) + ∑ w, ((s.writer w).held : Multiset (Packet D)) +
    (s.ring : Multiset (Packet D))

/-- The packets are kept.  No two packets have one number; every packet that was enqueued
is written, in the hands of a writer, or on the ring, and that once; what is written is in
a file of its session; and when all threads are idle the ring is empty and everything is
written. -/
structure Kept (s : State W D) : Prop where
  nodup : s.enqueued.Nodup
  once : (s.enqueued : Multiset (Packet D)) = s.packets
  session : ∀ r ∈ s.written, r.2 = r.1.session
  idle : s.receiverStatus = .idle → (∀ w, (s.writer w).status = .idle) →
    s.ring = [] ∧ (s.written.map Prod.fst).Perm s.enqueued

/-! ## The invariant -/

/-- What holds of a writer at each place. -/
def WriterOk (session : ℕ) (x : Writer D) : Prop :=
  match x.loc with
  | .poll => x.status = .running → x.file = some session
  | .starting | .leaving | .closing => x.status = .idle
  | .opening => x.status = .running
  | .entering | .reading | .checking | .stopping => x.status = .running ∧ x.file = some session
  | .writing bufs => x.status = .running ∧ x.file = some session ∧ ∀ p ∈ bufs, p.session = session

/-- What holds of the two statuses at each place of the receiver. -/
def ReceiverOk (s : State W D) : Prop :=
  match s.receiver with
  | .poll => s.receiverStatus = s.status
  | .stopping | .entering | .waiting | .receiving =>
    s.receiverStatus = .running ∧ s.status = .running
  | .lowering => s.receiverStatus = .idle ∧ s.status = .running
  | .leaving | .starting => s.receiverStatus = .idle ∧ s.status = .idle
  | .raising => s.receiverStatus = .running ∧ s.status = .idle

structure Inv (s : State W D) : Prop where
  receiver : ReceiverOk s
  writer : ∀ w, WriterOk s.session (s.writer w)
  ring : ∀ p ∈ s.ring, p.session = s.session
  written : ∀ r ∈ s.written, r.2 = r.1.session
  once : (s.enqueued : Multiset (Packet D)) = s.packets
  number : s.enqueued.map Packet.number = List.range s.enqueued.length
  drained : s.receiverStatus = .idle ∨ s.status = .idle →
    s.ring = [] ∨ ∃ w, (s.writer w).Busy

omit [DecidableEq W] in
theorem sum_held_eq_zero {writer : W → Writer D} (h : ∀ w, (writer w).held = []) :
    ∑ w, ((writer w).held : Multiset (Packet D)) = 0 :=
  Finset.sum_eq_zero fun w _ => by rw [h w]; rfl

omit [DecidableEq W] in
theorem inv_init : Inv (State.init : State W D) where
  receiver := rfl
  writer _ := fun h => by cases h
  ring _ hp := by cases hp
  written _ hr := by cases hr
  once := by
    show _ = _ + _ + _
    rw [sum_held_eq_zero fun _ => rfl]
    rfl
  number := rfl
  drained _ := .inl rfl

/-! ### Steps of a writer -/

/-- What the other writers hold stays. -/
theorem sum_held_update (writer : W → Writer D) (w : W) (x : Writer D) :
    ∑ v, ((update writer w x v).held : Multiset (Packet D)) + (writer w).held =
      ∑ v, ((writer v).held : Multiset (Packet D)) + x.held := by
  have hrest : ∑ v ∈ Finset.univ.erase w, ((update writer w x v).held : Multiset (Packet D)) =
      ∑ v ∈ Finset.univ.erase w, ((writer v).held : Multiset (Packet D)) :=
    Finset.sum_congr rfl fun v hv => by rw [update_of_ne (Finset.ne_of_mem_erase hv)]
  rw [← Finset.add_sum_erase _ _ (Finset.mem_univ w), hrest, update_self,
    ← Finset.add_sum_erase _ (fun v => ((writer v).held : Multiset (Packet D)))
      (Finset.mem_univ w)]
  abel

variable {s : State W D} {w : W}

omit [DecidableEq W] [Fintype W] in
/-- With or without a new file, the file is one of this session. -/
theorem file_rolled (hfile : (s.writer w).file = some s.session) (roll : Bool) :
    (if roll then (s.writer w).file.map fun _ => s.session else (s.writer w).file) =
      some s.session := by
  rw [hfile]
  cases roll with
  | true | false => rfl

omit [DecidableEq W] in
/-- When all threads are idle the ring is empty. -/
theorem Inv.ring_eq_nil (h : Inv s) (hrec : s.receiverStatus = .idle)
    (hidle : ∀ w, (s.writer w).status = .idle) : s.ring = [] := by
  rcases h.drained (.inl hrec) with hnil | ⟨w, hw⟩
  · exact hnil
  · exact absurd ((hidle w).symm.trans hw.1) nofun

/-- A writer keeps the invariant if it keeps its packets and stays busy until the ring is
empty. -/
theorem Inv.setWriter (h : Inv s) {x : Writer D}
    {ring : List (Packet D)} {written : List (Packet D × ℕ)} (cnt : ℕ)
    (hx : WriterOk s.session x) (hring : ∀ p ∈ ring, p ∈ s.ring)
    (hwritten : ∀ r ∈ written, r.2 = r.1.session)
    (hkeep : (written.map Prod.fst : Multiset (Packet D)) + x.held + ring =
      (s.written.map Prod.fst : List (Packet D)) + (s.writer w).held + s.ring)
    (hbusy : (s.writer w).Busy → ring = [] ∨ x.Busy) :
    Inv { s.setWriter w x with ring := ring, written := written, startUpCnt := cnt } where
  receiver := h.receiver
  writer v := by
    show WriterOk s.session (update s.writer w x v)
    by_cases hv : v = w
    · rwa [hv, update_self]
    · rw [update_of_ne hv]
      exact h.writer v
  ring p hp := h.ring p (hring p hp)
  written := hwritten
  once := by
    show (s.enqueued : Multiset (Packet D)) = _ + ∑ v, _ + _
    have hsum := sum_held_update s.writer w x
    rw [h.once, State.packets]
    refine add_right_cancel (b := ((s.writer w).held : Multiset (Packet D))) ?_
    calc (s.written.map Prod.fst : List (Packet D)) + ∑ v, ((s.writer v).held : Multiset (Packet D)) +
          s.ring + (s.writer w).held
        = ((s.written.map Prod.fst : List (Packet D)) + ((s.writer w).held : Multiset (Packet D)) +
            s.ring) + ∑ v, ((s.writer v).held : Multiset (Packet D)) := by abel
      _ = ((written.map Prod.fst : List (Packet D)) + (x.held : Multiset (Packet D)) + ring) +
            ∑ v, ((s.writer v).held : Multiset (Packet D)) := by rw [← hkeep]
      _ = (written.map Prod.fst : List (Packet D)) +
            (∑ v, ((s.writer v).held : Multiset (Packet D)) + x.held) + ring := by abel
      _ = (written.map Prod.fst : List (Packet D)) +
            ∑ v, ((update s.writer w x v).held : Multiset (Packet D)) + ring +
            (s.writer w).held := by rw [← hsum]; abel
  number := h.number
  drained hidle := by
    have hsub : s.ring = [] → ring = [] := fun hnil =>
      List.eq_nil_iff_forall_not_mem.mpr fun p hp => by
        have := hring p hp
        rw [hnil] at this
        cases this
    rcases h.drained hidle with hnil | ⟨v, hv⟩
    · exact .inl (hsub hnil)
    by_cases hvw : v = w
    · subst hvw
      rcases hbusy hv with hnil | hx
      · exact .inl hnil
      exact .inr ⟨v, by
        show (update s.writer v x v).Busy
        rw [update_self]
        exact hx⟩
    · exact .inr ⟨v, by
        show (update s.writer w x v).Busy
        rw [update_of_ne hvw]
        exact hv⟩

/-- The same for a step that moves no packet. -/
theorem Inv.moveWriter (h : Inv s) {x : Writer D} (cnt : ℕ)
    (hx : WriterOk s.session x) (hheld : x.held = (s.writer w).held)
    (hbusy : (s.writer w).Busy → s.ring = [] ∨ x.Busy) :
    Inv { s.setWriter w x with startUpCnt := cnt } :=
  h.setWriter cnt hx (fun _ hp => hp) h.written (by rw [hheld]; rfl) hbusy

/-- **The steps of a writer.** -/
theorem Inv.of_writerStep (h : Inv s) (w : W) (roll : Bool) : Inv (writerStep s w roll) := by
  have hw := h.writer w
  have hheld := Writer.held.eq_def (s.writer w)
  unfold WriterOk at hw
  unfold writerStep
  cases hloc : (s.writer w).loc <;> rw [hloc] at hw hheld <;> simp only [hloc]
  case poll =>
    by_cases hrun : (s.writer w).status = .running
    · rw [if_pos hrun]
      exact h.moveWriter _ ⟨hrun, hw hrun⟩ hheld.symm fun _ => .inr ⟨hrun, nofun, nofun⟩
    rw [if_neg hrun]
    have hidle : (s.writer w).status = .idle := by
      cases hst : (s.writer w).status with
      | idle => rfl
      | running => exact absurd hst hrun
    have hnot {x : Writer D} : (s.writer w).Busy → s.ring = [] ∨ x.Busy := fun hb =>
      absurd hb.1 hrun
    split
    · exact h.moveWriter _ (fun hst => absurd hst hrun) hheld.symm hnot
    · exact h.moveWriter _ hidle hheld.symm hnot
  case starting => exact h.moveWriter _ rfl hheld.symm fun _ => .inr ⟨rfl, nofun, nofun⟩
  case opening => exact h.moveWriter _ ⟨hw, rfl⟩ hheld.symm fun _ => .inr ⟨hw, nofun, nofun⟩
  case entering => exact h.moveWriter _ hw hheld.symm fun _ => .inr ⟨hw.1, nofun, nofun⟩
  case reading =>
    cases hring : s.ring with
    | nil => exact h.moveWriter _ hw hheld.symm fun _ => .inl hring
    | cons p ring =>
      have hmem : ∀ q ∈ (p :: ring).take maxPcapBurst, q.session = s.session := fun q hq =>
        h.ring q (hring ▸ List.mem_of_mem_take hq)
      refine h.setWriter _ ⟨hw.1, hw.2, hmem⟩ (fun q hq => hring ▸ List.mem_of_mem_drop hq)
        h.written ?_ fun _ => .inr ⟨hw.1, nofun, nofun⟩
      have hsplit : (((p :: ring).take maxPcapBurst : List (Packet D)) : Multiset (Packet D)) +
          ((p :: ring).drop maxPcapBurst : List (Packet D)) = (p :: ring : List (Packet D)) := by
        rw [Multiset.coe_add, List.take_append_drop]
      rw [hheld, hring, Multiset.coe_nil, add_zero, add_assoc]
      exact congrArg _ hsplit
  case checking =>
    have hnot {x : Writer D} : (s.writer w).Busy → s.ring = [] ∨ x.Busy := fun hb =>
      absurd hloc hb.2.1
    split
    · exact h.moveWriter _ hw hheld.symm hnot
    · exact h.moveWriter _ (fun _ => hw.2) hheld.symm hnot
  case stopping => exact h.moveWriter _ rfl hheld.symm fun hb => absurd hloc hb.2.2
  case leaving =>
    exact h.moveWriter _ hw hheld.symm fun hb => absurd (hw.symm.trans hb.1) nofun
  case closing =>
    have hnot : (s.writer w).status ≠ .running := by
      rw [hw]
      exact nofun
    exact h.moveWriter _ (fun hst => absurd hst hnot) hheld.symm fun hb => absurd hb.1 hnot
  case writing bufs =>
    obtain ⟨hst, hfile, hbufs⟩ := hw
    cases bufs with
    | nil => exact h.moveWriter _ (fun _ => hfile) hheld.symm fun _ => .inr ⟨hst, nofun, nofun⟩
    | cons p bufs =>
      rw [file_rolled hfile roll]
      refine h.setWriter _ ⟨hst, rfl, fun q hq => hbufs q (List.mem_cons_of_mem p hq)⟩
        (fun _ hp => hp) (fun r hr => ?_) ?_ fun _ => .inr ⟨hst, nofun, nofun⟩
      · rcases List.mem_append.mp hr with hr | hr
        · exact h.written r hr
        · rw [List.mem_singleton.mp hr]
          exact (hbufs p List.mem_cons_self).symm
      · simp only [Writer.held, hloc]
        rw [List.map_append, ← Multiset.coe_add, add_assoc _ _ (bufs : Multiset (Packet D))]
        rfl

/-! ### Steps of the receiver -/

omit [DecidableEq W] [Fintype W] in
theorem number_stamp (s : State W D) (ds : List D) :
    (s.stamp ds).map Packet.number = List.range' s.enqueued.length ds.length := by
  rw [State.stamp, List.map_map]
  exact List.zipIdx_map_snd _ _

omit [DecidableEq W] [Fintype W] in
theorem length_stamp (s : State W D) (ds : List D) : (s.stamp ds).length = ds.length := by
  rw [State.stamp, List.length_map, List.length_zipIdx]

omit [DecidableEq W] in
/-- **The steps of the receiver.** -/
theorem Inv.of_receiverStep (h : Inv s) {bufs : List D}
    (hG : Guard s (.receiver bufs)) : Inv (receiverStep s bufs) := by
  have hr := h.receiver
  unfold ReceiverOk at hr
  unfold receiverStep
  cases hloc : s.receiver <;> rw [hloc] at hr
  case poll =>
    refine { h with receiver := ?_ }
    show ReceiverOk { s with receiver := polled s.request s.receiverStatus }
    unfold ReceiverOk
    cases s.request with
    | idle =>
      cases hst : s.receiverStatus with
      | idle => exact hst.symm.trans hr
      | running => exact ⟨rfl, hr.symm.trans hst⟩
    | running =>
      cases hst : s.receiverStatus with
      | idle | running => exact ⟨rfl, hr.symm.trans hst⟩
  case stopping => exact { h with receiver := ⟨rfl, hr.2⟩, drained := fun _ => hG.1 hloc }
  case lowering =>
    exact { h with receiver := ⟨hr.1, rfl⟩, drained := fun _ => h.drained (.inl hr.1) }
  case leaving => exact { h with receiver := hr.1.trans hr.2.symm }
  case starting =>
    -- all writers are idle, so that nothing is left of the last session
    have hidle := hG.2 hloc
    have hnil := h.ring_eq_nil hr.1 hidle
    refine { h with receiver := ⟨rfl, hr.2⟩, writer := ?_, ring := ?_, drained := fun _ => .inl hnil }
    · intro w
      have hw := h.writer w
      have hidle := hidle w
      show WriterOk (s.session + 1) (s.writer w)
      unfold WriterOk at hw ⊢
      cases hwloc : (s.writer w).loc <;> rw [hwloc] at hw
      case poll => exact fun hrun => absurd (hidle.symm.trans hrun) nofun
      case starting | leaving | closing => exact hidle
      case opening => exact absurd (hidle.symm.trans hw) nofun
      all_goals exact absurd (hidle.symm.trans hw.1) nofun
    · show ∀ p ∈ s.ring, _
      rw [hnil]
      exact nofun
  case raising =>
    refine { h with receiver := ⟨hr.1, rfl⟩, drained := fun hidle => h.drained (hidle.imp_right ?_) }
    exact nofun
  case entering => exact { h with receiver := hr }
  case waiting =>
    show Inv (if Fintype.card W + 1 > s.startUpCnt then { s with receiver := .poll }
      else { s with receiver := .receiving })
    split
    · exact { h with receiver := hr.1.trans hr.2.symm }
    · exact { h with receiver := hr }
  case receiving =>
    refine { h with receiver := hr.1.trans hr.2.symm, ring := fun p hp => ?_, once := ?_,
                    number := ?_, drained := fun hidle => ?_ }
    · rcases List.mem_append.mp hp with hp | hp
      · exact h.ring p hp
      · obtain ⟨d, -, rfl⟩ := List.mem_map.mp hp
        rfl
    · have honce := h.once
      show ((s.enqueued ++ _ : List (Packet D)) : Multiset (Packet D)) = _ + _ + _
      rw [← Multiset.coe_add, ← Multiset.coe_add, honce, State.packets]
      exact add_assoc _ _ _
    · show (s.enqueued ++ s.stamp _).map Packet.number = List.range (s.enqueued ++ s.stamp _).length
      rw [List.map_append, h.number, number_stamp, List.length_append, length_stamp,
        List.range_add, List.range'_eq_map_range]
    · rcases hidle with hidle | hidle
      · cases hr.1.symm.trans hidle
      · cases hr.2.symm.trans hidle

theorem Inv.of_next (h : Inv s) {e : Event W D} (hG : Guard s e) : Inv (next s e) := by
  cases e with
  | start | stop => exact { h with }
  | receiver bufs => exact h.of_receiverStep hG
  | writer w roll => exact h.of_writerStep w roll

theorem inv_after {e : ℕ → Event W D} {n : ℕ} (hG : ∀ m < n, Guard (after e m) (e m)) :
    Inv (after e n) := by
  induction n with
  | zero => exact inv_init
  | succ n ih =>
    exact (ih fun m hm => hG m (Nat.lt_succ_of_lt hm)).of_next (hG n (Nat.lt_succ_self n))

/-! ## Progress -/

/-- How far it is from a place to the next look at the ring. -/
def WriterAt.distance : WriterAt D → ℕ
  | .reading => 0
  | .entering => 1
  | .opening => 2
  | .starting => 3
  | .poll => 4
  | .closing => 5
  | .writing bufs => 5 + bufs.length
  | .leaving => 6
  | .stopping => 7
  | .checking => 8

/-- The writer is going to look at the ring. -/
def Heading (s : State W D) (w : W) : Prop := s.status = .running ∨ (s.writer w).Busy

omit [DecidableEq W] in
theorem Inv.exists_heading [Nonempty W] (h : Inv s) (hring : s.ring ≠ []) : ∃ w, Heading s w := by
  cases hst : s.status with
  | running => exact ⟨Classical.arbitrary W, .inl hst⟩
  | idle =>
    obtain ⟨w, hw⟩ := (h.drained (.inr hst)).resolve_left hring
    exact ⟨w, .inr hw⟩

omit [Fintype W] in
/-- What a step of a writer does not touch. -/
theorem frame_writerStep (s : State W D) (w : W) (roll : Bool) :
    (writerStep s w roll).status = s.status ∧ (writerStep s w roll).receiver = s.receiver ∧
      ((s.writer w).loc ≠ .reading → (writerStep s w roll).ring = s.ring) ∧
      ∀ v ≠ w, (writerStep s w roll).writer v = s.writer v := by
  have hset (x : Writer D) (v : W) (hv : v ≠ w) : (s.setWriter w x).writer v = s.writer v :=
    update_of_ne hv ..
  unfold writerStep
  cases hl : (s.writer w).loc <;> simp only [hl]
  case reading =>
    cases s.ring with
    | nil | cons => exact ⟨rfl, rfl, fun h => absurd rfl h, hset _⟩
  case writing bufs =>
    cases bufs with
    | nil | cons => exact ⟨rfl, rfl, fun _ => rfl, hset _⟩
  all_goals exact ⟨rfl, rfl, fun _ => rfl, hset _⟩

omit [Fintype W] in
/-- A step of a writer that is not at the ring brings it nearer. -/
theorem writerStep_nearer (hhead : Heading s w) (hloc : (s.writer w).loc ≠ .reading) (roll : Bool) :
    Heading (writerStep s w roll) w ∧
      ((writerStep s w roll).writer w).loc.distance < (s.writer w).loc.distance := by
  -- where the writer goes in each case, and why it is busy if it was
  have key {x : Writer D} {written : List (Packet D × ℕ)} {cnt : ℕ}
      (hbusy : (s.writer w).Busy → x.Busy) (hlt : x.loc.distance < (s.writer w).loc.distance) :
      Heading { s.setWriter w x with written := written, startUpCnt := cnt } w ∧
        ((s.setWriter w x).writer w).loc.distance < (s.writer w).loc.distance := by
    have hself : (s.setWriter w x).writer w = x := update_self ..
    exact ⟨hhead.imp id fun hb => hself.symm ▸ hbusy hb, hself.symm ▸ hlt⟩
  unfold writerStep
  cases hl : (s.writer w).loc <;> rw [hl] at key <;> simp only [hl]
  case reading => exact absurd hl hloc
  case poll =>
    by_cases hrun : (s.writer w).status = .running
    · rw [if_pos hrun]
      exact key (fun _ => ⟨hrun, nofun, nofun⟩) (by decide : 0 < 4)
    have hst : s.status ≠ .idle := by
      rw [hhead.resolve_right fun hb => hrun hb.1]
      exact nofun
    rw [if_neg hrun, if_neg hst]
    exact key (fun hb => absurd hb.1 hrun) (by decide : 3 < 4)
  case starting => exact key (fun _ => ⟨rfl, nofun, nofun⟩) (by decide : 2 < 3)
  case opening => exact key (fun hb => ⟨hb.1, nofun, nofun⟩) (by decide : 1 < 2)
  case entering => exact key (fun hb => ⟨hb.1, nofun, nofun⟩) (by decide : 0 < 1)
  case checking =>
    have hst : s.status ≠ .idle := by
      rw [hhead.resolve_right fun hb => hb.2.1 hl]
      exact nofun
    rw [if_neg hst]
    exact key (fun hb => absurd hl hb.2.1) (by decide : 4 < 8)
  case stopping => exact key (fun hb => absurd hl hb.2.2) (by decide : 6 < 7)
  case leaving => exact key (fun hb => ⟨hb.1, nofun, nofun⟩) (by decide : 5 < 6)
  case closing => exact key (fun hb => ⟨hb.1, nofun, nofun⟩) (by decide : 4 < 5)
  case writing bufs =>
    cases bufs with
    | nil => exact key (fun hb => ⟨hb.1, nofun, nofun⟩) (by decide : 4 < 5)
    | cons p bufs =>
      exact key (fun hb => ⟨hb.1, nofun, nofun⟩) (Nat.lt_succ_self (5 + bufs.length))

variable {p : Packet D}

omit [Fintype W] in
/-- A writer at the ring takes packets from its front. -/
theorem writerStep_takes (hloc : (s.writer w).loc = .reading)
    {i : ℕ} (hp : s.ring[i]? = some p) (roll : Bool) :
    p ∈ ((writerStep s w roll).writer w).held ∨
      ∃ j < i, (writerStep s w roll).ring[j]? = some p := by
  cases hring : s.ring with
  | nil =>
    rw [hring] at hp
    cases hp
  | cons q ring =>
    rw [hring] at hp
    simp only [writerStep, hloc, hring]
    by_cases hi : i < maxPcapBurst
    · refine .inl ?_
      show p ∈ (update s.writer w _ w).held
      rw [update_self]
      refine List.mem_of_getElem? (i := i) ?_
      show ((q :: ring).take maxPcapBurst)[i]? = some p
      rwa [List.getElem?_take_of_lt hi]
    · have hpos : 0 < maxPcapBurst := by decide
      refine .inr ⟨i - maxPcapBurst, by omega, ?_⟩
      show ((q :: ring).drop maxPcapBurst)[i - maxPcapBurst]? = some p
      rwa [List.getElem?_drop, Nat.add_sub_cancel' (Nat.le_of_not_lt hi)]

omit [DecidableEq W] in
theorem writer_receiverStep (s : State W D) (bufs : List D) :
    (receiverStep s bufs).writer = s.writer := by
  unfold receiverStep
  cases s.receiver with
  | waiting =>
    dsimp only
    split <;> rfl
  | _ => rfl

/-- A writer stays as it is in the steps of the others. -/
theorem writer_next {e : Event W D} (h : ∀ roll, e ≠ .writer w roll) :
    (next s e).writer w = s.writer w := by
  cases e with
  | start | stop => rfl
  | receiver bufs => exact congrFun (writer_receiverStep s bufs) w
  | writer v roll => exact (frame_writerStep s v roll).2.2.2 w fun hwv => h roll (hwv ▸ rfl)

/-- A writer writes the first packet that it holds. -/
theorem Inv.writes (h : Inv s) {bufs : List (Packet D)}
    (hheld : (s.writer w).held = p :: bufs) (roll : Bool) :
    p ∈ (writerStep s w roll).written.map Prod.fst ∧
      ((writerStep s w roll).writer w).held = bufs := by
  have hw := h.writer w
  unfold WriterOk at hw
  unfold Writer.held at hheld
  cases hl : (s.writer w).loc with
  | writing l =>
    rw [hl] at hw hheld
    have hl' : l = p :: bufs := hheld
    subst hl'
    simp only [writerStep, hl, file_rolled hw.2.1]
    refine ⟨?_, ?_⟩
    · show p ∈ (s.written ++ [(p, s.session)]).map Prod.fst
      rw [List.map_append]
      exact List.mem_append_right _ (List.mem_singleton_self p)
    · show (update s.writer w _ w).held = bufs
      rw [update_self]
      rfl
  | _ => rw [hl] at hheld; cases hheld

/-- How often the status can still change while the ring is not empty: the receiver does
not start another session. -/
def State.phase (s : State W D) : ℕ :=
  if s.receiver = .raising then 2 else if s.status = .running then 1 else 0

/-- While the ring is not empty the phase does not go up, and the status changes only with
the phase. -/
theorem Inv.phase_next (h : Inv s) {e : Event W D} (hG : Guard s e) (hring : s.ring ≠ []) :
    (next s e).phase < s.phase ∨ (next s e).phase = s.phase ∧ (next s e).status = s.status := by
  have hsame {s' : State W D} (hr : s'.receiver ≠ .raising ∧ s.receiver ≠ .raising)
      (hst : s'.status = s.status) : s'.phase < s.phase ∨ s'.phase = s.phase ∧ s'.status = s.status := by
    refine .inr ⟨?_, hst⟩
    rw [State.phase, State.phase, if_neg hr.1, if_neg hr.2, hst]
  have hr := h.receiver
  unfold ReceiverOk at hr
  cases e with
  | start | stop => exact .inr ⟨rfl, rfl⟩
  | writer w roll =>
    obtain ⟨hst, hrec, -⟩ := frame_writerStep s w roll
    refine .inr ⟨?_, hst⟩
    show (writerStep s w roll).phase = s.phase
    rw [State.phase, State.phase, hst, hrec]
  | receiver bufs =>
    show (receiverStep s bufs).phase < s.phase ∨
      (receiverStep s bufs).phase = s.phase ∧ (receiverStep s bufs).status = s.status
    unfold receiverStep
    cases hloc : s.receiver <;> rw [hloc] at hr
    case poll =>
      refine hsame ⟨?_, hloc ▸ nofun⟩ rfl
      show polled s.request s.receiverStatus ≠ .raising
      cases s.request with
      | idle | running => cases s.receiverStatus <;> exact nofun
    case lowering =>
      refine .inl ?_
      rw [State.phase, State.phase, hloc, if_neg nofun, if_neg nofun, if_neg nofun, if_pos hr.2]
      exact Nat.zero_lt_one
    case starting => exact absurd (h.ring_eq_nil hr.1 (hG.2 hloc)) hring
    case raising =>
      refine .inl ?_
      rw [State.phase, State.phase, hloc, if_neg nofun, if_pos rfl, if_pos rfl]
      exact Nat.one_lt_two
    case waiting =>
      dsimp only
      split <;> exact hsame ⟨nofun, hloc ▸ nofun⟩ rfl
    all_goals exact hsame ⟨nofun, hloc ▸ nofun⟩ rfl

/-- A packet on the ring stays there, moves up, or is taken. -/
theorem ring_next (e : Event W D) {i : ℕ} (hp : s.ring[i]? = some p) :
    (∃ w, p ∈ ((next s e).writer w).held) ∨
      ∃ j ≤ i, (next s e).ring[j]? = some p := by
  cases e with
  | start | stop => exact .inr ⟨i, le_rfl, hp⟩
  | receiver bufs =>
    refine .inr ⟨i, le_rfl, ?_⟩
    show (receiverStep s bufs).ring[i]? = some p
    unfold receiverStep
    cases s.receiver with
    | waiting =>
      dsimp only
      split <;> exact hp
    | receiving =>
      obtain ⟨hi, -⟩ := List.getElem?_eq_some_iff.mp hp
      exact (List.getElem?_append_left hi).trans hp
    | _ => exact hp
  | writer w roll =>
    by_cases hloc : (s.writer w).loc = .reading
    · rcases writerStep_takes hloc hp roll with hheld | ⟨j, hj, hring⟩
      · exact .inl ⟨w, hheld⟩
      · exact .inr ⟨j, Nat.le_of_lt hj, hring⟩
    · refine .inr ⟨i, le_rfl, ?_⟩
      show (writerStep s w roll).ring[i]? = some p
      rwa [(frame_writerStep s w roll).2.2.1 hloc]

section Schedule

variable {e : ℕ → Event W D}

/-- What a writer holds it writes. -/
theorem written_of_held (hG : ∀ m, Guard (after e m) (e m)) (hfair : Fairness.Fair (StepOf e))
    {w : W} {n : ℕ} {p : Packet D} (hp : p ∈ ((after e n).writer w).held) :
    ∃ m ≥ n, p ∈ (after e m).written.map Prod.fst := by
  have hinv (n : ℕ) : Inv (after e n) := inv_after fun m _ => hG m
  refine Fairness.leads_to hfair (P := fun v n => v = w ∧ p ∈ ((after e n).writer w).held)
    (fun _ n => ((after e n).writer w).held.length) ?_ ?_ ⟨rfl, hp⟩
  · rintro v n ⟨rfl, hp⟩ hnot
    have hsame : (after e (n + 1)).writer v = (after e n).writer v :=
      writer_next fun roll he => hnot ⟨roll, he⟩
    exact .inr (.inl ⟨⟨rfl, by rw [hsame]; exact hp⟩, by rw [hsame]⟩)
  rintro v n ⟨rfl, hp⟩ ⟨roll, he⟩
  have hnext : after e (n + 1) = writerStep (after e n) v roll := by
    rw [after, he]
    rfl
  cases hheld : ((after e n).writer v).held with
  | nil =>
    rw [hheld] at hp
    cases hp
  | cons q bufs =>
    obtain ⟨hwrites, hrest⟩ := (hinv n).writes hheld roll
    rw [← hnext] at hwrites hrest
    rw [hheld] at hp
    rcases List.mem_cons.mp hp with rfl | hp
    · exact .inl hwrites
    · refine .inr ⟨v, ⟨rfl, by rw [hrest]; exact hp⟩, ?_⟩
      rw [hrest, List.length_cons]
      exact Nat.lt_succ_self _

/-- What is on the ring is taken: by the position of the packet, the changes of the status
to come, and the distance of a writer that is going to look at the ring. -/
theorem held_of_ring [Nonempty W] (hG : ∀ m, Guard (after e m) (e m))
    (hfair : Fairness.Fair (StepOf e)) {n : ℕ} {p : Packet D} (hp : p ∈ (after e n).ring) :
    ∃ m ≥ n, ∃ w, p ∈ ((after e m).writer w).held := by
  have hinv (n : ℕ) : Inv (after e n) := inv_after fun m _ => hG m
  have hne {n i : ℕ} (h : (after e n).ring[i]? = some p) : (after e n).ring ≠ [] :=
    List.ne_nil_of_mem (List.mem_of_getElem? h)
  obtain ⟨i, hi⟩ := List.mem_iff_getElem?.mp hp
  obtain ⟨w, hw⟩ := (hinv n).exists_heading (hne hi)
  let rank (x : W × ℕ) (n : ℕ) : ℕ ×ₗ ℕ ×ₗ ℕ :=
    toLex (x.2, toLex ((after e n).phase, ((after e n).writer x.1).loc.distance))
  let P (x : W × ℕ) (n : ℕ) : Prop := (after e n).ring[x.2]? = some p ∧ Heading (after e n) x.1
  -- once the packet has moved up or the status has changed, some writer heads for the ring
  have hlower {x : W × ℕ} {n j : ℕ} (hring : (after e (n + 1)).ring[j]? = some p)
      (hlt : j < x.2 ∨ j = x.2 ∧ (after e (n + 1)).phase < (after e n).phase) :
      ∃ y, P y (n + 1) ∧ rank y (n + 1) < rank x n := by
    obtain ⟨v, hv⟩ := (hinv (n + 1)).exists_heading (hne hring)
    refine ⟨(v, j), ⟨hring, hv⟩, ?_⟩
    rcases hlt with hlt | ⟨rfl, hlt⟩
    · exact Prod.Lex.toLex_lt_toLex.mpr (.inl hlt)
    · exact Prod.Lex.toLex_lt_toLex.mpr (.inr ⟨rfl, Prod.Lex.toLex_lt_toLex.mpr (.inl hlt)⟩)
  have hfair' : Fairness.Fair fun (x : W × ℕ) n => StepOf e x.1 n := fun x n => hfair x.1 n
  refine Fairness.leads_to hfair' (P := P) (Q := fun m => ∃ w, p ∈ ((after e m).writer w).held)
    rank ?_ ?_ (i := (w, i)) ⟨hi, hw⟩
  · rintro ⟨v, i⟩ n ⟨hring, hhead⟩ hnot
    have hsame : (after e (n + 1)).writer v = (after e n).writer v :=
      writer_next fun roll he => hnot ⟨roll, he⟩
    rcases ring_next (e n) hring with hheld | ⟨j, hj, hring'⟩
    · exact .inl hheld
    rcases Nat.lt_or_eq_of_le hj with hj | rfl
    · exact .inr (.inr (hlower hring' (.inl hj)))
    rcases (hinv n).phase_next (hG n) (hne hring) with hlt | ⟨hphase, hst⟩
    · exact .inr (.inr (hlower hring' (.inr ⟨rfl, hlt⟩)))
    refine .inr (.inl ⟨⟨hring', ?_⟩, ?_⟩)
    · show (after e (n + 1)).status = _ ∨ ((after e (n + 1)).writer v).Busy
      rw [hsame]
      exact hhead.imp hst.trans id
    · show toLex (j, toLex ((after e (n + 1)).phase, ((after e (n + 1)).writer v).loc.distance)) = _
      rw [hsame]
      exact congrArg (fun k => toLex (j, toLex (k, ((after e n).writer v).loc.distance))) hphase
  · rintro ⟨v, i⟩ n ⟨hring, hhead⟩ ⟨roll, he⟩
    have hnext : after e (n + 1) = writerStep (after e n) v roll := by
      rw [after, he]
      rfl
    by_cases hloc : ((after e n).writer v).loc = .reading
    · rcases writerStep_takes hloc hring roll with hheld | ⟨j, hj, hring'⟩
      · exact .inl ⟨v, hnext ▸ hheld⟩
      · exact .inr (hlower (hnext ▸ hring') (.inl hj))
    obtain ⟨hst, hrec, hsame, -⟩ := frame_writerStep (after e n) v roll
    obtain ⟨hhead', hlt⟩ := writerStep_nearer hhead hloc roll
    refine .inr ⟨(v, i), ⟨?_, hnext ▸ hhead'⟩, ?_⟩
    · rwa [hnext, hsame hloc]
    refine Prod.Lex.toLex_lt_toLex.mpr (.inr ⟨rfl, Prod.Lex.toLex_lt_toLex.mpr (.inr ⟨?_, ?_⟩)⟩)
    · show (after e (n + 1)).phase = (after e n).phase
      rw [hnext, State.phase, State.phase, hst, hrec]
    · show ((after e (n + 1)).writer v).loc.distance < _
      rwa [hnext]

end Schedule

/-! ## The theorem -/

omit [DecidableEq W] in
theorem mem_packets :
    p ∈ s.packets ↔ p ∈ s.written.map Prod.fst ∨ (∃ w, p ∈ (s.writer w).held) ∨ p ∈ s.ring := by
  simp [State.packets, Multiset.mem_sum, or_assoc]

omit [DecidableEq W] in
theorem Inv.kept (h : Inv s) : Kept s where
  nodup := .of_map Packet.number (h.number ▸ List.nodup_range)
  once := h.once
  session := h.written
  idle hrec hwriters := by
    have hnil := h.ring_eq_nil hrec hwriters
    have hheld (w : W) : (s.writer w).held = [] := by
      have hw := h.writer w
      unfold WriterOk at hw
      unfold Writer.held
      cases hl : (s.writer w).loc with
      | writing bufs =>
        rw [hl] at hw
        exact absurd ((hwriters w).symm.trans hw.1) nofun
      | _ => rfl
    refine ⟨hnil, ?_⟩
    have honce := h.once
    rw [State.packets, sum_held_eq_zero hheld, hnil, add_zero, Multiset.coe_nil, add_zero] at honce
    exact (Multiset.coe_eq_coe.mp honce).symm

/-- **Capture sessions.**  In a schedule whose steps meet the guard, no packet is lost,
doubled or mixed up with another session, the ring is empty whenever all threads are
idle, and if no writer stands still for ever every packet that is enqueued comes to be
written. -/
theorem capture_kept [Nonempty W] (e : ℕ → Event W D) :
    (∀ n, (∀ m < n, Guard (after e m) (e m)) → Kept (after e n)) ∧
    ((∀ m, Guard (after e m) (e m)) → Fairness.Fair (StepOf e) →
      ∀ n, ∀ p ∈ (after e n).enqueued, ∃ m, p ∈ (after e m).written.map Prod.fst) := by
  refine ⟨fun n hG => (inv_after hG).kept, fun hG hfair n p hp => ?_⟩
  have hmem : p ∈ (after e n).packets := by
    rw [← (inv_after fun m _ => hG m : Inv (after e n)).once]
    exact hp
  rcases mem_packets.mp hmem with hwritten | ⟨w, hheld⟩ | hring
  · exact ⟨n, hwritten⟩
  · obtain ⟨m, -, hm⟩ := written_of_held hG hfair hheld
    exact ⟨m, hm⟩
  · obtain ⟨k, -, w, hheld⟩ := held_of_ring hG hfair hring
    obtain ⟨m, -, hm⟩ := written_of_held hG hfair hheld
    exact ⟨m, hm⟩

/-- A schedule that goes on with steps of the only writer. -/
def thenWriter (script : List (Event Unit ℕ)) (n : ℕ) : Event Unit ℕ :=
  script.getD n (.writer () false)

theorem thenWriter_of_le {script : List (Event Unit ℕ)} {n : ℕ} (h : script.length ≤ n) :
    thenWriter script n = .writer () false := by
  rw [thenWriter, List.getD_eq_getElem?_getD, List.getElem?_eq_none h, Option.getD_none]

theorem fair_thenWriter (script : List (Event Unit ℕ)) :
    Fairness.Fair (StepOf (thenWriter script)) := by
  intro w n
  exact ⟨max n script.length, Nat.le_max_left .., false, thenWriter_of_le (Nat.le_max_right ..)⟩

/-- A session with one packet: the receiver and the writer start, the packet goes through
the ring, and `stop` comes when it has been taken. -/
def onePacket : List (Event Unit ℕ) :=
  [.start] ++ List.replicate 5 (.receiver []) ++ List.replicate 4 (.writer () false) ++
    List.replicate 3 (.receiver [7]) ++ [.writer () false, .stop] ++ List.replicate 4 (.receiver [])

/-- The packet is written, to the file of its session, and then all is idle. -/
theorem capture_kept_onePacket :
    (∀ m, Guard (after (thenWriter onePacket) m) (thenWriter onePacket m)) ∧
    (after (thenWriter onePacket) 13).enqueued = [⟨7, 1, 0⟩] ∧
    Kept (after (thenWriter onePacket) 40) ∧
    ∃ m, ⟨7, 1, 0⟩ ∈ (after (thenWriter onePacket) m).written.map Prod.fst := by
  have hG (m : ℕ) : Guard (after (thenWriter onePacket) m) (thenWriter onePacket m) := by
    by_cases hm : m < onePacket.length
    · have hall : ∀ m < 19, Guard (after (thenWriter onePacket) m) (thenWriter onePacket m) := by
        decide +kernel
      exact hall m hm
    · rw [thenWriter_of_le (Nat.le_of_not_lt hm)]
      trivial
  have hone : (after (thenWriter onePacket) 13).enqueued = [⟨7, 1, 0⟩] := by decide +kernel
  obtain ⟨hkept, hlive⟩ := capture_kept (thenWriter onePacket)
  refine ⟨hG, hone, hkept 40 fun m _ => hG m, ?_⟩
  exact hlive hG (fair_thenWriter _) 13 _ (by rw [hone]; exact List.mem_singleton_self _)

/-- The last packet comes after the writer has found the ring empty, and before it reads
that the capture is over. -/
def latePacket : List (Event Unit ℕ) :=
  [.start] ++ List.replicate 5 (.receiver []) ++ List.replicate 5 (.writer () false) ++
    List.replicate 3 (.receiver [7]) ++ [.stop] ++ List.replicate 4 (.receiver []) ++
    List.replicate 4 (.writer () false)

/-- Both threads are idle, and the packet is still on the ring.  The next session finds it
there and writes it to its own file. -/
theorem not_kept_latePacket :
    (after (thenWriter latePacket) 23).receiverStatus = .idle ∧
    ((after (thenWriter latePacket) 23).writer ()).status = .idle ∧
    (after (thenWriter latePacket) 23).ring = [⟨7, 1, 0⟩] ∧
    (after (thenWriter (latePacket ++ [.start] ++ List.replicate 4 (.receiver []) ++
      List.replicate 7 (.writer () false))) 35).written = [(⟨7, 1, 0⟩, 2)] := by
  decide +kernel

end SoftPatchPanel.Pcap
