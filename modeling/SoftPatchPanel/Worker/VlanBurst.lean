import SoftPatchPanel.Worker.PortCapability
import SoftPatchPanel.Worker.VlanFrame

/-!
# `port_capability.c`: bursts of packets

A worker gets its packets from `rte_eth_rx_burst`, hands them over with
`rte_eth_tx_burst`, and gives those it cannot use back with `rte_pktmbuf_free`.  Both
burst calls are wrapped so that the VLAN operation of the port is applied on the way
(`vlan_operation`).

An mbuf pointer is a number.  `DataPath` holds the packet in each mbuf and remembers
what has been done with the references to it: received, added, freed, handed over.
What the calls to DPDK return is not up to the program: it is read off a list of
answers, which any statement about a worker quantifies over.
-/

namespace SoftPatchPanel.Worker

/-- `MAX_PKT_BURST`. -/
def maxPktBurst : ℕ := 32

/-- An mbuf handed to the tx driver: for which ethdev and queue, with which packet,
and which packet the worker had received in it. -/
structure Sent where
  portId : ℕ
  queueId : ℤ
  mbuf : ℕ
  frame : Frame
  got : Frame
  deriving DecidableEq

/-- What DPDK is going to return, call by call. -/
structure Answers where
  /-- `rte_eth_rx_burst`: the mbufs with their packets. -/
  rxBurst : List (List (ℕ × Frame))
  /-- `rte_pktmbuf_prepend` and `rte_pktmbuf_adj`, called for bursts in a direction:
  whether they return NULL. -/
  null : PortDir → List Bool
  /-- `rte_eth_tx_burst`: how many packets the driver has room for. -/
  txBurst : List ℕ

/-- The packets in the mbufs, what has been done with the references to them, and
what DPDK is going to say. -/
structure DataPath where
  frame : ℕ → Frame
  /-- The packet as it was when the worker received it, the VLAN operation of the rx
  port applied. -/
  got : ℕ → Frame
  received : List ℕ
  added : ℕ → ℤ
  freed : List ℕ
  sent : List Sent
  answers : Answers

namespace DataPath

/-- Nothing has been received yet; every mbuf holds the same packet. -/
def init (f : Frame) (answers : Answers) : DataPath :=
  ⟨fun _ => f, fun _ => f, [], fun _ => 0, [], [], answers⟩

/-- Replace the packet in an mbuf. -/
def setFrame (x : ℕ) (f : Frame) (w : DataPath) : DataPath :=
  { w with frame := Function.update w.frame x f }

/-- `rte_pktmbuf_free` on a list of mbufs. -/
def free (xs : List ℕ) (w : DataPath) : DataPath :=
  { w with freed := w.freed ++ xs }

/-- `rte_mbuf_refcnt_update`. -/
def refcntUpdate (x : ℕ) (n : ℤ) (w : DataPath) : DataPath :=
  { w with added := Function.update w.added x (w.added x + n) }

/-- `rte_pktmbuf_prepend` or `rte_pktmbuf_adj`: whether the call returns NULL. -/
def resize (dir : PortDir) (w : DataPath) : Bool × DataPath :=
  ((w.answers.null dir).headD false,
    { w with answers.null := Function.update w.answers.null dir (w.answers.null dir).tail })

/-- `rte_eth_rx_burst`. -/
def ethRxBurst (w : DataPath) : List ℕ × DataPath :=
  let burst := (w.answers.rxBurst.headD []).take maxPktBurst
  (burst.map Prod.fst,
    { w with
      frame := burst.foldl (fun frame p => Function.update frame p.1 p.2) w.frame
      received := w.received ++ burst.map Prod.fst
      answers.rxBurst := w.answers.rxBurst.tail })

/-- `rte_eth_tx_burst`: the driver takes the first packets, as many as it has room
for. -/
def ethTxBurst (portId : ℕ) (queueId : ℤ) (pkts : List ℕ) (w : DataPath) : ℕ × DataPath :=
  let n := min (w.answers.txBurst.headD 0) pkts.length
  (n, { w with
    sent := w.sent ++ (pkts.take n).map fun x => ⟨portId, queueId, x, w.frame x, w.got x⟩
    answers.txBurst := w.answers.txBurst.tail })

end DataPath

/-! ## The VLAN operation -/

/-- Edit the tag of a packet.  If the header has to move, room is asked for first. -/
def editTag (moves : Frame → Bool) (edit : Frame → Frame) (dir : PortDir) (x : ℕ)
    (w : DataPath) : Ret × DataPath :=
  if moves (w.frame x) then
    if (w.resize dir).1 then (.ng, (w.resize dir).2)
    else (.ok, (w.resize dir).2.setFrame x (edit (w.frame x)))
  else (.ok, w.setFrame x (edit (w.frame x)))

/-- `add_vlan_tag_one`. -/
def addVlanTagOne (tci : ℤ) : PortDir → ℕ → DataPath → Ret × DataPath :=
  editTag (fun f => !f.tagged) (Frame.addTag tci)

/-- `del_vlan_tag_one`. -/
def delVlanTagOne : PortDir → ℕ → DataPath → Ret × DataPath :=
  editTag Frame.tagged Frame.delTag

/-- The loop of `add_vlan_tag_all` and `del_vlan_tag_all`: up to the first failure. -/
def vlanTagAll (one : ℕ → DataPath → Ret × DataPath) : List ℕ → DataPath → ℕ × DataPath
  | [], w => (0, w)
  | x :: xs, w =>
    match one x w with
    | (.ng, w') => (0, w')
    | (.ok, w') => ((vlanTagAll one xs w').1 + 1, (vlanTagAll one xs w').2)

/-- `add_vlan_tag_all`. -/
def addVlanTagAll (tci : ℤ) (dir : PortDir) : List ℕ → DataPath → ℕ × DataPath :=
  vlanTagAll (addVlanTagOne tci dir)

/-- `del_vlan_tag_all`. -/
def delVlanTagAll (dir : PortDir) : List ℕ → DataPath → ℕ × DataPath :=
  vlanTagAll (delVlanTagOne dir)

/-- The loop of `vlan_operation`.  Every round has the tag of the first attribute. -/
def vlanOps (tci : ℤ) (dir : PortDir) (pkts : List ℕ) : List PortAttrs → ℕ → DataPath → ℕ × DataPath
  | [], okPkts, w => (okPkts, w)
  | a :: rest, okPkts, w =>
    match a.ops with
    | .none => (okPkts, w)
    | .addVlan =>
      let r := addVlanTagAll tci dir (pkts.take okPkts) w
      vlanOps tci dir pkts rest r.1 r.2
    | .delVlan =>
      let r := delVlanTagAll dir (pkts.take okPkts) w
      vlanOps tci dir pkts rest r.1 r.2

/-- `vlan_operation`. -/
def vlanOperation (pc : PortCapability) (portId : ℕ) (dir : PortDir) (pkts : List ℕ)
    (w : DataPath) : ℕ × DataPath :=
  let attrs := pc.getPortAttrs portId dir
  if (attrs 0).ops = .none then (pkts.length, w)
  else
    let r := vlanOps (attrs 0).vlantag.tci dir pkts ((List.finRange portCapablMax).map attrs)
      pkts.length w
    (r.1, r.2.free (pkts.drop r.1))

/-- `sppwk_eth_vlan_rx_burst`. -/
def sppwkEthVlanRxBurst (pc : PortCapability) (portId : ℕ) (w : DataPath) : List ℕ × DataPath :=
  let (pkts, w) := w.ethRxBurst
  if pkts.length = 0 then ([], w)
  else
    let (n, w) := vlanOperation pc portId .rx pkts w
    (pkts.take n, { w with got := fun x => if x ∈ pkts then w.frame x else w.got x })

/-- `sppwk_eth_vlan_tx_burst`. -/
def sppwkEthVlanTxBurst (pc : PortCapability) (portId : ℕ) (queueId : ℤ) (pkts : List ℕ)
    (w : DataPath) : ℕ × DataPath :=
  let (n, w) := vlanOperation pc portId .tx pkts w
  if n = 0 then (0, w) else w.ethTxBurst portId queueId (pkts.take n)

/-! ## What the VLAN operation touches -/

/-- Between the two states only packets have been edited, and the answers `used` to
calls for room have been read. -/
structure Edits (dir : PortDir) (used : List Bool) (w w' : DataPath) : Prop where
  null : w.answers.null dir = used ++ w'.answers.null dir
  other : ∀ d, d ≠ dir → w'.answers.null d = w.answers.null d
  got : w'.got = w.got
  received : w'.received = w.received
  added : w'.added = w.added
  freed : w'.freed = w.freed
  sent : w'.sent = w.sent
  rxBurst : w'.answers.rxBurst = w.answers.rxBurst

namespace Edits

variable {dir : PortDir} {used used₁ used₂ : List Bool} {w w₁ w₂ : DataPath}

theorem refl (dir : PortDir) (w : DataPath) : Edits dir [] w w :=
  ⟨rfl, fun _ _ => rfl, rfl, rfl, rfl, rfl, rfl, rfl⟩

theorem trans (h₁ : Edits dir used₁ w w₁) (h₂ : Edits dir used₂ w₁ w₂) :
    Edits dir (used₁ ++ used₂) w w₂ where
  null := by rw [h₁.null, h₂.null, List.append_assoc]
  other d hd := (h₂.other d hd).trans (h₁.other d hd)
  got := h₂.got.trans h₁.got
  received := h₂.received.trans h₁.received
  added := h₂.added.trans h₁.added
  freed := h₂.freed.trans h₁.freed
  sent := h₂.sent.trans h₁.sent
  rxBurst := h₂.rxBurst.trans h₁.rxBurst

theorem setFrame (h : Edits dir used w w₁) (x : ℕ) (f : Frame) :
    Edits dir used w (w₁.setFrame x f) :=
  ⟨h.null, h.other, h.got, h.received, h.added, h.freed, h.sent, h.rxBurst⟩

/-- A call for room reads one answer, or finds none and succeeds. -/
theorem resize (dir : PortDir) (w : DataPath) :
    ∃ used, Edits dir used w (w.resize dir).2 ∧ ((w.resize dir).1 = true ↔ true ∈ used) := by
  have hother (d : PortDir) (hd : d ≠ dir) :
      (w.resize dir).2.answers.null d = w.answers.null d := Function.update_of_ne hd _ _
  have hself : (w.resize dir).2.answers.null dir = (w.answers.null dir).tail :=
    Function.update_self _ _ _
  cases hn : w.answers.null dir with
  | nil =>
    rw [hn] at hself
    refine ⟨[], ⟨?_, hother, rfl, rfl, rfl, rfl, rfl, rfl⟩, ?_⟩
    · rw [hself, hn]
      rfl
    · simp [DataPath.resize, hn]
  | cons b bs =>
    rw [hn] at hself
    refine ⟨[b], ⟨?_, hother, rfl, rfl, rfl, rfl, rfl, rfl⟩, ?_⟩
    · rw [hself, hn]
      rfl
    · simp [DataPath.resize, hn, eq_comm]

end Edits

variable {moves : Frame → Bool} {edit : Frame → Frame} {dir : PortDir} {w : DataPath} {okPkts : ℕ}
  {pkts : List ℕ} {f : Frame}

/-- Editing one tag fails exactly if there was no room. -/
theorem editTag_edits (moves : Frame → Bool) (edit : Frame → Frame) (dir : PortDir) (x : ℕ)
    (w : DataPath) :
    ∃ used, Edits dir used w (editTag moves edit dir x w).2 ∧
      ((editTag moves edit dir x w).1 = .ng ↔ true ∈ used) := by
  unfold editTag
  split
  · obtain ⟨used, hedits, hnull⟩ := Edits.resize dir w
    split
    · rename_i h
      exact ⟨used, hedits, by simpa using hnull.mp h⟩
    · rename_i h
      exact ⟨used, hedits.setFrame _ _, by simpa using fun hmem => h (hnull.mpr hmem)⟩
  · exact ⟨[], (Edits.refl dir w).setFrame _ _, by simp⟩

/-- The loop over the packets stops before the end exactly if a call for room
failed. -/
theorem vlanTagAll_edits (one : ℕ → DataPath → Ret × DataPath)
    (hone : ∀ x w, ∃ used, Edits dir used w (one x w).2 ∧ ((one x w).1 = .ng ↔ true ∈ used))
    (pkts : List ℕ) (w : DataPath) :
    (vlanTagAll one pkts w).1 ≤ pkts.length ∧
      ∃ used, Edits dir used w (vlanTagAll one pkts w).2 ∧
        ((vlanTagAll one pkts w).1 = pkts.length ↔ true ∉ used) := by
  induction pkts generalizing w with
  | nil => exact ⟨le_refl _, [], Edits.refl dir w, by simp [vlanTagAll]⟩
  | cons x xs ih =>
    obtain ⟨used, hedits, hng⟩ := hone x w
    rw [vlanTagAll]
    match hx : one x w with
    | (.ng, w') =>
      rw [hx] at hedits hng
      have hmem : true ∈ used := hng.mp rfl
      exact ⟨Nat.zero_le _, used, hedits, by simp [hmem]⟩
    | (.ok, w') =>
      rw [hx] at hedits hng
      have hmem : true ∉ used := fun h => absurd (hng.mpr h) (by simp)
      obtain ⟨hle, used', hedits', hiff⟩ := ih w'
      refine ⟨Nat.succ_le_succ hle, used ++ used', hedits.trans hedits', ?_⟩
      rw [List.length_cons, Nat.add_right_cancel_iff, hiff]
      simp [hmem]

/-- The same for the rounds over the attributes. -/
theorem vlanOps_edits (tci : ℤ) (dir : PortDir) (pkts : List ℕ) (attrs : List PortAttrs)
    (hok : okPkts ≤ pkts.length) (w : DataPath) :
    (vlanOps tci dir pkts attrs okPkts w).1 ≤ okPkts ∧
      ∃ used, Edits dir used w (vlanOps tci dir pkts attrs okPkts w).2 ∧
        ((vlanOps tci dir pkts attrs okPkts w).1 = okPkts ↔ true ∉ used) := by
  induction attrs generalizing okPkts w with
  | nil => exact ⟨le_refl _, [], Edits.refl dir w, by simp [vlanOps]⟩
  | cons a rest ih =>
    -- a round of either kind, with the rounds that follow it
    have hround (one : ℕ → DataPath → Ret × DataPath) (hone : ∀ x w, ∃ used,
        Edits dir used w (one x w).2 ∧ ((one x w).1 = .ng ↔ true ∈ used)) :
        let r := vlanTagAll one (pkts.take okPkts) w
        (vlanOps tci dir pkts rest r.1 r.2).1 ≤ okPkts ∧
          ∃ used, Edits dir used w (vlanOps tci dir pkts rest r.1 r.2).2 ∧
            ((vlanOps tci dir pkts rest r.1 r.2).1 = okPkts ↔ true ∉ used) := by
      intro r
      obtain ⟨hle, used, hedits, hiff⟩ := vlanTagAll_edits one hone (pkts.take okPkts) w
      rw [List.length_take, Nat.min_eq_left hok] at hle hiff
      obtain ⟨hle', used', hedits', hiff'⟩ := ih (hle.trans hok) r.2
      refine ⟨hle'.trans hle, used ++ used', hedits.trans hedits', ?_⟩
      rw [List.mem_append, not_or, ← hiff, ← hiff']
      constructor
      · intro h
        have : r.1 = okPkts := le_antisymm hle (h ▸ hle')
        exact ⟨this, h.trans this.symm⟩
      · rintro ⟨h₁, h₂⟩
        exact h₂.trans h₁
    rw [vlanOps]
    cases a.ops with
    | none => exact ⟨le_refl _, [], Edits.refl dir w, by simp⟩
    | addVlan | delVlan => exact hround _ (editTag_edits _ _ dir)

/-- **What `vlan_operation` does with references.**  It frees the packets behind the
first ones that it returns, and returns all of them exactly if every call for room
was answered. -/
theorem vlanOperation_edits (pc : PortCapability) (portId : ℕ) (dir : PortDir) (pkts : List ℕ)
    (w : DataPath) :
    ∃ n w₁ used, vlanOperation pc portId dir pkts w = (n, w₁.free (pkts.drop n)) ∧
      n ≤ pkts.length ∧ Edits dir used w w₁ ∧ (n = pkts.length ↔ true ∉ used) := by
  unfold vlanOperation
  simp only
  split
  · refine ⟨pkts.length, w, [], ?_, le_refl _, Edits.refl dir w, by simp⟩
    simp [DataPath.free]
  obtain ⟨hle, used, hedits, hiff⟩ :=
    vlanOps_edits ((pc.getPortAttrs portId dir) 0).vlantag.tci dir pkts
      ((List.finRange portCapablMax).map (pc.getPortAttrs portId dir)) (le_refl _) w
  exact ⟨_, _, used, rfl, hle, hedits, hiff⟩

/-- **What `sppwk_eth_vlan_tx_burst` does with references.**  The packets that cannot be
edited are freed, and of the others the first ones are handed over.  The result
counts the latter. -/
theorem sppwkEthVlanTxBurst_edits (pc : PortCapability) (portId : ℕ) (queueId : ℤ)
    (pkts : List ℕ) (w : DataPath) :
    ∃ n m w₁ used txBurst,
      sppwkEthVlanTxBurst pc portId queueId pkts w = (m, { w₁.free (pkts.drop n) with
        sent := w₁.sent ++ (pkts.take m).map fun x => ⟨portId, queueId, x, w₁.frame x, w₁.got x⟩
        answers.txBurst := txBurst }) ∧
      m ≤ n ∧ n ≤ pkts.length ∧ Edits .tx used w w₁ ∧ (n = pkts.length ↔ true ∉ used) := by
  obtain ⟨n, w₁, used, hop, hn, hedits, hiff⟩ := vlanOperation_edits pc portId .tx pkts w
  unfold sppwkEthVlanTxBurst
  simp only [hop]
  split
  · rename_i hzero
    refine ⟨n, 0, w₁, used, w₁.answers.txBurst, ?_, Nat.zero_le _, hn, hedits, hiff⟩
    simp [DataPath.free]
  refine ⟨n, min (w₁.answers.txBurst.headD 0) n, w₁, used, w₁.answers.txBurst.tail, ?_,
    Nat.min_le_right _ _, hn, hedits, hiff⟩
  simp only [DataPath.ethTxBurst, DataPath.free, List.length_take, Nat.min_eq_left hn,
    List.take_take]
  rw [Nat.min_assoc, Nat.min_self]

/-! ## What the VLAN operation does to the packets -/

/-- The attributes of a port, one after the other, on one packet. -/
def editOps (tci : ℤ) : List PortAttrs → Frame → Frame
  | [], f => f
  | a :: rest, f =>
    match a.ops with
    | .none => f
    | .addVlan => editOps tci rest (f.addTag tci)
    | .delVlan => editOps tci rest f.delTag

/-- What the VLAN operation of a port makes of a packet. -/
def vlanEdit (pc : PortCapability) (portId : ℕ) (dir : PortDir) : Frame → Frame :=
  editOps ((pc.getPortAttrs portId dir) 0).vlantag.tci
    ((List.finRange portCapablMax).map (pc.getPortAttrs portId dir))

theorem frame_editTag (moves : Frame → Bool) (edit : Frame → Frame) (dir : PortDir) (x : ℕ)
    (w : DataPath) :
    (editTag moves edit dir x w).2.frame =
      if (editTag moves edit dir x w).1 = .ok then Function.update w.frame x (edit (w.frame x))
      else w.frame := by
  unfold editTag
  split
  · split
    · rw [if_neg (by simp)]
      rfl
    · rw [if_pos rfl]
      rfl
  · rw [if_pos rfl]
    rfl

/-- The loop over the packets edits those that it counts, and no other. -/
theorem frame_vlanTagAll (moves : Frame → Bool) (edit : Frame → Frame) (dir : PortDir)
    (hnodup : pkts.Nodup) (w : DataPath) (x : ℕ) :
    (vlanTagAll (editTag moves edit dir) pkts w).2.frame x =
      if x ∈ pkts.take (vlanTagAll (editTag moves edit dir) pkts w).1 then edit (w.frame x)
      else w.frame x := by
  induction pkts generalizing w with
  | nil => simp [vlanTagAll]
  | cons y ys ih =>
    have hone := frame_editTag moves edit dir y w
    obtain ⟨hy, hys⟩ := List.nodup_cons.mp hnodup
    rw [vlanTagAll]
    match hres : editTag moves edit dir y w with
    | (.ng, w') =>
      rw [hres, if_neg (by simp)] at hone
      simp [← hone]
    | (.ok, w') =>
      rw [hres, if_pos rfl] at hone
      dsimp only at hone ⊢
      rw [ih hys, List.take_succ_cons, hone]
      rcases eq_or_ne x y with rfl | hxy
      · rw [if_neg fun h => hy (List.mem_of_mem_take h), Function.update_self,
          if_pos List.mem_cons_self]
      · rw [Function.update_of_ne hxy]
        simp only [List.mem_cons, hxy, false_or]

/-- Over several attributes, the packets that are left have got them all, and packets
outside the burst are not touched. -/
theorem frame_vlanOps (tci : ℤ) (dir : PortDir) (hnodup : pkts.Nodup)
    (attrs : List PortAttrs) (hok : okPkts ≤ pkts.length) (w : DataPath) (x : ℕ) :
    (x ∈ pkts.take (vlanOps tci dir pkts attrs okPkts w).1 →
        (vlanOps tci dir pkts attrs okPkts w).2.frame x = editOps tci attrs (w.frame x)) ∧
      (x ∉ pkts → (vlanOps tci dir pkts attrs okPkts w).2.frame x = w.frame x) := by
  induction attrs generalizing okPkts w with
  | nil => exact ⟨fun _ => rfl, fun _ => rfl⟩
  | cons a rest ih =>
    have hround (moves : Frame → Bool) (edit : Frame → Frame) :
        let r := vlanTagAll (editTag moves edit dir) (pkts.take okPkts) w
        (x ∈ pkts.take (vlanOps tci dir pkts rest r.1 r.2).1 →
            (vlanOps tci dir pkts rest r.1 r.2).2.frame x =
              editOps tci rest (edit (w.frame x))) ∧
          (x ∉ pkts → (vlanOps tci dir pkts rest r.1 r.2).2.frame x = w.frame x) := by
      intro r
      have hframe := frame_vlanTagAll moves edit dir (hnodup.sublist (List.take_sublist okPkts pkts))
        w x
      have hle := (vlanTagAll_edits _ (editTag_edits moves edit dir) (pkts.take okPkts) w).1
      have hlen : r.1 ≤ pkts.length := hle.trans (List.length_take_le' okPkts pkts)
      obtain ⟨hin, hout⟩ := ih hlen r.2
      have hrest := (vlanOps_edits tci dir pkts rest hlen r.2).1
      rw [List.length_take, Nat.min_eq_left hok] at hle
      rw [List.take_take, Nat.min_eq_left hle] at hframe
      refine ⟨fun h => ?_, fun h => ?_⟩
      · rw [hin h, hframe, if_pos (List.take_subset_take_left pkts hrest h)]
      · rw [hout h, hframe, if_neg fun hx => h (List.mem_of_mem_take hx)]
    rw [vlanOps, editOps]
    cases a.ops with
    | none => exact ⟨fun _ => rfl, fun _ => rfl⟩
    | addVlan | delVlan => exact hround _ _

/-- **What `vlan_operation` does to the packets** of a burst and outside it. -/
theorem frame_vlanOperation (pc : PortCapability) (portId : ℕ) (dir : PortDir)
    (hnodup : pkts.Nodup) (w : DataPath) (x : ℕ) :
    (x ∈ pkts.take (vlanOperation pc portId dir pkts w).1 →
        (vlanOperation pc portId dir pkts w).2.frame x = vlanEdit pc portId dir (w.frame x)) ∧
      (x ∉ pkts → (vlanOperation pc portId dir pkts w).2.frame x = w.frame x) := by
  unfold vlanOperation vlanEdit
  simp only
  split
  · rename_i hnone
    refine ⟨fun _ => ?_, fun _ => rfl⟩
    rw [List.finRange_succ, List.map_cons, editOps, hnone]
  · exact frame_vlanOps _ dir hnodup _ (le_refl _) w x

/-! ## One operation per port -/

/-- The VLAN operation assigned to a port. -/
inductive VlanOp where
  | none
  | add (tci : ℤ)
  | del
  deriving DecidableEq

/-- The operation on a packet. -/
def VlanOp.apply : VlanOp → Frame → Frame
  | none, f => f
  | add tci, f => f.addTag tci
  | del, f => f.delTag

/-- Operations that set the tag or take it away absorb each other. -/
theorem VlanOp.apply_apply {o p : VlanOp} (ho : o ≠ .none) (hp : p ≠ .none)
    (hdel : o = .del → f.NotStacked) : p.apply (o.apply f) = p.apply f := by
  cases o with
  | none => exact absurd rfl ho
  | add u =>
    cases p with
    | none => exact absurd rfl hp
    | add t => exact f.addTag_addTag t u
    | del => exact f.delTag_addTag u
  | del =>
    cases p with
    | none => exact absurd rfl hp
    | add t => exact Frame.addTag_delTag t (hdel rfl)
    | del => exact Frame.delTag_delTag (hdel rfl)

theorem VlanOp.notStacked_apply (o : VlanOp) (h : f.NotStacked) : (o.apply f).NotStacked := by
  cases o with
  | none => exact h
  | add t => exact h.addTag t
  | del => exact h.delTag

/-- The operation that the first attribute of a tx port stands for. -/
def PortCapability.txOp (pc : PortCapability) (portId : ℕ) : VlanOp :=
  match ((pc.getPortAttrs portId .tx) 0).ops with
  | .none => .none
  | .addVlan => .add ((pc.getPortAttrs portId .tx) 0).vlantag.tci
  | .delVlan => .del

/-- No tx port has a second attribute. -/
def PortCapability.SingleTx (pc : PortCapability) : Prop :=
  ∀ portId, ((pc.getPortAttrs portId .tx) 1).ops = .none

/-- With one operation per port a burst is edited up to the first failure, and nothing
else is. -/
theorem frame_vlanOperation_tx {pc : PortCapability} (hsingle : pc.SingleTx) (portId : ℕ)
    (hnodup : pkts.Nodup) (w : DataPath) (x : ℕ) :
    (vlanOperation pc portId .tx pkts w).2.frame x =
      if x ∈ pkts.take (vlanOperation pc portId .tx pkts w).1 then
        (pc.txOp portId).apply (w.frame x)
      else w.frame x := by
  have hsecond := hsingle portId
  have hlist : (List.finRange portCapablMax).map (pc.getPortAttrs portId .tx) =
      [pc.getPortAttrs portId .tx 0, pc.getPortAttrs portId .tx 1,
        pc.getPortAttrs portId .tx 2, pc.getPortAttrs portId .tx 3] := rfl
  unfold vlanOperation PortCapability.txOp
  simp only [hlist]
  cases hops : (pc.getPortAttrs portId .tx 0).ops with
  | none => simp [VlanOp.apply]
  | addVlan | delVlan =>
    simp only [reduceCtorEq, if_false, vlanOps, hops, hsecond, List.take_length]
    exact frame_vlanTagAll _ _ .tx hnodup w x

end SoftPatchPanel.Worker
