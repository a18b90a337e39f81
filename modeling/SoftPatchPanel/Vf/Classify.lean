import SoftPatchPanel.Vf.ClassifierTable
import SoftPatchPanel.Worker.VlanBurst

/-!
# `classifier.c`: an iteration of the classifier's worker

The worker of a classifier reads a burst of packets from the rx port of its side of
the tables, looks each of them up by VLAN id and destination, and puts it into the
buffers of one or more tx ports.  A buffer goes out when it is full, when the worker
drains, and when the sides are exchanged.  A multicast packet is not copied: the same
mbuf is queued for every port, with its reference count raised.
-/

namespace SoftPatchPanel.Vf

open Worker

/-! ## Transmission -/

/-- Store the data of a tx port. -/
def ClsCompInfo.setTxPort (cmp : ClsCompInfo) (i : ℕ) (port : ClsPortInfo) : ClsCompInfo :=
  { cmp with txPortsI := Function.update cmp.txPortsI i port }

/-- `transmit_packets`. -/
def transmitPackets (pc : PortCapability) (port : ClsPortInfo) (w : DataPath) :
    ClsPortInfo × DataPath :=
  let r := sppwkEthVlanTxBurst pc port.ethdevPortId port.queueNo port.pkts w
  ({ port with pkts := [] }, r.2.free (port.pkts.drop r.1))

/-- A side with the packets. -/
abbrev ClsSide := ClsCompInfo × DataPath

/-- `transmit_packets` on a port of a side. -/
def transmitPort (pc : PortCapability) (i : ℕ) (s : ClsSide) : ClsSide :=
  let r := transmitPackets pc (s.1.txPortsI i) s.2
  (s.1.setTxPort i r.1, r.2)

/-- `transmit_all_packet`, and the drain loop of `classify_packets`. -/
def transmitAllPacket (pc : PortCapability) (s : ClsSide) : ClsSide :=
  (List.range s.1.nofTxPorts).foldl
    (fun s i => if (s.1.txPortsI i).pkts.length ≠ 0 then transmitPort pc i s else s) s

/-- `push_packet`. -/
def pushPacket (pc : PortCapability) (x : ℕ) (s : ClsSide) (i : ℕ) : ClsSide :=
  let port := { s.1.txPortsI i with pkts := (s.1.txPortsI i).pkts ++ [x] }
  let s := (s.1.setTxPort i port, s.2)
  if port.pkts.length = maxPktBurst then transmitPort pc i s else s

/-! ## Classification -/

/-- `get_vid`. -/
def getVid (f : Frame) : ℕ :=
  if f.tagged then (f.payload.getD 0 0 ++ f.payload.getD 1 0 : BitVec 16).toNat % 4096
  else vlanUntaggedVid

/-- `get_general_default_classified_index`, with `none` for -1. -/
def getGeneralDefaultClassifiedIndex (cmp : ClsCompInfo) : Option ℕ :=
  match cmp.macClfs vlanUntaggedVid with
  | none => none
  | some mac => mac.defaultClsIdx

/-- The end of `handle_l2multicast_packet`, and of a VLAN id that is not registered:
the general default gets the packet. -/
def pushGeneralDefault (pc : PortCapability) (x : ℕ) (s : ClsSide) : ClsSide :=
  match getGeneralDefaultClassifiedIndex s.1 with
  | none => (s.1, s.2.free [x])
  | some i => pushPacket pc x s i

/-- `handle_l2multicast_packet`. -/
def handleL2multicastPacket (pc : PortCapability) (x : ℕ) (s : ClsSide) : ClsSide :=
  let vid := getVid (s.2.frame x)
  let general :=
    if vid ≠ vlanUntaggedVid then (getGeneralDefaultClassifiedIndex s.1).toList else []
  match s.1.macClfs vid with
  | none => pushGeneralDefault pc x s
  | some mac =>
    if mac.clsPorts.length = 0 then pushGeneralDefault pc x s
    else
      let nActClsd : ℤ := mac.clsPorts.length + general.length
      -- the argument is cast to `int16_t`
      let s := (s.1, s.2.refcntUpdate x ((nActClsd - 1).bmod (2 ^ 16)))
      general.foldl (pushPacket pc x) (mac.clsPorts.foldl (pushPacket pc x) s)

/-- The ports behind those of the VLAN id are one at most. -/
theorem length_ite_toList_le (p : Prop) [Decidable p] (o : Option ℕ) :
    (if p then o.toList else []).length ≤ 1 := by
  split
  · cases o <;> simp
  · simp

/-- The cast of a reference count to 16 bits changes nothing: there are not that many
ports. -/
theorem bmod_nActClsd {n k : ℕ} (hpos : 0 < n) (hn : n < 2 ^ 15) (hk : k ≤ 1) :
    ((n : ℤ) + k - 1).bmod (2 ^ 16) = (n : ℤ) + k - 1 :=
  Int.bmod_eq_of_le (by omega) (by omega)

/-- The result of `select_classified_index`: an index, -1, or -2. -/
inductive Classified where
  | index (i : ℕ)
  | none
  | multicast
  deriving DecidableEq

/-- An index or -1. -/
def Classified.ofIdx : Option ℕ → Classified
  | .some i => .index i
  | .none => .none

/-- `select_classified_index`. -/
def selectClassifiedIndex (f : Frame) (cmp : ClsCompInfo) : Classified :=
  let vid := getVid f
  match cmp.macClfs vid with
  | none => .ofIdx (getGeneralDefaultClassifiedIndex cmp)
  | some mac =>
    match mac.clsTbl.lookup f.dAddr with
    | some i => .index i
    | none =>
      if f.multicast then .multicast
      else if mac.defaultClsIdx.isNone ∧ vid ≠ vlanUntaggedVid then
        .ofIdx (getGeneralDefaultClassifiedIndex cmp)
      else .ofIdx mac.defaultClsIdx

/-- One round of `_classify_packets`. -/
def classifyPacket (pc : PortCapability) (s : ClsSide) (x : ℕ) : ClsSide :=
  match selectClassifiedIndex (s.2.frame x) s.1 with
  | .index i => pushPacket pc x s i
  | .none => (s.1, s.2.free [x])
  | .multicast => handleL2multicastPacket pc x s

/-- `_classify_packets`. -/
def classifyRxPackets (pc : PortCapability) (rxPkts : List ℕ) (s : ClsSide) : ClsSide :=
  rxPkts.foldl (classifyPacket pc) s

/-! ## The iteration -/

/-- What the worker of a classifier reads and writes. -/
structure ClsWorker where
  pc : PortCapability
  mng : ClsMngInfo
  data : DataPath

/-- The side the worker reads, with the packets. -/
def ClsWorker.ref (s : ClsWorker) : ClsSide := (s.mng.ref, s.data)

/-- Store the side the worker reads. -/
def ClsWorker.setRef (s : ClsWorker) (t : ClsSide) : ClsWorker :=
  { s with mng := s.mng.setSide s.mng.refIndex t.1, data := t.2 }

theorem ClsWorker.ref_setRef (s : ClsWorker) (t : ClsSide) : (s.setRef t).ref = t := by
  have hside : (s.setRef t).mng.compList s.mng.refIndex = t.1 := Function.update_self _ _ _
  exact Prod.ext hside rfl

/-- `change_classifier_index`. -/
def changeClassifierIndex (s : ClsWorker) : ClsWorker :=
  if s.mng.refIndex = s.mng.updIndex then
    let s := { s with pc := s.pc.swapRef }
    let s := s.setRef (transmitAllPacket s.pc s.ref)
    { s with mng.refIndex := s.mng.updIndex + 1 }
  else s

/-- The test of `classify_packets` for a side that can be worked on. -/
def ClsCompInfo.ready (cmp : ClsCompInfo) : Bool :=
  cmp.rxPortI.ifaceType ≠ .undef ∧ cmp.nofTxPorts ≥ 1 ∧ cmp.macAddrEntry

/-- The part of `classify_packets` that receives and classifies. -/
def receivePackets (pc : PortCapability) (s : ClsSide) : ClsSide :=
  let r := sppwkEthVlanRxBurst pc s.1.rxPortI.ethdevPortId s.2
  classifyRxPackets pc r.1 (s.1, r.2)

/-- `classify_packets`; `drain` says that the clock has advanced enough for the
buffers to be drained. -/
def classifyPackets (drain : Bool) (s : ClsWorker) : ClsWorker :=
  let s := changeClassifierIndex s
  if s.ref.1.ready then
    let t := if drain then transmitAllPacket s.pc s.ref else s.ref
    s.setRef (receivePackets s.pc t)
  else s

/-! ## What the packets leave alone

A side is changed by the packets that go through it only in the buffers of its tx
ports. -/

/-- The side without the packets in its buffers. -/
def ClsCompInfo.emptied (cmp : ClsCompInfo) : ClsCompInfo :=
  { cmp with txPortsI := fun i => { cmp.txPortsI i with pkts := [] } }

variable {cmp cmp' : ClsCompInfo}

theorem ClsCompInfo.macClfs_of_emptied_eq
    (h : cmp'.emptied = cmp.emptied) : cmp'.macClfs = cmp.macClfs := by
  have hfield : cmp'.emptied.macClfs = cmp.emptied.macClfs := by rw [h]
  exact hfield

theorem ClsCompInfo.nofTxPorts_of_emptied_eq
    (h : cmp'.emptied = cmp.emptied) : cmp'.nofTxPorts = cmp.nofTxPorts := by
  have hfield : cmp'.emptied.nofTxPorts = cmp.emptied.nofTxPorts := by rw [h]
  exact hfield

theorem ClsCompInfo.rxPortI_of_emptied_eq
    (h : cmp'.emptied = cmp.emptied) : cmp'.rxPortI = cmp.rxPortI := by
  have hfield : cmp'.emptied.rxPortI = cmp.emptied.rxPortI := by rw [h]
  exact hfield

theorem ClsCompInfo.emptied_setTxPort (cmp : ClsCompInfo) (i : ℕ) (pkts : List ℕ) :
    (cmp.setTxPort i { cmp.txPortsI i with pkts := pkts }).emptied = cmp.emptied := by
  unfold emptied setTxPort
  congr 1
  funext j
  rcases eq_or_ne j i with rfl | hj
  · simp only [Function.update_self]
  · simp only [Function.update_of_ne hj]

section

variable (pc : PortCapability)

theorem emptied_transmitPort (i : ℕ) (s : ClsSide) :
    (transmitPort pc i s).1.emptied = s.1.emptied :=
  s.1.emptied_setTxPort i []

theorem emptied_pushPacket (x : ℕ) (s : ClsSide) (i : ℕ) :
    (pushPacket pc x s i).1.emptied = s.1.emptied := by
  unfold pushPacket
  simp only
  split
  · rw [emptied_transmitPort]
    exact s.1.emptied_setTxPort i _
  · exact s.1.emptied_setTxPort i _

theorem emptied_foldl_pushPacket (x : ℕ) (ports : List ℕ) (s : ClsSide) :
    (ports.foldl (pushPacket pc x) s).1.emptied = s.1.emptied := by
  induction ports generalizing s with
  | nil => rfl
  | cons i ports ih => exact (ih _).trans (emptied_pushPacket pc x s i)

theorem emptied_transmitAllPacket (s : ClsSide) :
    (transmitAllPacket pc s).1.emptied = s.1.emptied := by
  unfold transmitAllPacket
  generalize List.range s.1.nofTxPorts = is
  induction is generalizing s with
  | nil => rfl
  | cons i is ih =>
    rw [List.foldl_cons, ih]
    split
    · exact emptied_transmitPort pc i s
    · rfl

theorem emptied_handleL2multicastPacket (x : ℕ) (s : ClsSide) :
    (handleL2multicastPacket pc x s).1.emptied = s.1.emptied := by
  have hdefault : (pushGeneralDefault pc x s).1.emptied = s.1.emptied := by
    unfold pushGeneralDefault
    split
    · rfl
    · exact emptied_pushPacket pc x s _
  unfold handleL2multicastPacket
  simp only
  split
  · exact hdefault
  · split
    · exact hdefault
    · rw [emptied_foldl_pushPacket, emptied_foldl_pushPacket]

theorem emptied_classifyPacket (s : ClsSide) (x : ℕ) :
    (classifyPacket pc s x).1.emptied = s.1.emptied := by
  unfold classifyPacket
  split
  · exact emptied_pushPacket pc x s _
  · rfl
  · exact emptied_handleL2multicastPacket pc x s

theorem emptied_classifyRxPackets (rxPkts : List ℕ) (s : ClsSide) :
    (classifyRxPackets pc rxPkts s).1.emptied = s.1.emptied := by
  unfold classifyRxPackets
  induction rxPkts generalizing s with
  | nil => rfl
  | cons x rest ih => exact (ih _).trans (emptied_classifyPacket pc s x)

theorem emptied_receivePackets (s : ClsSide) : (receivePackets pc s).1.emptied = s.1.emptied :=
  emptied_classifyRxPackets pc _ _

end

end SoftPatchPanel.Vf
