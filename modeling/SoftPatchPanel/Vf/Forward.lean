import SoftPatchPanel.Vf.Classify
import SoftPatchPanel.Vf.ForwarderTable

/-!
# `forwarder.c`: an iteration of a forwarder or merger

A forwarder moves what it receives on its rx port to its tx port; a merger does so
for several rx ports and one tx port.  Nothing is buffered: a packet that the driver
does not take at once is freed.  With the classifier this gives the workers of
`spp_vf`, `VfWorker`, and what one turn of a worker's loop does, `VfWorker.iterate`.
-/

namespace SoftPatchPanel.Vf

open Worker

/-- What the worker of a forwarder or merger reads and writes. -/
structure FwdWorker where
  pc : PortCapability
  info : PathInfo
  data : DataPath

/-- `change_forward_index`. -/
def changeForwardIndex (s : FwdWorker) : FwdWorker :=
  if s.info.refIndex = s.info.updIndex then
    { s with pc := s.pc.swapRef, info.refIndex := s.info.updIndex + 1 }
  else s

/-- The "practice condition check" of `forward_packets`. -/
def Path.ready (path : Path) : Bool :=
  if path.wkType = .mrg then path.nofTx = 1 ∧ path.nofRx ≥ 1
  else path.nofTx = 1 ∧ path.nofRx = 1

/-- An ethdev id passed as `uint16_t`. -/
def portId16 (port : PortInfo) : ℕ := (port.ethdevPortId % 2 ^ 16).toNat

/-- One round of the loop of `forward_packets`.  The variable `nb_tx` keeps its value
from one round to the next. -/
def forwardPort (pc : PortCapability) (s : ℕ × DataPath) (ports : Rxtx) : ℕ × DataPath :=
  let rx := sppwkEthVlanRxBurst pc (portId16 ports.rx) s.2
  if rx.1.length = 0 then (s.1, rx.2)
  else
    let tx :=
      if 0 ≤ ports.tx.ethdevPortId then
        sppwkEthVlanTxBurst pc (portId16 ports.tx) ports.tx.queueNo rx.1 rx.2
      else (s.1, rx.2)
    (tx.1, tx.2.free (rx.1.drop tx.1))

/-- `forward_packets`. -/
def forwardPackets (s : FwdWorker) : FwdWorker :=
  let s := changeForwardIndex s
  let path := s.info.ref
  if path.ready then
    { s with data :=
      (((List.range path.nofRx).map path.ports).foldl (forwardPort s.pc) (0, s.data)).2 }
  else s

/-! ## The workers of `spp_vf` -/

/-- A worker of `spp_vf`. -/
inductive VfWorker where
  | cls (s : ClsWorker)
  | fwd (s : FwdWorker)

namespace VfWorker

/-- One iteration of the worker. -/
def iterate (drain : Bool) : VfWorker → VfWorker
  | cls s => cls (classifyPackets drain s)
  | fwd s => fwd (forwardPackets s)

/-- The packets of a worker. -/
def data : VfWorker → DataPath
  | cls s => s.data
  | fwd s => s.data

end VfWorker

/-! ## The tx ports of a path -/

/-- All rx ports that are served have the same tx port. -/
def Path.OneTx (path : Path) : Prop :=
  path.ready = true → ∃ tx, ∀ cnt, cnt < path.nofRx → (path.ports cnt).tx = tx

/-- What `update_forwarder` builds has one tx port. -/
theorem oneTx_forwardPath (name : CString) (wkType : WorkerType) (rx tx : List PortInfo) :
    (forwardPath name wkType rx tx).OneTx := by
  intro hready
  have htx : tx.length = 1 := by
    unfold Path.ready at hready
    split at hready <;> exact (of_decide_eq_true hready).1
  refine ⟨tx.getD 0 zeroPort, fun cnt hcnt => ?_⟩
  have hcnt : cnt < rx.length := hcnt
  have hmax : cnt < if rx.length > tx.length then rx.length * tx.length else tx.length := by
    rw [htx]
    split <;> omega
  show (if _ then _ else _) = _
  rw [if_pos hmax]

theorem oneTx_zero : Path.zero.OneTx := by
  intro hready
  exact absurd hready (by decide)

theorem oneTx_updateForwarder {g : PathInfo} (h : ∀ side, (g.path side).OneTx) (name : CString)
    (wkType : WorkerType) (rx tx : List PortInfo) (side : Side) :
    ((updateForwarder name wkType rx tx g).2.path side).OneTx := by
  unfold updateForwarder
  split
  · exact h side
  split
  · exact h side
  show (Function.update g.path g.updIndex _ side).OneTx
  rcases eq_or_ne side g.updIndex with rfl | hne
  · rw [Function.update_self]
    exact oneTx_forwardPath name wkType rx tx
  · rw [Function.update_of_ne hne]
    exact h side

end SoftPatchPanel.Vf
