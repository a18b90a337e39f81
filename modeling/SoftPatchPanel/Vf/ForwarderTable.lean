import SoftPatchPanel.Worker.PortCapability

/-!
# `forwarder.c` and `spp_mirror.c`: the tables of the simple components

A forwarder or merger of `spp_vf` and a mirror of `spp_mirror` have a table of two
sides as well, with copies of the component's ports.  The command thread clears
and fills the side `upd_index`, asks for the swap and waits for it; unlike the
classifier it leaves the old side as it is, to be cleared when it is next used.
-/

namespace SoftPatchPanel.Vf

open Worker

/-- `struct forward_rxtx` and `struct mirror_rxtx`. -/
structure Rxtx where
  rx : PortInfo
  tx : PortInfo

/-- `struct forward_path` and `struct mirror_path`. -/
structure Path where
  name : CString
  wkType : WorkerType
  nofRx : ℕ
  nofTx : ℕ
  ports : ℕ → Rxtx

/-- `struct forward_info` and `struct mirror_info`. -/
structure PathInfo where
  refIndex : Side
  updIndex : Side
  path : Side → Path

/-- A port of zeroed memory. -/
def zeroPort : PortInfo := ⟨.phy, 0, 0, 0, ⟨0#64, [], ⟨0, 0, 0⟩⟩, fun _ => .zero⟩

/-- A path of zeroed memory. -/
def Path.zero : Path := ⟨[], .none, 0, 0, fun _ => ⟨zeroPort, zeroPort⟩⟩

/-- What `init_forwarder` and `mirror_proc_init` leave. -/
def PathInfo.init : PathInfo := ⟨0, 1, fun _ => .zero⟩

/-- The path the worker reads. -/
def PathInfo.ref (g : PathInfo) : Path := g.path g.refIndex

/-- Publish a path and complete the exchange with the worker
(`change_forward_index`, `change_mirror_index`). -/
def PathInfo.publish (g : PathInfo) (path : Path) : PathInfo where
  path := Function.update g.path g.updIndex path
  updIndex := g.refIndex
  refIndex := g.refIndex + 1

/-- The path `update_forwarder` builds: the single tx port is copied as often as
there are rx ports. -/
def forwardPath (name : CString) (wkType : WorkerType) (rx tx : List PortInfo) : Path where
  name := name
  wkType := wkType
  nofRx := rx.length
  nofTx := tx.length
  ports := fun cnt =>
    let max := if rx.length > tx.length then rx.length * tx.length else tx.length
    { rx := rx.getD cnt zeroPort
      tx := if cnt < max then tx.getD 0 zeroPort else zeroPort }

/-- `update_forwarder`. -/
def updateForwarder (name : CString) (wkType : WorkerType) (rx tx : List PortInfo)
    (g : PathInfo) : Ret × PathInfo :=
  if wkType = .fwd ∧ rx.length > 1 then (.ng, g)
  else if tx.length ≠ 0 ∧ tx.length ≠ 1 then (.ng, g)
  else (.ok, g.publish (forwardPath name wkType rx tx))

/-- The path `update_mirror` builds. -/
def mirrorPath (name : CString) (wkType : WorkerType) (rx tx : List PortInfo) : Path where
  name := name
  wkType := wkType
  nofRx := rx.length
  nofTx := tx.length
  ports := fun cnt => { rx := rx.getD cnt zeroPort, tx := tx.getD cnt zeroPort }

/-- `update_mirror`. -/
def updateMirror (name : CString) (wkType : WorkerType) (rx tx : List PortInfo)
    (g : PathInfo) : Ret × PathInfo :=
  if rx.length > 1 then (.ng, g)
  else if tx.length > 2 then (.ng, g)
  else (.ok, g.publish (mirrorPath name wkType rx tx))

end SoftPatchPanel.Vf
