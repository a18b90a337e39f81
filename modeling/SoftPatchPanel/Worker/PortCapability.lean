import Mathlib.Logic.Function.Iterate
import SoftPatchPanel.Worker.DataTypes

/-!
# `port_capability.c`: the two sides of the port attributes

Which VLAN operation a burst gets is decided by a table per ethdev and direction
that has two sides.  The workers read the side `ref_index`.  The command thread
writes the side `upd_index` (`update_port_attrs`) and then points `upd_index` at
the side in use, which asks for a swap; the worker of the component swaps with
`sppwk_swap_two_sides(SPPWK_SWAP_REF)`, which moves `ref_index` away from
`upd_index` for every ethdev on two pending lists.

The lists are static arrays of `RTE_MAX_ETHPORTS` entries with static counters.
A swap overwrites the entries with 0 and leaves the counters alone.  Here they are
Lean lists, the counter being the length, so that growth past the array is there
to be seen.

The tables are meant to be safe and exact: no write goes to a side being read, the
lists stay inside their arrays, and after the swap what has been written is what
is read.  `flush_sound_iff` says when that is so: the rx ports of the component
must be on different ethdevs, likewise its tx ports, and the counters must have
room.  Neither is ensured by the program.
-/

namespace SoftPatchPanel.Worker

/-! ## The tables -/

/-- `struct port_capabl_mng_info`. -/
structure PortCapablMngInfo where
  refIndex : Side
  updIndex : Side
  portAttrs : Side → Fin portCapablMax → PortAttrs

/-- The worker's half of a swap. -/
def PortCapablMngInfo.swap (c : PortCapablMngInfo) : PortCapablMngInfo :=
  { c with refIndex := c.updIndex + 1 }

/-- `struct port_mng_info`. -/
structure PortMngInfo where
  ifaceType : PortType
  ifaceNo : ℤ
  rx : PortCapablMngInfo
  tx : PortCapablMngInfo

/-- The part of a direction. -/
def PortMngInfo.mng (p : PortMngInfo) (dir : PortDir) : PortCapablMngInfo :=
  match dir with
  | .rx => p.rx
  | _ => p.tx

/-- Replace the part of a direction. -/
def PortMngInfo.setMng (p : PortMngInfo) (dir : PortDir) (c : PortCapablMngInfo) : PortMngInfo :=
  match dir with
  | .rx => { p with rx := c }
  | _ => { p with tx := c }

/-- `g_port_mng_info` and the static variables of `sppwk_swap_two_sides`. -/
structure PortCapability where
  info : ℕ → PortMngInfo
  /-- `rx_list[0..num_rx)`. -/
  rxList : List ℕ
  /-- `tx_list[0..num_tx)`. -/
  txList : List ℕ

namespace PortCapability

/-- The management data of an ethdev in a direction. -/
def mng (pc : PortCapability) (portId : ℕ) (dir : PortDir) : PortCapablMngInfo :=
  (pc.info portId).mng dir

/-- The pending list of a direction. -/
def pending (pc : PortCapability) (dir : PortDir) : List ℕ :=
  match dir with
  | .rx => pc.rxList
  | _ => pc.txList

/-- `sppwk_port_capability_init`. -/
def init : PortCapability where
  info := fun _ =>
    { ifaceType := .phy
      ifaceNo := 0
      rx := ⟨0, 1, fun _ _ => .zero⟩
      tx := ⟨0, 1, fun _ _ => .zero⟩ }
  rxList := []
  txList := []

/-- `sppwk_get_port_attrs`. -/
def getPortAttrs (pc : PortCapability) (portId : ℕ) (dir : PortDir) :
    Fin portCapablMax → PortAttrs :=
  (pc.mng portId dir).portAttrs (pc.mng portId dir).refIndex

/-- `sppwk_swap_two_sides(SPPWK_SWAP_UPD)`, while there is a place in the list: see
`sppwkUpdatePortDir` for its end. -/
def swapUpd (pc : PortCapability) (portId : ℕ) (dir : PortDir) : PortCapability :=
  let c := pc.mng portId dir
  let info := Function.update pc.info portId
    ((pc.info portId).setMng dir { c with updIndex := c.refIndex })
  match dir with
  | .rx => { pc with info := info, rxList := pc.rxList ++ [portId] }
  | _ => { pc with info := info, txList := pc.txList ++ [portId] }

/-- One of the two loops of `sppwk_swap_two_sides(SPPWK_SWAP_REF)`. -/
def swapLoop (dir : PortDir) (list : List ℕ) (info : ℕ → PortMngInfo) : ℕ → PortMngInfo :=
  list.foldl (fun f portId =>
    Function.update f portId ((f portId).setMng dir ((f portId).mng dir).swap)) info

/-- `sppwk_swap_two_sides(SPPWK_SWAP_REF)`. -/
def swapRef (pc : PortCapability) : PortCapability where
  info := swapLoop .tx pc.txList (swapLoop .rx pc.rxList pc.info)
  rxList := pc.rxList.map fun _ => 0
  txList := pc.txList.map fun _ => 0

end PortCapability

/-- `SPP_VLANTAG_CALC_TCI`. -/
def calcTci (vid pcp : ℤ) : ℤ := pcp % 8 * 8192 + vid % 4096

/-- `rte_cpu_to_be_16` on a little-endian machine. -/
def cpuToBe16 (n : ℤ) : ℤ := n % 65536 % 256 * 256 + n % 65536 / 256

/-- What `update_port_attrs` stores for an attribute: the tag control information
of a tag to be added is filled in. -/
def PortAttrs.withTci (a : PortAttrs) : PortAttrs :=
  match a.ops with
  | .addVlan =>
    { a with vlantag := { a.vlantag with tci := cpuToBe16 (calcTci a.vlantag.vid a.vlantag.pcp) } }
  | _ => a

/-- The attributes of a port for one direction, moved to the front of a zeroed
array. -/
def PortInfo.attrsOf (port : PortInfo) (dir : PortDir) : Fin portCapablMax → PortAttrs :=
  fun i => ((((List.finRange portCapablMax).map port.portAttrs).filter
    (·.dir = dir)).map PortAttrs.withTci).getD i .zero

/-- `ethdev_port_id`, as an index. -/
def PortInfo.ethdev (port : PortInfo) : ℕ := port.ethdevPortId.toNat

/-- `update_port_attrs`. -/
def updatePortAttrs (dir : PortDir) (pc : PortCapability) (port : PortInfo) : PortCapability :=
  let c := pc.mng port.ethdev dir
  let p := { pc.info port.ethdev with ifaceType := port.ifaceType, ifaceNo := port.ifaceNo }
  let c' := { c with portAttrs := Function.update c.portAttrs c.updIndex (port.attrsOf dir) }
  PortCapability.swapUpd { pc with info := Function.update pc.info port.ethdev (p.setMng dir c') }
    port.ethdev dir

/-- The ports of a component in a direction, as they stand in the interface
table. -/
def CompInfo.portInfos (iface : PortRef → PortInfo) (comp : CompInfo) (dir : PortDir) :
    List PortInfo :=
  (comp.ports dir).map iface

/-- The ethdev ids of a component's ports are indices into `g_port_mng_info`. -/
def ethdevsInRange (P : Platform) (iface : PortRef → PortInfo) (comp : CompInfo) : Bool :=
  (comp.portInfos iface .rx ++ comp.portInfos iface .tx).all fun port =>
    0 ≤ port.ethdevPortId ∧ port.ethdevPortId < P.maxEthports

/-- `sppwk_update_port_dir`, for a component whose ethdev ids are in range and whose ports
still have places in the lists. -/
def updatePortDir (iface : PortRef → PortInfo) (comp : CompInfo) (pc : PortCapability) :
    PortCapability :=
  (comp.portInfos iface .tx).foldl (updatePortAttrs .tx)
    ((comp.portInfos iface .rx).foldl (updatePortAttrs .rx) pc)

/-- `rx_list` and `tx_list` are arrays of `RTE_MAX_ETHPORTS` places. -/
def PortCapability.listsFit (P : Platform) (pc : PortCapability) : Bool :=
  pc.rxList.length ≤ P.maxEthports ∧ pc.txList.length ≤ P.maxEthports

/-- `sppwk_update_port_dir`.  An ethdev id out of range and a write behind the end of a list
are undefined; the lists only grow, so that it is enough to look at them at the end. -/
def sppwkUpdatePortDir (P : Platform) (iface : PortRef → PortInfo) (comp : CompInfo)
    (pc : PortCapability) : Except Fault PortCapability :=
  if ethdevsInRange P iface comp ∧ (updatePortDir iface comp pc).listsFit P then
    .ok (updatePortDir iface comp pc)
  else .error .undefined

end SoftPatchPanel.Worker
