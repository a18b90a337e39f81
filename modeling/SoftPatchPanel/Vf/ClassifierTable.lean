import Mathlib.Data.List.AList
import SoftPatchPanel.Worker.PortCapability

/-!
# `classifier.c`: the tables of a classifier

A classifier component has a table of two sides (`struct cls_mng_info`).  A side
holds, for each VLAN id that has entries, a hash table from MAC addresses to
indices of tx ports, the list of the tx ports registered for the id, and perhaps a
default port.  `init_component_info` builds a side in one loop over the tx ports of
the component; it assumes that the side has been cleaned before.

`rte_hash` is a finite map whose later insertion of a key overwrites (`AList`).
Both of its calls can fail, for want of memory or of room; which calls do is a
parameter of the build, `HashEnv`.

An mbuf pointer is a number here (its packet is in the heap of the data path), and
the array `pkts[0..nof_pkts)` of a tx port is a list of them.
-/

namespace SoftPatchPanel.Vf

open Worker

/-- `VLAN_UNTAGGED_VID`. -/
def vlanUntaggedVid : ℕ := 0xfff

/-- `NOF_VLAN`. -/
def nofVlan : ℕ := 4096

/-- A MAC address as the six bytes at the head of a frame, the first byte lowest. -/
abbrev MacAddr := BitVec 48

/-- `struct mac_classifier`. -/
structure MacClassifier where
  clsTbl : AList fun _ : MacAddr => ℕ
  /-- `cls_ports[0..nof_cls_ports)`. -/
  clsPorts : List ℕ
  /-- `default_cls_idx`, with `none` for -1. -/
  defaultClsIdx : Option ℕ

/-- `struct cls_port_info`. -/
structure ClsPortInfo where
  ifaceType : PortType
  ifaceNo : ℤ
  queueNo : ℤ
  ifaceNoGlobal : ℤ
  ethdevPortId : ℕ
  /-- `pkts[0..nof_pkts)`. -/
  pkts : List ℕ
  deriving DecidableEq

/-- `struct cls_comp_info`. -/
structure ClsCompInfo where
  name : CString
  macAddrEntry : Bool
  macClfs : ℕ → Option MacClassifier
  nofTxPorts : ℕ
  rxPortI : ClsPortInfo
  txPortsI : ℕ → ClsPortInfo

/-- `struct cls_mng_info`. -/
structure ClsMngInfo where
  compList : Side → ClsCompInfo
  refIndex : Side
  updIndex : Side
  isUsed : Bool

/-- Zeroed memory; `PHY` is the first member of its enumeration. -/
def ClsPortInfo.zero : ClsPortInfo := ⟨.phy, 0, 0, 0, 0, []⟩

/-- The side that `clean_component_info` leaves. -/
def ClsCompInfo.zero : ClsCompInfo := ⟨[], false, fun _ => none, 0, .zero, fun _ => .zero⟩

/-- What `init_cls_mng_info` and `clean_classifier` leave.  The two indices are
equal. -/
def ClsMngInfo.zero : ClsMngInfo := ⟨fun _ => .zero, 0, 0, false⟩

/-- The side the worker reads. -/
def ClsMngInfo.ref (g : ClsMngInfo) : ClsCompInfo := g.compList g.refIndex

/-! ## Building a side -/

/-- Which calls to `rte_zmalloc`, `rte_hash_create` and `rte_hash_add_key_data`
succeed while a side is built, by the index of the tx port they are made for. -/
structure HashEnv where
  create : ℕ → Bool
  addKey : ℕ → Bool

/-- All of them succeed. -/
def HashEnv.ample : HashEnv := ⟨fun _ => true, fun _ => true⟩

/-- What `create_mac_classification` returns. -/
def MacClassifier.empty : MacClassifier := ⟨∅, [], none⟩

/-- The fields of a port that a side keeps. -/
def ClsPortInfo.ofPort (port : PortInfo) (i : ℤ) : ClsPortInfo where
  ifaceType := port.ifaceType
  ifaceNo := i
  queueNo := port.queueNo
  ifaceNoGlobal := port.ifaceNo
  ethdevPortId := port.ethdev % 2 ^ 16
  pkts := []

/-- The rx part of `init_component_info`. -/
def clsRxPort (rx : List PortInfo) : ClsPortInfo :=
  match rx with
  | [] => ⟨.undef, 0, defaultQueueId, 0, 0, []⟩
  | port :: _ => .ofPort port 0

/-- `vid`, the index of a port's VLAN. -/
def clsVid (port : PortInfo) : ℕ := (port.clsAttrs.vlantag.vid % 2 ^ 16).toNat

/-- The first six bytes of `mac_addr`. -/
def ethAddr (port : PortInfo) : MacAddr := port.clsAttrs.macAddr.setWidth 48

/-- Register a port with an address in the classifier of its VLAN. -/
def registerPort (E : HashEnv) (port : PortInfo) (i : ℕ) (mac : MacClassifier) :
    Ret × MacClassifier :=
  let mac := { mac with clsPorts := mac.clsPorts ++ [i] }
  if port.clsAttrs.macAddr = clsDummyAddr then (.ok, { mac with defaultClsIdx := some i })
  else if E.addKey i then (.ok, { mac with clsTbl := mac.clsTbl.insert (ethAddr port) i })
  else (.ng, mac)

/-- One round of the loop of `init_component_info`. -/
def initTxPort (E : HashEnv) (port : PortInfo) (i : ℕ) (cmp : ClsCompInfo) : Ret × ClsCompInfo :=
  let cmp := { cmp with txPortsI := Function.update cmp.txPortsI i (.ofPort port i) }
  if port.clsAttrs.macAddr = 0 then (.ok, cmp)
  else if (cmp.macClfs (clsVid port)).isNone ∧ !E.create i then (.ng, cmp)
  else
    let r := registerPort E port i ((cmp.macClfs (clsVid port)).getD .empty)
    (r.1, { cmp with
      macClfs := Function.update cmp.macClfs (clsVid port) (some r.2)
      macAddrEntry := true })

/-- The loop of `init_component_info`, from the port with index `i` on. -/
def initTxPorts (E : HashEnv) : List PortInfo → ℕ → ClsCompInfo → Ret × ClsCompInfo
  | [], _, cmp => (.ok, cmp)
  | port :: rest, i, cmp =>
    match initTxPort E port i cmp with
    | (.ng, cmp') => (.ng, cmp')
    | (.ok, cmp') => initTxPorts E rest (i + 1) cmp'

/-- `init_component_info`. -/
def initComponentInfo (E : HashEnv) (rx tx : List PortInfo) (cmp : ClsCompInfo) :
    Ret × ClsCompInfo :=
  initTxPorts E tx 0
    { cmp with rxPortI := clsRxPort rx, nofTxPorts := tx.length, macAddrEntry := false }

/-! ## The update by the command thread -/

/-- The index test of `change_classifier_index`. -/
def ClsMngInfo.changeIndex (g : ClsMngInfo) : ClsMngInfo :=
  if g.refIndex = g.updIndex then { g with refIndex := g.updIndex + 1 } else g

/-- Store a side. -/
def ClsMngInfo.setSide (g : ClsMngInfo) (side : Side) (cmp : ClsCompInfo) : ClsMngInfo :=
  { g with compList := Function.update g.compList side cmp }

/-- `update_classifier`, with the worker's part of the exchange.  If the indices
are equal when the call starts, the worker can change its index before the new
side is published or only afterwards; `early` says which. -/
def updateClassifier (E : HashEnv) (early : Bool) (name : CString) (rx tx : List PortInfo)
    (g : ClsMngInfo) : Ret × ClsMngInfo :=
  let side := g.updIndex
  let built := initComponentInfo E rx tx (g.compList side)
  let g := (if early then g.changeIndex else g).setSide side built.2
  match built.1 with
  | .ng => (.ng, g)
  | .ok =>
    let g := g.setSide side { built.2 with name := name }
    let g := { g with updIndex := g.refIndex, isUsed := true }
    let g := g.changeIndex
    (.ok, g.setSide g.updIndex .zero)

/-! ## The entries that `status` reports -/

/-- One element of the classifier table in the reply; no address means the word
`default`. -/
structure ClsEntry where
  vid : ℕ
  mac : Option MacAddr
  port : PortIdx
  deriving DecidableEq

/-- The port that an index stands for. -/
def ClsCompInfo.portIdx (cmp : ClsCompInfo) (i : ℕ) : PortIdx :=
  ⟨(cmp.txPortsI i).ifaceType, (cmp.txPortsI i).ifaceNoGlobal, (cmp.txPortsI i).queueNo⟩

/-- `add_mac_entry`. -/
def addMacEntry (cmp : ClsCompInfo) (vid : ℕ) (mac : MacClassifier) : List ClsEntry :=
  (mac.defaultClsIdx.toList.map fun i => ⟨vid, none, cmp.portIdx i⟩) ++
    mac.clsTbl.entries.map fun e => ⟨vid, some e.1, cmp.portIdx e.2⟩

/-- The entries of one side. -/
def ClsCompInfo.entries (cmp : ClsCompInfo) : List ClsEntry :=
  (List.range nofVlan).flatMap fun vid =>
    match cmp.macClfs vid with
    | none => []
    | some mac => addMacEntry cmp vid mac

/-- `_add_classifier_table`. -/
def addClassifierTable (P : Platform) (cls : ℕ → ClsMngInfo) : List ClsEntry :=
  (List.range P.maxLcore).flatMap fun i =>
    if (cls i).isUsed then (cls i).ref.entries else []

end SoftPatchPanel.Vf
