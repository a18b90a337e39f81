import SoftPatchPanel.Shared.PortManager
import SoftPatchPanel.Shared.ResourceUid

/-!
# Adding and deleting ports in `spp_primary`

Besides the two arrays of the port manager, `spp_primary` keeps `port_id_list`, in
which it looks up the ethdev of a port it has to delete.  This file is `add_port`,
`find_ethdev_id` and `del_port` of `primary/main.c`, `add_pipe_pmd` of
`secondary/add_port.c` as far as it does something before the call of the PMD, and
the initialisation of the three arrays in `main`.

`add_port` chooses the first free entry of the list before anything else.  Five of
the six types write that entry before the result of the PMD is looked at; a pipe
looks first.
-/

namespace SoftPatchPanel.Primary

open Shared
open Worker (PortType Fault Ret)

variable {L : Limits}

/-- `struct port_id_map`. -/
structure PortIdMap where
  portId : ℤ
  type : PortType
  rxRingId : ℤ
  txRingId : ℤ
  deriving DecidableEq, Repr

/-- `port_map`, `ports_fwd_array` and `port_id_list`. -/
@[ext]
structure State (L : Limits) where
  tables : Tables L
  portIdList : ℕ → PortIdMap

/-! ## The list of ports -/

/-- Write `port_id_list[d]`. -/
def State.setList (s : State L) (d : ℕ) (e : PortIdMap) : State L :=
  { s with portIdList := Function.update s.portIdList d e }

@[simp] theorem State.setList_portIdList_self (s : State L) (d : ℕ) (e : PortIdMap) :
    (s.setList d e).portIdList d = e := Function.update_self ..

theorem State.setList_portIdList_of_ne (s : State L) {d k : ℕ} (e : PortIdMap) (h : k ≠ d) :
    (s.setList d e).portIdList k = s.portIdList k := Function.update_of_ne h ..

/-- The value of `cnt` after the first loop of `add_port`: the first free entry, or
`RTE_MAX_ETHPORTS` if there is none. -/
def State.firstFree (s : State L) : ℕ :=
  ((List.range L.maxEthports).find? fun d => (s.portIdList d).portId = portReset).getD
    L.maxEthports

/-- `find_ethdev_id`. -/
def findEthdevId (s : State L) (pId : ℤ) (ptype : PortType) : ℕ :=
  ((List.range L.maxEthports).find? fun d =>
    (s.portIdList d).portId = pId ∧ (s.portIdList d).type = ptype).getD portReset

/-- The port has an entry in `port_id_list`. -/
def State.Listed (s : State L) (type : PortType) (id : ℤ) : Prop :=
  ∃ d < L.maxEthports, (s.portIdList d).portId = id ∧ (s.portIdList d).type = type

theorem findEthdevId_eq_portReset_iff {s : State L} {pId : ℤ} {ptype : PortType} :
    findEthdevId s pId ptype = portReset ↔ ¬ s.Listed ptype pId := L.find_eq_portReset_iff

/-- The types that `add_port` records in the list before it knows whether the PMD has
added the port. -/
def recordedTypes : List (CString × PortType) :=
  [("vhost", .vhost), ("ring", .ring), ("pcap", .pcap),
    ("memif", .memif), ("nullpmd", .nullpmd)]

/-- The name of a pipe in a command. -/
def pipeName : CString := "pipe"

/-- The branch of `del_port` that the name selects; `add_port` has the same six. -/
def supported (pType : CString) : Option PortType :=
  (recordedTypes ++ [(pipeName, PortType.pipe)]).lookup pType

/-- The assignments to `port_id_list[cnt]` in a branch of `add_port`. -/
def record (s : State L) (cnt : ℕ) (type : PortType) (pId : ℤ) : Except Fault (State L) :=
  if cnt < L.maxEthports then
    .ok (s.setList cnt { s.portIdList cnt with portId := pId, type := type })
  else .error .undefined

/-- The end of `add_port`, with the result of the PMD. -/
def finishAdd (s : State L) (cnt : ℕ) (res : ℤ) (pId : ℤ) : Except Fault (Ret × State L) :=
  if res < 0 then .ok (.ng, s)
  else if uint16OfLong res < L.maxEthports ∧ cnt < L.maxEthports then
    let portId := uint16OfLong res
    let m := s.tables.portMap portId
    let type := (s.portIdList cnt).type
    let t := s.tables.setPort portId
      { m with id := pId, portType := type, stats := if type = .ring then .client pId else m.stats }
    let e := t.fwd (portId, 0)
    .ok (.ok, { s with tables := t.setFwd (portId, 0) { e with inPortId := portId } })
  else .error .undefined

/-! ## Pipes -/

/-- `get_pipe_pmd_name`. -/
def getPipePmdName : ℤ → CString := numberedName "spp_pipe"

/-- What `add_pipe_pmd` writes to `devargs`. -/
def pipeDevargs (index : ℤ) (rxRing txRing : CString) : CString :=
  getPipePmdName index ++ ",rx=" ++ rxRing ++ ",tx=" ++ txRing

/-- Both rings of the pipe are given, and their names fit `devargs[64]`. -/
def RingsFit (pId : ℤ) (rings : Option CString × Option CString) : Prop :=
  ∃ rx tx, rings = (some rx, some tx) ∧ (pipeDevargs pId rx tx).length < 64

/-- `add_pipe_pmd`, up to the call that attaches the device. -/
def addPipePmd (pId : ℤ) (rings : Option CString × Option CString) (pmd : ℤ) : Except Fault ℤ :=
  match rings with
  | (some rx, some tx) =>
    if (pipeDevargs pId rx tx).length < 64 then .ok pmd else .error .undefined
  | _ => .error .undefined

/-- The two calls of `parse_resource_uid` that store the rings of a pipe. -/
def storeRings (s : State L) (cnt : ℕ) (rings : Option CString × Option CString) :
    Except Fault (State L) := do
  let rx ← parseResourceUid rings.1
  let s := s.setList cnt
    { s.portIdList cnt with rxRingId := rx.portId.getD (s.portIdList cnt).rxRingId }
  let tx ← parseResourceUid rings.2
  return s.setList cnt
    { s.portIdList cnt with txRingId := tx.portId.getD (s.portIdList cnt).txRingId }

/-! ## The commands -/

/-- `add_port`.  `pmd` is what the function of the PMD returns, and `rings` are the two
tokens behind the UID. -/
def addPort (s : State L) (pmd : ℤ) (pType : CString) (pId : ℤ)
    (rings : Option CString × Option CString) : Except Fault (Ret × State L) := do
  let cnt := s.firstFree
  match recordedTypes.lookup pType with
  | some type =>
    let s ← record s cnt type pId
    finishAdd s cnt pmd pId
  | none =>
    if pType = pipeName then
      let res ← addPipePmd pId rings pmd
      if res < 0 then return (.ng, s)
      let s ← record s cnt .pipe pId
      let s ← storeRings s cnt rings
      finishAdd s cnt res pId
    else finishAdd s cnt 0 pId

/-- The end of `del_port`. -/
def clearPort (s : State L) (devId : ℕ) : Except Fault (State L) :=
  if devId < L.maxEthports then do
    let s := s.setList devId { s.portIdList devId with portId := portReset, type := .undef }
    let t ← s.tables.forwardArrayRemove (devId, 0)
    let t ← t.portMapInitOne devId
    return { s with tables := t }
  else .error .undefined

/-- `del_port`.  As in `do_del` of `spp_nfv`, nothing looks at what
`dev_detach_by_port_id` returns.  A name that is no type of a port deletes the port
of ethdev 0. -/
def delPort (s : State L) (pType : CString) (pId : ℤ) : Except Fault (Ret × State L) :=
  match supported pType with
  | some type =>
    if findEthdevId s pId type = portReset then .ok (.ng, s)
    else (Prod.mk .ok) <$> clearPort s (findEthdevId s pId type)
  | none => (Prod.mk .ok) <$> clearPort s 0

/-! ## Start-up -/

/-- One pass of the loop of `main` that enters the ports found at start-up, with the
number of physical ports so far. -/
def enterPort (host : Host L) (acc : ℕ × Tables L) (i : ℕ) : ℕ × Tables L :=
  match host.dev i with
  | none => acc
  | some (type, id) =>
    let t := acc.2.setFwd (i, 0) { acc.2.fwd (i, 0) with inPortId := i, inQueueId := 0 }
    if type = .phy then (acc.1 + 1, t.setPort i ⟨acc.1, .phy, .port i, none⟩)
    else (acc.1, t.setPort i ⟨id, type, .port i, none⟩)

/-- The three arrays when the process starts to read commands.  Without the forwarder
nothing initialises the arrays of the port manager. -/
def startUp (host : Host L) (forwarding : Bool) : State L where
  tables :=
    if forwarding then ((List.range host.nbPorts).foldl (enterPort host) (0, Tables.init)).2
    else Tables.zero
  portIdList d :=
    if d < L.maxEthports ∧ (host.dev d).isSome then ⟨d, .phy, 0, 0⟩
    else ⟨portReset, .undef, 0, 0⟩

end SoftPatchPanel.Primary
