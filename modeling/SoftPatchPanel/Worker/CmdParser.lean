import SoftPatchPanel.Worker.CmdUtils

/-!
# `cmd_parser.c`: from a request string to a command

A request is split at blanks.  The first token and the number of tokens select a
row of `cmd_attr_list`; the row's parser then walks over the other tokens and a
table of functions side by side, each function writing its field of a command
that starts out as zeroed memory.  A row that allows a range of token counts thus
accepts requests in which the last fields are never written: they keep their
zeros.

The functions read the management data: whether a name is taken, whether a port
is in use.  The tests for ports in use are skipped when `allow_override` is set,
which `parse_cmd_port` does for requests of the maximal length.

Copying a token into a field too small for it, and handing a missing token to
`strcmp`, are `Fault`s.
-/

namespace SoftPatchPanel.Worker

/-! ## Commands -/

/-- `struct sppwk_cls_cmd_attrs`. -/
structure ClsCmdAttrs where
  wkAction : Action
  clsType : ClsType
  vid : ℤ
  mac : CString
  port : PortIdx
  deriving DecidableEq, Repr

/-- `struct sppwk_cmd_comp`. -/
structure CmdComp where
  wkAction : Action
  name : CString
  core : ℕ
  wkType : WorkerType
  deriving DecidableEq, Repr

/-- `struct sppwk_cmd_port`. -/
structure CmdPort where
  wkAction : Action
  port : PortIdx
  dir : PortDir
  name : CString
  portAttrs : PortAttrs
  deriving DecidableEq, Repr

/-- Zeroed memory. -/
def ClsCmdAttrs.zero : ClsCmdAttrs := ⟨.none, .none, 0, [], .zero⟩

@[inherit_doc ClsCmdAttrs.zero]
def CmdComp.zero : CmdComp := ⟨.none, [], 0, .none⟩

@[inherit_doc ClsCmdAttrs.zero]
def CmdPort.zero : CmdPort := ⟨.none, .zero, .none, [], .zero⟩

/-- `struct sppwk_cmd_attrs`: the type of a command and the member of the union
that belongs to it. -/
inductive CmdAttrs where
  | clsMac (clsTable : ClsCmdAttrs)
  | clsVlan (clsTable : ClsCmdAttrs)
  | clientId
  | status
  | exit
  | worker (comp : CmdComp)
  | port (port : CmdPort)
  deriving DecidableEq, Repr

/-- `enum sppwk_parse_error_code`. -/
inductive ParseErrorCode where
  | wrongFormat | unknownCmd | noParam | invalidType | invalidValue
  deriving DecidableEq, Repr

/-- `struct sppwk_parse_err_msg`. -/
structure ParseErrMsg where
  code : ParseErrorCode
  msg : CString
  details : CString
  deriving DecidableEq, Repr

/-- `SPPWK_MAX_PARAMS`. -/
def sppwkMaxParams : ℕ := 8

/-- `SPPWK_NAME_BUFSZ`. -/
def sppwkNameBufsz : ℕ := 32

/-- `SPPWK_VAL_BUFSZ`. -/
def sppwkValBufsz : ℕ := 111

/-! ## Words and numbers -/

/-- `CMD_ACT_LIST`. -/
def cmdActList : List (CString × Action) :=
  [("none", .none), ("start", .start), ("stop", .stop),
    ("add", .add), ("del", .del)]

/-- `CLS_TYPE_LIST`. -/
def clsTypeList : List (CString × ClsType) :=
  [("none", .none), ("mac", .mac), ("vlan", .vlan)]

/-- `PORT_DIR_LIST`. -/
def portDirList : List (CString × PortDir) :=
  [("none", .none), ("rx", .rx), ("tx", .tx)]

/-- `PORT_ABILITY_LIST`. -/
def portAbilityList : List (CString × PortOps) :=
  [("none", .none), ("add_vlantag", .addVlan), ("del_vlantag", .delVlan)]

/-- `get_list_idx`; `none` is `SPPWK_RET_NG`. -/
def getListIdx {α : Type} (str : CString) (list : List (CString × α)) : Option α :=
  list.lookup str

/-- `get_int_in_range`. -/
def getIntInRange (argVal : CString) (min max : ℤ) : Option ℤ :=
  match CString.strtol 0 argVal with
  | some (n, []) =>
    if CString.intOfLong n < min ∨ max < CString.intOfLong n then none
    else some (CString.intOfLong n)
  | _ => none

/-- `get_uint_in_range`. -/
def getUintInRange (argVal : CString) (min max : ℕ) : Option ℕ :=
  match CString.strtoul 0 argVal with
  | some (n, []) =>
    if CString.uintOfULong n < min ∨ max < CString.uintOfULong n then none
    else some (CString.uintOfULong n)
  | _ => none

/-- `get_comp_type_from_str` of `spp_vf` and of `spp_mirror`. -/
def getCompTypeFromStr (module : Module) (typeStr : CString) : WorkerType :=
  match module with
  | .vf =>
    if typeStr = "classifier" then .cls
    else if typeStr = "merge" then .mrg
    else if typeStr = "forward" then .fwd
    else .none
  | .mirror => if typeStr = "mirror" then .mir else .none

variable (P : Platform) (m : MngData)

/-! ## Resource UIDs -/

/-- The type of a resource UID and what follows the colon. -/
def resourceType (resUid : CString) : Option (PortType × CString) :=
  if "phy:".toList.isPrefixOf resUid then some (.phy, resUid.drop 4)
  else if "vhost:".toList.isPrefixOf resUid then some (.vhost, resUid.drop 6)
  else if "ring:".toList.isPrefixOf resUid then some (.ring, resUid.drop 5)
  else none

/-- The queue number behind `nq` and whether one is given. -/
def resourceQueue (ptype : PortType) (str : CString) : Option (ℤ × Bool) :=
  match CString.strstr "nq" str with
  | none => some (defaultQueueId, false)
  | some rest =>
    if ptype = .phy then
      match CString.strtol 0 (rest.drop 2) with
      | some (q, []) => some (CString.intOfLong q, true)
      | _ => none
    else none

/-- The interface number; it ends at the end of the string or at `nq`. -/
def resourceNo (str : CString) : Option ℤ :=
  match CString.strtol 0 str with
  | some (n, rest) =>
    if rest = [] ∨ "nq".toList.isPrefixOf rest then some (CString.intOfLong n) else none
  | none => none

/-- `parse_resource_uid`. -/
def parseResourceUid (resUid : CString) : Except Fault (Option PortIdx) :=
  match resourceType resUid with
  | none => .ok none
  | some (ptype, str) =>
    match resourceQueue ptype str with
    | none => .ok none
    | some (queueId, multiQueueFlg) =>
      match resourceNo str with
      | none => .ok none
      | some portId =>
        if portId > P.maxEthports ∨ portId < 0 then .ok none
        else if ptype = .phy then do
          let maxQueues ← getPortMaxQueues P ptype portId
          if multiQueueFlg ≠ decide (1 < maxQueues.getD 0) then .ok none
          else .ok (some ⟨ptype, portId, queueId⟩)
        else .ok (some ⟨ptype, portId, queueId⟩)

/-! ## The parameters of `component` -/

/-- `parse_comp_action`. -/
def parseCompAction (c : CmdComp) (argVal : CString) : Except Fault (Option CmdComp) :=
  match getListIdx argVal cmdActList with
  | some .start => .ok (some { c with wkAction := .start })
  | some .stop => .ok (some { c with wkAction := .stop })
  | _ => .ok none

/-- The copy of a name into a field of `SPPWK_NAME_BUFSZ` characters, behind a
test against the larger `SPPWK_VAL_BUFSZ`. -/
def copyName (argVal : CString) : Except Fault (Option CString) :=
  if sppwkValBufsz ≤ argVal.length then .ok none
  else if sppwkNameBufsz ≤ argVal.length then .error .undefined
  else .ok (some argVal)

/-- `parse_comp_name`. -/
def parseCompName (c : CmdComp) (argVal : CString) : Except Fault (Option CmdComp) :=
  if c.wkAction = .start ∧ (sppwkGetLcoreId P m argVal).isSome then .ok none
  else do
    let name ← copyName argVal
    .ok (name.map fun n => { c with name := n })

/-- `parse_comp_lcore_id`. -/
def parseCompLcoreId (c : CmdComp) (argVal : CString) : Except Fault (Option CmdComp) :=
  if c.wkAction ≠ .start then .ok (some c)
  else .ok ((getUintInRange argVal 0 (P.maxLcore - 1)).map fun l => { c with core := l })

/-- `parse_comp_type`. -/
def parseCompType (c : CmdComp) (argVal : CString) : Except Fault (Option CmdComp) :=
  if c.wkAction ≠ .start then .ok (some c)
  else if getCompTypeFromStr P.module argVal = .none then .ok none
  else .ok (some { c with wkType := getCompTypeFromStr P.module argVal })

/-! ## The parameters of `port` -/

/-- `parse_port_action`. -/
def parsePortAction (p : CmdPort) (argVal : CString) : Except Fault (Option CmdPort) :=
  match getListIdx argVal cmdActList with
  | some .add => .ok (some { p with wkAction := .add })
  | some .del => .ok (some { p with wkAction := .del })
  | _ => .ok none

/-- `parse_port`: a port that is in use in both directions cannot be added. -/
def parsePort (allowOverride : Bool) (p : CmdPort) (argVal : CString) :
    Except Fault (Option CmdPort) := do
  match ← parseResourceUid P argVal with
  | none => .ok none
  | some idx =>
    if !allowOverride ∧ p.wkAction = .add then
      let rx ← sppwkCheckUsedPort P m idx.ifaceType idx.ifaceNo idx.queueNo .rx
      let tx ← sppwkCheckUsedPort P m idx.ifaceType idx.ifaceNo idx.queueNo .tx
      if rx.isSome ∧ tx.isSome then .ok none else .ok (some { p with port := idx })
    else .ok (some { p with port := idx })

/-- The greatest queue number of a physical port in a direction. -/
def maxPortQueue (idx : PortIdx) (dir : PortDir) : ℤ :=
  match dir with
  | .rx => (P.queueInfo idx.ifaceNo.toNat).rxq - 1
  | .tx => (P.queueInfo idx.ifaceNo.toNat).txq - 1
  | _ => -1

/-- `parse_port_direction`: a port that is in use in the direction cannot be
added. -/
def parsePortDirection (allowOverride : Bool) (p : CmdPort) (argVal : CString) :
    Except Fault (Option CmdPort) :=
  match getListIdx argVal portDirList with
  | none | some .none => .ok none
  | some dir =>
    if (p.wkAction = .add ∧ p.port.ifaceType = .phy) ∧ maxPortQueue P p.port dir < p.port.queueNo then
      .ok none
    else if !allowOverride ∧ p.wkAction = .add then do
      let used ← sppwkCheckUsedPort P m p.port.ifaceType p.port.ifaceNo p.port.queueNo dir
      if used.isSome then .ok none else .ok (some { p with dir := dir })
    else .ok (some { p with dir := dir })

/-- `parse_comp_name_portcmd`. -/
def parseCompNamePortcmd (p : CmdPort) (argVal : CString) : Except Fault (Option CmdPort) :=
  if (sppwkGetLcoreId P m argVal).isNone then .ok none
  else do
    let name ← copyName argVal
    .ok (name.map fun n => { p with name := n })

/-- `parse_port_vlan_ops`. -/
def parsePortVlanOps (p : CmdPort) (argVal : CString) : Except Fault (Option CmdPort) :=
  match p.portAttrs.ops with
  | .none =>
    match getListIdx argVal portAbilityList with
    | none | some .none => .ok none
    | some ops => .ok (some { p with portAttrs := { p.portAttrs with ops := ops, dir := p.dir } })
  | _ => .ok (some p)

/-- `parse_port_vid`. -/
def parsePortVid (p : CmdPort) (argVal : CString) : Except Fault (Option CmdPort) :=
  match p.portAttrs.ops with
  | .addVlan =>
    .ok ((getIntInRange argVal 0 ethVlanIdMax).map fun vid =>
      { p with portAttrs :=
        { p.portAttrs with vlantag := { p.portAttrs.vlantag with vid := vid, pcp := -1 } } })
  | _ => .ok (some p)

/-- `parse_port_pcp`. -/
def parsePortPcp (p : CmdPort) (argVal : CString) : Except Fault (Option CmdPort) :=
  match p.portAttrs.ops with
  | .addVlan =>
    .ok ((getIntInRange argVal 0 sppVlanPcpMax).map fun pcp =>
      { p with portAttrs :=
        { p.portAttrs with vlantag := { p.portAttrs.vlantag with pcp := pcp } } })
  | _ => .ok (some p)

/-! ## The parameters of `classifier_table` -/

/-- `parse_cls_action`. -/
def parseClsAction (a : ClsCmdAttrs) (argVal : CString) : Except Fault (Option ClsCmdAttrs) :=
  match getListIdx argVal cmdActList with
  | some .add => .ok (some { a with wkAction := .add })
  | some .del => .ok (some { a with wkAction := .del })
  | _ => .ok none

/-- `parse_cls_type`. -/
def parseClsType (a : ClsCmdAttrs) (argVal : CString) : Except Fault (Option ClsCmdAttrs) :=
  match getListIdx argVal clsTypeList with
  | none | some .none => .ok none
  | some t => .ok (some { a with clsType := t })

/-- `parse_cls_vid`. -/
def parseClsVid (a : ClsCmdAttrs) (argVal : CString) : Except Fault (Option ClsCmdAttrs) :=
  .ok ((getIntInRange argVal 0 ethVlanIdMax).map fun vid => { a with vid := vid })

/-- `parse_mac_addr`. -/
def parseMacAddr (a : ClsCmdAttrs) (argVal : CString) : Except Fault (Option ClsCmdAttrs) :=
  let strVal := if argVal = "default" then clsDummyAddrStr else argVal
  do
    let res ← sppwkConvertMacStrToInt64 strVal
    if res.msb then .ok none else .ok (some { a with mac := strVal })

/-- `is_used_with_addr`. -/
def isUsedWithAddr (vid : ℤ) (macAddr : BitVec 64) (r : PortRef) : Bool :=
  macAddr = (m.iface r).clsAttrs.macAddr ∧ vid = (m.iface r).clsAttrs.vlantag.vid

/-- `is_added_port`. -/
def isAddedPort (r : PortRef) : Bool := if (m.iface r).ifaceType = .undef then false else true

/-- The tests of `parse_cls_port` on an attribute set that is complete but for its
port: an entry can be added to a port without one, and only the entry that is
there can be deleted. -/
def checkClsPort (a : ClsCmdAttrs) (r : PortRef) : Except Fault Bool :=
  match a.wkAction with
  | .add => .ok (isUsedWithAddr m ethVlanIdMax 0#64 r)
  | .del => do
    let macAddr ← sppwkConvertMacStrToInt64 a.mac
    if macAddr.msb then .ok false else .ok (isUsedWithAddr m a.vid macAddr r)
  | _ => .ok true

/-- `parse_cls_port`. -/
def parseClsPort (a : ClsCmdAttrs) (argVal : CString) : Except Fault (Option ClsCmdAttrs) := do
  match ← parseResourceUid P argVal with
  | none => .ok none
  | some idx =>
    match ← getSppwkPort P idx.ifaceType idx.ifaceNo idx.queueNo with
    | none => .error .undefined
    | some r =>
      if !isAddedPort m r then .ok none
      else
        let a' := if a.clsType = .mac then { a with vid := ethVlanIdMax } else a
        let fits ← checkClsPort m a' r
        if fits then .ok (some { a' with port := idx }) else .ok none

/-! ## The tables of parameters -/

/-- One row of `cmd_ops_list`: the name of the parameter, for messages, and the
function that writes it. -/
abbrev CmdOps (α : Type) := CString × (α → CString → Except Fault (Option α))

/-- `classifier_table` by MAC address. -/
def clsMacOps : List (CmdOps ClsCmdAttrs) :=
  [("action", parseClsAction), ("type", parseClsType),
    ("mac address", parseMacAddr), ("port", parseClsPort P m)]

/-- `classifier_table` by VLAN. -/
def clsVlanOps : List (CmdOps ClsCmdAttrs) :=
  [("action", parseClsAction), ("type", parseClsType),
    ("vlan id", parseClsVid), ("mac address", parseMacAddr),
    ("port", parseClsPort P m)]

/-- `component`. -/
def compOps : List (CmdOps CmdComp) :=
  [("action", parseCompAction), ("component name", parseCompName P m),
    ("core", parseCompLcoreId P), ("component type", parseCompType P)]

/-- `port`. -/
def portOps (flag : Bool) : List (CmdOps CmdPort) :=
  [("action", parsePortAction), ("port", parsePort P m flag),
    ("port rxtx", parsePortDirection P m flag),
    ("component name", parseCompNamePortcmd P m),
    ("port vlan operation", parsePortVlanOps), ("port vid", parsePortVid),
    ("port pcp", parsePortPcp)]

/-- `set_detailed_parse_error`. -/
def setDetailedParseError {α : Type} (errMsg errDetails : CString) :
    Except Fault (Except ParseErrMsg α) :=
  if sppwkValBufsz ≤ errDetails.length then .error .undefined
  else .ok (.error ⟨.invalidValue, errMsg, errDetails⟩)

/-- The loop of `parse_cmd_comp`, `parse_cmd_cls_table_vlan` and `parse_cmd_port`. -/
def parseParams {α : Type} :
    List (CmdOps α) → List CString → α → Except Fault (Except ParseErrMsg α)
  | _, [], acc => .ok (.ok acc)
  | [], _ :: _, _ => .error .undefined
  | op :: ops, arg :: args, acc => do
    match ← op.2 acc arg with
    | none => setDetailedParseError op.1 arg
    | some acc' => parseParams ops args acc'

/-! ## Requests -/

/-- `enum sppwk_cmd_type`. -/
inductive CmdType where
  | clsMac | clsVlan | clientId | status | exit | worker | port
  deriving DecidableEq, Repr

/-- `struct cmd_parse_attrs`. -/
structure CmdParseAttrs where
  cmdName : CString
  nofParamsMin : ℕ
  nofParamsMax : ℕ
  type : CmdType
  deriving DecidableEq

/-- `cmd_attr_list`. -/
def cmdAttrList : List CmdParseAttrs :=
  [⟨"classifier_table", 5, 5, .clsMac⟩, ⟨"classifier_table", 6, 6, .clsVlan⟩,
    ⟨"_get_client_id", 1, 1, .clientId⟩, ⟨"status", 1, 1, .status⟩,
    ⟨"exit", 1, 1, .exit⟩, ⟨"component", 3, 5, .worker⟩,
    ⟨"port", 5, 8, .port⟩]

/-- The function of a row of `cmd_attr_list`, on the tokens behind the first. -/
def parseCmd (row : CmdParseAttrs) (args : List CString) :
    Except Fault (Except ParseErrMsg CmdAttrs) :=
  match row.type with
  | .clsMac => do
    let r ← parseParams (clsMacOps P m) args .zero
    .ok (r.map .clsMac)
  | .clsVlan => do
    let r ← parseParams (clsVlanOps P m) args .zero
    .ok (r.map .clsVlan)
  | .clientId => .ok (.ok .clientId)
  | .status => .ok (.ok .status)
  | .exit => .ok (.ok .exit)
  | .worker => do
    let r ← parseParams (compOps P m) args .zero
    .ok (r.map .worker)
  | .port => do
    let r ← parseParams (portOps P m (args.length + 1 = row.nofParamsMax)) args .zero
    .ok (r.map .port)

/-- The row of `cmd_attr_list` that a request selects: its name is the first
token and its range contains the number of tokens. -/
def selectRow (cmd : CString) (argc : ℕ) : Option CmdParseAttrs :=
  cmdAttrList.find? fun row =>
    row.cmdName = cmd ∧ row.nofParamsMin ≤ argc ∧ argc ≤ row.nofParamsMax

/-- `parse_wk_cmd`, on the tokens. -/
def parseTokens : List CString → Except Fault (Except ParseErrMsg CmdAttrs)
  | [] => .error .undefined
  | cmd :: args =>
    match selectRow cmd (args.length + 1) with
    | some row => parseCmd P m row args
    | none =>
      if cmdAttrList.any (·.cmdName = cmd) then .ok (.error ⟨.wrongFormat, [], []⟩)
      else setDetailedParseError "command" cmd

/-- `parse_wk_cmd`, the decoding in `sppwk_parse_req`. -/
def parseWkCmd (requestStr : CString) : Except Fault (Except ParseErrMsg CmdAttrs) :=
  if sppwkMaxParams * sppwkValBufsz ≤ requestStr.length then .error .undefined
  else if sppwkMaxParams < (CString.tokens ' ' requestStr).length then
    .ok (.error ⟨.wrongFormat, [], []⟩)
  else parseTokens P m (CString.tokens ' ' requestStr)

end SoftPatchPanel.Worker
