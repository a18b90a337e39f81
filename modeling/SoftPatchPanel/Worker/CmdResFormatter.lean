import SoftPatchPanel.Shared.JsonHelper
import SoftPatchPanel.Worker.CmdRunner

/-!
# `cmd_res_formatter.c`: the parts of a reply

A reply has a list of results, one for each command, and for the requests that ask for
something the members that answer them.  The functions here make the parts that
`spp_vf` and `spp_mirror` have in common.

Some texts are printed into local buffers of `CMD_TAG_APPEND_SIZE` bytes first.  A text
that does not fit, a port without a name, and an ethdev id that is not an index of the
capability table are `Fault`s.  `none` is `SPPWK_RET_NG`.
-/

namespace SoftPatchPanel.Worker

open Shared

/-! ## Results -/

/-- `enum cmd_res_code`. -/
inductive CmdResCode where
  | success | failed | invalid
  deriving DecidableEq, Repr

/-- `struct cmd_result`, without the code. -/
structure CmdResult where
  result : CString
  errMsg : CString
  deriving DecidableEq, Repr

/-- `set_cmd_result`. -/
def setCmdResult (code : CmdResCode) (errorMessage : CString) : CmdResult :=
  match code with
  | .success => ⟨"success", []⟩
  | .failed => ⟨"error", errorMessage⟩
  | .invalid => ⟨"invalid", []⟩

/-- `get_parse_err_msg`. -/
def getParseErrMsg (err : ParseErrMsg) : CString :=
  match err.code with
  | .wrongFormat => "Wrong message format"
  | .unknownCmd => "Unknown command(" ++ err.details ++ ")"
  | .noParam => "No or insufficient number of params (" ++ err.msg ++ ")"
  | .invalidType => "Invalid value type (" ++ err.msg ++ ")"
  | .invalidValue => "Invalid value (" ++ err.msg ++ ")"

/-- A name and what it appends to a text, `struct cmd_res_formatter_ops`. -/
abbrev ResFormatterOps := CString × (CString → CString → Except Fault (Option CString))

/-- `append_response_list_value`: each member is made in an empty buffer, and nothing is
appended for a member that stays empty. -/
def appendResponseListValue : List ResFormatterOps → CString → Except Fault (Option CString)
  | [], output => .ok (some output)
  | (tagName, func) :: responses, output => do
    match ← func tagName [] with
    | none => .ok none
    | some [] => appendResponseListValue responses output
    | some (c :: tmp) =>
      appendResponseListValue responses (output ++ jsonAppendComma output ++ c :: tmp)

/-- `append_result_value`. -/
def appendResultValue (result : CmdResult) (name output : CString) :
    Except Fault (Option CString) :=
  .ok (some (appendJsonStrValue output name result.result))

/-- `append_error_details_value`. -/
def appendErrorDetailsValue (result : CmdResult) (name output : CString) :
    Except Fault (Option CString) :=
  if result.errMsg = [] then .ok (some output)
  else .ok (some (appendJsonBlockBrackets output name
    (appendJsonStrValue [] "message" result.errMsg)))

/-- `response_result_list`. -/
def responseResultList (result : CmdResult) : List ResFormatterOps :=
  [("result", appendResultValue result),
    ("error_details", appendErrorDetailsValue result)]

/-- `append_command_results_value`, for the one command of a request. -/
def appendCommandResultsValue (name output : CString) (result : CmdResult) :
    Except Fault (Option CString) := do
  match ← appendResponseListValue (responseResultList result) [] with
  | none => .ok none
  | some tmp =>
    .ok (some (appendJsonArrayBrackets output name (appendJsonBlockBrackets [] [] tmp)))

/-! ## Ports -/

/-- `CMD_TAG_APPEND_SIZE`. -/
def cmdTagAppendSize : ℕ := 16

/-- `sprintf` into a buffer of that size. -/
def sprintfTag (text : CString) : Except Fault CString :=
  if cmdTagAppendSize ≤ text.length then .error .undefined else .ok text

/-- A port number, with the queue if the port has several. -/
def portNumberText (maxQueue : ℕ) (port queue : ℤ) : CString :=
  if maxQueue ≤ 1 then intText port else intText port ++ " nq " ++ intText queue

/-- The words `SPPWK_PHY_STR`, `SPPWK_VHOST_STR` and `SPPWK_RING_STR`. -/
def portTypeStr : PortType → Option CString
  | .phy => some "phy"
  | .ring => some "ring"
  | .vhost => some "vhost"
  | _ => none

variable (P : Platform) (m : MngData) (cap : PortCapability)

/-- `sppwk_port_uid`, as it is called: when it fails the buffer is read without having
been written. -/
def sppwkPortUid (port : PortIdx) : Except Fault CString :=
  match portTypeStr port.ifaceType with
  | none => .error .undefined
  | some type => do
    match ← getPortMaxQueues P port.ifaceType port.ifaceNo with
    | none => .error .undefined
    | some maxQueue =>
      sprintfTag (type ++ ":" ++ portNumberText maxQueue port.ifaceNo port.queueNo)

/-- One round of the inner loop of `append_interface_array`.  Nothing has been printed
exactly as long as the text is empty. -/
def appendInterface (type : PortType) (port maxQueue : ℕ) (output : CString) (queue : ℕ) :
    Except Fault CString := do
  match ← getSppwkPort P type port queue with
  | none => .error .undefined
  | some r =>
    if (m.iface r).ethdevPortId < 0 then .ok output
    else do
      let tmp ← sprintfTag (jsonAppendComma output ++ quoted (portNumberText maxQueue port queue))
      .ok (output ++ tmp)

/-- `append_interface_array`, over the ports still to do. -/
def appendInterfaceArray (type : PortType) : List ℕ → CString → Except Fault (Option CString)
  | [], output => .ok (some output)
  | port :: rest, output => do
    match ← getPortMaxQueues P type port with
    | none => .ok none
    | some maxQueue => do
      let output ← (List.range maxQueue).foldlM (appendInterface P m type port maxQueue) output
      appendInterfaceArray type rest output

/-- `add_interface`. -/
def addInterface (name output : CString) : Except Fault (Option CString) :=
  match [("phy".toList, PortType.phy), ("vhost".toList, .vhost), ("ring".toList, .ring)].lookup
      name with
  | none => .ok none
  | some type => do
    match ← appendInterfaceArray P m type (List.range P.maxEthports) [] with
    | none => .ok none
    | some tmp => .ok (some (appendJsonArrayBrackets output name tmp))

/-- `PORT_ABILITY_STAT_LIST`. -/
def portAbilityStat : PortOps → CString
  | .none => "none"
  | .addVlan => "add"
  | .delVlan => "del"

/-- `append_vlan_value`. -/
def appendVlanValue (output : CString) (ope : PortOps) (vid pcp : ℤ) : CString :=
  appendJsonIntValue (appendJsonIntValue
    (appendJsonStrValue output "operation" (portAbilityStat ope)) "id" vid)
    "pcp" pcp

/-- The operation that is shown: the first one of the attributes. -/
def shownAttrs (attrs : Fin portCapablMax → PortAttrs) : PortAttrs :=
  match (List.finRange portCapablMax).find? fun i => (attrs i).ops ≠ .none with
  | some i => attrs i
  | none => .zero

/-- `append_vlan_block`. -/
def appendVlanBlock (name output : CString) (attrs : Fin portCapablMax → PortAttrs) : CString :=
  let a := shownAttrs attrs
  appendJsonBlockBrackets output name (appendVlanValue [] a.ops a.vlantag.vid a.vlantag.pcp)

/-- `get_ethdev_port_id`. -/
def getEthdevPortId (port : PortIdx) : Except Fault ℤ := do
  match ← getSppwkPort P port.ifaceType port.ifaceNo port.queueNo with
  | none => .ok (-1)
  | some r => .ok (m.iface r).ethdevPortId

/-- `sppwk_get_port_attrs`, with the bounds of its table. -/
def sppwkGetPortAttrs (portId : ℤ) (dir : PortDir) : Except Fault (Fin portCapablMax → PortAttrs) :=
  if 0 ≤ portId ∧ portId < P.maxEthports then .ok (cap.getPortAttrs portId.toNat dir)
  else .error .undefined

/-- `append_port_block`. -/
def appendPortBlock (dir : PortDir) (output : CString) (port : PortIdx) : Except Fault CString := do
  let portStr ← sppwkPortUid P port
  let portId ← getEthdevPortId P m port
  let attrs ← sppwkGetPortAttrs P cap portId dir
  .ok (appendJsonBlockBrackets output []
    (appendVlanBlock "vlan" (appendJsonStrValue [] "port" portStr) attrs))

/-- `append_port_array`. -/
def appendPortArray (name output : CString) (ports : List PortIdx) (dir : PortDir) :
    Except Fault CString := do
  let tmp ← ports.foldlM (appendPortBlock P m cap dir) []
  .ok (appendJsonArrayBrackets output name tmp)

/-! ## Components -/

/-- What `append_core_element_value` is called with. -/
structure CoreElement where
  lcoreId : ℕ
  name : CString
  type : CString
  rxPorts : List PortIdx
  txPorts : List PortIdx

/-- `SPPWK_TYPE_NONE_STR`. -/
def typeNoneStr : CString := "unuse"

/-- `append_core_element_value`. -/
def appendCoreElementValue (output : CString) (e : CoreElement) : Except Fault CString := do
  let core := appendJsonUintValue [] "core" e.lcoreId
  if e.type = typeNoneStr then
    .ok (appendJsonBlockBrackets output [] (appendJsonStrValue core "type" e.type))
  else do
    let named := appendJsonStrValue (appendJsonStrValue core "name" e.name)
      "type" e.type
    let rx ← appendPortArray P m cap "rx_port" named e.rxPorts .rx
    let tx ← appendPortArray P m cap "tx_port" rx e.txPorts .tx
    .ok (appendJsonBlockBrackets output [] tx)

/-! ## The process -/

/-- `add_client_id`. -/
def addClientId (clientId : ℤ) (name output : CString) : Except Fault (Option CString) :=
  .ok (some (appendJsonIntValue output name clientId))

/-- `add_master_lcore`. -/
def addMasterLcore (name output : CString) : Except Fault (Option CString) :=
  .ok (some (appendJsonIntValue output name P.master))

end SoftPatchPanel.Worker
