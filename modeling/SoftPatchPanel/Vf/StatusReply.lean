import SoftPatchPanel.Worker.CmdResFormatter

/-!
# `exec_cmds`: a request and its reply

The status of a component is read off the table its worker runs: the side `ref_index`
of `g_forward_info` or of `cls_mng_info_list`.  `get_forwarder_status` fails on a table
without a type and `get_classifier_status` on a table that is not in use; then the
whole status cannot be made, and `send_result_spp_ctl` returns without sending
anything.

`exec_cmds` parses a request, executes it and sends the reply.  The messages that it
sends are part of the result here.  Calls of the allocator and of `send` succeed.
-/

namespace SoftPatchPanel.Vf

open Worker Shared

/-! ## The status of a component -/

/-- The port that a copy in a table stands for. -/
def portIdxOf (port : PortInfo) : PortIdx := ⟨port.ifaceType, port.ifaceNo, port.queueNo⟩

/-- `get_forwarder_status`: what it hands to `append_core_element_value`. -/
def getForwarderStatus (s : State) (lcoreId id : ℕ) : Option CoreElement :=
  let path := (s.path id).ref
  if path.wkType = .none then none
  else some
    { lcoreId := lcoreId
      name := path.name
      type := if path.wkType = .mrg then "merge" else "forward"
      rxPorts := (List.range path.nofRx).map fun cnt => portIdxOf (path.ports cnt).rx
      txPorts := (List.range path.nofTx).map fun cnt => portIdxOf (path.ports cnt).tx }

/-- The rx port of a classifier, if it has one. -/
def ClsCompInfo.rxPorts (cmp : ClsCompInfo) : List PortIdx :=
  if cmp.rxPortI.ifaceType = .undef then []
  else [⟨cmp.rxPortI.ifaceType, cmp.rxPortI.ifaceNoGlobal, cmp.rxPortI.queueNo⟩]

/-- `get_classifier_status`. -/
def getClassifierStatus (s : State) (lcoreId id : ℕ) : Option CoreElement :=
  let g := s.cls id
  if g.isUsed then some
    { lcoreId := lcoreId
      name := g.ref.name
      type := "classifier"
      rxPorts := g.ref.rxPorts
      txPorts := (List.range g.ref.nofTxPorts).map g.ref.portIdx }
  else none

/-- The status of a component, by the type in its slot. -/
def componentStatus (s : State) (lcoreId id : ℕ) : Option CoreElement :=
  if (s.mng.comp id).wkType = .cls then getClassifierStatus s lcoreId id
  else getForwarderStatus s lcoreId id

/-- The elements of one lcore. -/
def lcoreElements (s : State) (lcoreId : ℕ) : List (Option CoreElement) :=
  let core := (s.mng.core lcoreId).ref
  if (s.mng.core lcoreId).status = .unused then []
  else if core.num = 0 then [some ⟨lcoreId, [], typeNoneStr, [], []⟩]
  else core.ids.map (componentStatus s lcoreId)

variable (P : Platform)

/-- The lcores that `RTE_LCORE_FOREACH_SLAVE` enumerates. -/
def slaves : List ℕ := (List.range P.maxLcore).filter P.slave

/-- `iterate_lcore_info`, over the elements still to do. -/
def iterateLcoreInfo (s : State) :
    List (Option CoreElement) → CString → Except Fault (Option CString)
  | [], output => .ok (some output)
  | none :: _, _ => .ok none
  | some e :: rest, output => do
    let output ← appendCoreElementValue P s.mng s.cap output e
    iterateLcoreInfo s rest output

/-- `add_core`. -/
def addCore (s : State) (name output : CString) : Except Fault (Option CString) := do
  match ← iterateLcoreInfo P s ((slaves P).flatMap (lcoreElements s)) [] with
  | none => .ok none
  | some tmp => .ok (some (appendJsonArrayBrackets output name tmp))

/-! ## The classifier table -/

/-- The text of an address, whose first byte is the least significant one. -/
def etherFormatAddr (mac : MacAddr) : CString :=
  rteEtherFormatAddr ((List.range 6).map fun i => (mac >>> (8 * i)).setWidth 8)

/-- `CLS_TYPE_A_LIST`. -/
def clsTypeStr : ClsType → CString
  | .none => "none"
  | .mac => "mac"
  | .vlan => "vlan"

/-- The type that `add_mac_entry` gives the entries of a VLAN id. -/
def clsTypeOf (vid : ℕ) : ClsType := if vid = vlanUntaggedVid then .mac else .vlan

/-- The address of an entry as it is printed. -/
def macStr (mac : Option MacAddr) : CString :=
  match mac with
  | none => "default"
  | some mac => etherFormatAddr mac

/-- The value of an entry as it is printed. -/
def clsValueStr (clsType : ClsType) (vid : ℕ) (mac : CString) : CString :=
  match clsType with
  | .none => []
  | .mac => mac
  | .vlan => intText vid ++ "/" ++ mac

/-- `append_classifier_element_value`. -/
def appendClassifierElementValue (output : CString) (e : ClsEntry) : Except Fault CString := do
  let portStr ← sppwkPortUid P e.port
  let value := clsValueStr (clsTypeOf e.vid) e.vid (macStr e.mac)
  if strLenShort ≤ value.length then .error .undefined
  else .ok (appendJsonBlockBrackets output [] (appendJsonStrValue (appendJsonStrValue
    (appendJsonStrValue [] "type" (clsTypeStr (clsTypeOf e.vid))) "value" value)
    "port" portStr))

/-- `add_classifier_table`. -/
def addClassifierTableText (s : State) (name output : CString) : Except Fault (Option CString) := do
  let tmp ← (addClassifierTable P s.cls).foldlM (appendClassifierElementValue P) []
  .ok (some (appendJsonArrayBrackets output name tmp))

/-! ## Replies -/

variable (clientId : ℤ)

/-- `get_status_ops`. -/
def getStatusOps (s : State) : List ResFormatterOps :=
  [("client-id", addClientId clientId), ("phy", addInterface P s.mng),
    ("vhost", addInterface P s.mng), ("ring", addInterface P s.mng),
    ("master-lcore", addMasterLcore P), ("core", addCore P s),
    ("classifier_table", addClassifierTableText P s)]

/-- `append_info_value`. -/
def appendInfoValue (s : State) (name output : CString) : Except Fault (Option CString) := do
  match ← appendResponseListValue (getStatusOps P clientId s) [] with
  | none => .ok none
  | some tmp => .ok (some (appendJsonBlockBrackets output name tmp))

/-- The members of a reply behind the results. -/
def appendAnswer (s : State) (cmd : CmdAttrs) (output : CString) : Except Fault (Option CString) :=
  match cmd with
  | .clientId => .ok (some (appendJsonStrValue (appendJsonIntValue output "client_id"
      clientId) "process_type" "vf"))
  | .status => appendInfoValue P clientId s "info" output
  | _ => .ok (some output)

/-- `send_result_spp_ctl`: the messages that are sent. -/
def sendResultSppCtl (s : State) (cmd : CmdAttrs) (result : CmdResult) :
    Except Fault (List CString) := do
  match ← appendCommandResultsValue "results" [] result with
  | none => .ok []
  | some tmp =>
    match ← appendAnswer P clientId s cmd tmp with
    | none => .ok []
    | some tmp => .ok [appendJsonBlockBrackets [] [] tmp]

/-- `prepare_parse_err_msg` and `send_decode_error_response`. -/
def sendDecodeErrorResponse (err : ParseErrMsg) : Except Fault (List CString) := do
  match ← appendCommandResultsValue "results" []
      (setCmdResult .failed (getParseErrMsg err)) with
  | none => .ok []
  | some tmp => .ok [appendJsonBlockBrackets [] [] tmp]

/-- What a call of `exec_cmds` comes to. -/
structure ExecResult where
  ret : Ret
  sent : List CString
  state : State

/-- `exec_cmds`. -/
def execCmds (s : State) (e : Request) : Except Fault ExecResult := do
  match ← parseWkCmd P s.mng e.str with
  | .error err => do
    let sent ← sendDecodeErrorResponse err
    .ok ⟨.ok, sent, s⟩
  | .ok cmd => do
    let r ← execOneCmd P e.env s cmd
    let result := if r.1 = .ok ∨ cmd = .exit then setCmdResult .success []
      else setCmdResult .failed "error occur"
    let sent ← sendResultSppCtl P clientId r.2 cmd result
    .ok ⟨if cmd = .exit then .ng else .ok, sent, r.2⟩

/-- What `recv_ctl_msg` finds on the socket. -/
inductive Received where
  /-- There is no connection yet. -/
  | unconnected
  /-- Nothing has arrived. -/
  | nothing
  /-- The controller has closed the connection. -/
  | closed
  /-- A request. -/
  | message (e : Request)

/-- `sppwk_run_cmd`; the main loop ends when it does not return `SPPWK_RET_OK`. -/
def sppwkRunCmd (s : State) : Received → Except Fault ExecResult
  | .message e => execCmds P clientId s e
  | _ => .ok ⟨.ok, [], s⟩

/-- The state after `exec_cmds` is the one of the run. -/
theorem handleRequest_of_execCmds {s : State} {e : Request} {r : ExecResult}
    (h : execCmds P clientId s e = .ok r) : handleRequest P s e = some r.state := by
  obtain ⟨p, hparse, h⟩ := Transition.bind_eq_ok.mp h
  unfold handleRequest
  rw [hparse]
  cases p with
  | error err =>
    obtain ⟨sent, -, h⟩ := Transition.bind_eq_ok.mp h
    cases h
    rfl
  | ok cmd =>
    obtain ⟨r₁, hexec, h⟩ := Transition.bind_eq_ok.mp h
    obtain ⟨sent, -, h⟩ := Transition.bind_eq_ok.mp h
    cases h
    simp only [hexec]

end SoftPatchPanel.Vf
