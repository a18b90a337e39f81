import SoftPatchPanel.Foundation.Scan
import SoftPatchPanel.Shared.PortManager
import SoftPatchPanel.Shared.ResourceUid

/-!
# The flow commands of `spp_primary`

`parse_command` splits a message at blanks into `token_list`, and `parse_flow` reads a rule
from it: attributes, the items of a pattern, and actions.  This file is the loop of
`parse_command`, `attr.c`, and the parsers of `flow.c` and `common.c`.

The parsers share an index into `token_list`, and the list ends with a null pointer.  Each
of them moves the index past what it expects to be there: an item is expected to end with
a slash, the pattern and the actions with the word `end`.  So `tokenAt` is undefined behind
the null pointer, `strcmp` and the conversions are undefined on it, and the model returns
what the driver and `free_flow_args` are given, so that it can be said of them that the
arrays end where they have to.

`Sound` says of the tokens what the code takes for granted.  It reads the list from the
front, part by part, without an index.  `indexSafe_iff` is the main result: a flow command
is harmless exactly if its tokens are sound.

Memory is taken not to run out, and of the values of the fields the model has only whether
they are accepted.
-/

namespace SoftPatchPanel.Primary
namespace FlowParser

open Worker (Fault Ret)
open Shared
open Scan

/-- What depends on the driver and on the memory: what `strtok` finds behind the end of the
buffer of an address that does not fit, whether a rule is created in a port, and which ports
are attached. -/
structure Env where
  overread : CString → Bool
  flowCreated : ℕ → Bool
  attached : ℕ → Bool

/-! ## The tokens -/

/-- `MAX_PARAMETER`, the size of `token_list`. -/
def maxParameter : ℕ := 48

/-- `NOF_TOKENS`, the size of `sec_args`. -/
def nofTokens : ℕ := 48

/-- The size of `sec_name`. -/
def secNameSize : ℕ := 16

/-- The loop of `parse_command` that fills `token_list`, and for other commands `sec_name`
and `sec_args`: the tokens from the given index on, with the null pointer that ends the
list. -/
def tokenise : ℕ → List CString → Except Fault Unit
  | maxToken, [] => if maxParameter ≤ maxToken then .error .undefined else .ok ()
  | maxToken, tok :: toks =>
    if maxParameter ≤ maxToken then .error .undefined
    else if maxToken = 2 ∧ secNameSize ≤ tok.length then .error .undefined
    else if 2 < maxToken ∧ nofTokens ≤ maxToken - 3 then .error .undefined
    else tokenise (maxToken + 1) toks

/-- `token_list[index]`; `none` is the null pointer at the end of the list. -/
def tokenAt (toks : List CString) (index : ℕ) : Except Fault (Option CString) :=
  if index ≤ toks.length then .ok toks[index]? else .error .undefined

/-- `!strcmp(token, word)`. -/
def strcmp (token : Option CString) (word : CString) : Except Fault Bool :=
  match token with
  | some t => .ok (t = word)
  | none => .error .undefined

/-! ## Values -/

/-- `strtoul(s, &end, base)` with the test of `end`: the whole text is a number. -/
def wholeNumber (base : ℕ) (s : CString) : Option ℕ :=
  match CString.strtoul base s with
  | some (n, []) => some n
  | some _ => none
  | none => if s = [] then some 0 else none

/-- `str_to_rte_ether_addr`.  The address is copied into 32 characters. -/
def strToRteEtherAddr (env : Env) (s : CString) : Bool :=
  if s.length < 32 then
    decide ((CString.tokens ':' s).length ≤ 6) &&
      (CString.tokens ':' s).all fun t => (wholeNumber 16 t).isSome
  else env.overread s

/-- A conversion that takes a number up to a bound, after it has been cut down to a number
of bits. -/
def strToBounded (bits bound : ℕ) (_ : Env) (s : CString) : Bool :=
  (wholeNumber 0 s).any fun n => n % 2 ^ bits ≤ bound

/-- `str_to_tci`. -/
def strToTci : Env → CString → Bool := strToBounded 16 (2 ^ 16 - 1)

/-- `str_to_pcp`. -/
def strToPcp : Env → CString → Bool := strToBounded 8 0x7

/-- `set_pcp_in_tci`. -/
def setPcpInTci : Env → CString → Bool := strToPcp

/-- `set_dei_in_tci`. -/
def setDeiInTci : Env → CString → Bool := strToBounded 8 0x1

/-- `set_vid_in_tci`. -/
def setVidInTci : Env → CString → Bool := strToBounded 16 0x0fff

/-- `str_to_rte_be16_t`. -/
def strToRteBe16 : Env → CString → Bool := strToBounded 16 (2 ^ 16 - 1)

/-- `str_to_uint16_t`. -/
def strToUint16 : Env → CString → Bool := strToBounded 16 (2 ^ 16 - 1)

/-- `str_to_uint32_t`. -/
def strToUint32 : Env → CString → Bool := strToBounded 32 (2 ^ 32 - 1)

/-! ## The tables -/

/-- `struct flow_detail_ops`.  What there is of `parse_detail` depends on what is modelled of the
values. -/
structure DetailOps (V : Type) where
  token : CString
  offset : ℕ
  size : ℕ
  flgValue : Bool
  parseDetail : V

/-- The functions that the tables of the items have as `parse_detail`. -/
structure Conversions (V : Type) where
  strToRteEtherAddr : V
  strToTci : V
  setPcpInTci : V
  setDeiInTci : V
  setVidInTci : V
  strToRteBe16 : V

/-- `eth_ops_list`. -/
def ethOpsList {V : Type} (c : Conversions V) : List (DetailOps V) :=
  [⟨"src", 6, 6, true, c.strToRteEtherAddr⟩, ⟨"dst", 0, 6, true, c.strToRteEtherAddr⟩,
    ⟨"type", 12, 2, true, c.strToRteBe16⟩]

/-- `vlan_ops_list`. -/
def vlanOpsList {V : Type} (c : Conversions V) : List (DetailOps V) :=
  [⟨"tci", 0, 2, true, c.strToTci⟩, ⟨"pcp", 0, 2, true, c.setPcpInTci⟩,
    ⟨"dei", 0, 2, true, c.setDeiInTci⟩, ⟨"vid", 0, 2, true, c.setVidInTci⟩,
    ⟨"inner_type", 2, 2, true, c.strToRteBe16⟩]

/-- Whether a value is accepted. -/
abbrev Check := Env → CString → Bool

/-- The conversions as checks. -/
def checks : Conversions Check :=
  ⟨strToRteEtherAddr, strToTci, setPcpInTci, setDeiInTci, setVidInTci, strToRteBe16⟩

/-- `jump_ops_list`. -/
def jumpOpsList : List (DetailOps Check) := [⟨"group", 0, 4, true, strToUint32⟩]

/-- `queue_ops_list`. -/
def queueOpsList : List (DetailOps Check) := [⟨"index", 0, 2, true, strToUint16⟩]

/-- `of_push_vlan_ops_list`. -/
def ofPushVlanOpsList : List (DetailOps Check) := [⟨"ethertype", 0, 2, true, strToRteBe16⟩]

/-- `of_set_vlan_vid_ops_list`. -/
def ofSetVlanVidOpsList : List (DetailOps Check) := [⟨"vlan_vid", 0, 2, true, strToRteBe16⟩]

/-- `of_set_vlan_pcp_ops_list`. -/
def ofSetVlanPcpOpsList : List (DetailOps Check) := [⟨"vlan_pcp", 0, 1, true, strToPcp⟩]

/-- `enum rte_flow_item_type`, as far as it is used; the last one is
`RTE_FLOW_ITEM_TYPE_END`. -/
inductive ItemType where
  | eth | vlan | endItem
  deriving DecidableEq

/-- `enum rte_flow_action_type`, as far as it is used; the last one is
`RTE_FLOW_ACTION_TYPE_END`. -/
inductive ActionType where
  | jump | queue | ofPopVlan | ofPushVlan | ofSetVlanVid | ofSetVlanPcp | endAction
  deriving DecidableEq

/-- `struct flow_item_ops` and `struct flow_action_ops`.  There is a list of details exactly
if there is a function that parses them. -/
structure PartOps (K : Type) where
  strType : CString
  type : K
  detailList : Option (List (DetailOps Check))

/-- `flow_item_ops_list`. -/
def flowItemOpsList : List (PartOps ItemType) :=
  [⟨"end", .endItem, none⟩, ⟨"eth", .eth, some (ethOpsList checks)⟩,
    ⟨"vlan", .vlan, some (vlanOpsList checks)⟩]

/-- `flow_action_ops_list`. -/
def flowActionOpsList : List (PartOps ActionType) :=
  [⟨"end", .endAction, none⟩, ⟨"jump", .jump, some jumpOpsList⟩,
    ⟨"queue", .queue, some queueOpsList⟩, ⟨"of_pop_vlan", .ofPopVlan, none⟩,
    ⟨"of_push_vlan", .ofPushVlan, some ofPushVlanOpsList⟩,
    ⟨"of_set_vlan_vid", .ofSetVlanVid, some ofSetVlanVidOpsList⟩,
    ⟨"of_set_vlan_pcp", .ofSetVlanPcp, some ofSetVlanPcpOpsList⟩]

/-- `struct rte_flow_attr`. -/
structure FlowAttr where
  group : ℕ
  priority : ℕ
  ingress : Bool
  egress : Bool
  transfer : Bool
  deriving DecidableEq

/-- `struct rte_flow_item`, with which of its three pointers are not null. -/
structure FlowItem where
  type : ItemType
  spec : Bool
  last : Bool
  mask : Bool
  deriving DecidableEq

/-- `struct rte_flow_action`, with whether its pointer is not null. -/
structure FlowAction where
  type : ActionType
  conf : Bool
  deriving DecidableEq

/-- The words that a value of an item is given with. -/
inductive Kind where
  | isValue | specValue | lastValue | maskValue | leading
  deriving DecidableEq

/-- As they are written. -/
def Kind.word : Kind → CString
  | .isValue => "is"
  | .specValue => "spec"
  | .lastValue => "last"
  | .maskValue => "mask"
  | .leading => "prefix"

/-! ## The parsers -/

section

variable (env : Env) (toks : List CString)

/-- `token_list[index]` is taken as a value, which the null pointer is not. -/
def valueAt {σ : Type} (put : CString → σ → Except Fault (Option σ)) (index : ℕ) (s : σ) :
    Except Fault (Option (ℕ × σ)) := do
  match ← tokenAt toks index with
  | none => .error .undefined
  | some value =>
    let s ← put value s
    .ok (s.map fun s => (index, s))

/-- `parse_rte_flow_item_field`, with what becomes of an item when it is given a value with one of
the words: the new index and the item; `none` is an error. -/
def parseRteFlowItemField {σ : Type} (put : Kind → CString → σ → Except Fault (Option σ))
    (index : ℕ) (item : σ) : Except Fault (Option (ℕ × σ)) := do
  let word ← tokenAt toks index
  if ← strcmp word "is" then valueAt toks (put .isValue) (index + 1) item
  else if ← strcmp word "spec" then valueAt toks (put .specValue) (index + 1) item
  else if ← strcmp word "last" then valueAt toks (put .lastValue) (index + 1) item
  else if ← strcmp word "mask" then valueAt toks (put .maskValue) (index + 1) item
  else if ← strcmp word "prefix" then valueAt toks (put .leading) (index + 1) item
  else .ok none

/-- The loops of `parse_item_common` and `parse_action_common`, which differ in what they read
behind the name of a field. -/
def parseCommonLoop {V σ : Type} (details : List (DetailOps V))
    (value : DetailOps V → ℕ → σ → Except Fault (Option (ℕ × σ))) :
    ℕ → ℕ → σ → Except Fault (Option (ℕ × σ))
  | 0, _, _ => .error .blocked
  | fuel + 1, index, s => do
    match ← tokenAt toks index with
    | none => .ok (some (index, s))
    | some token =>
      if token = "/" then .ok (some (index, s))
      else
        match details.find? (·.token = token) with
        | none => .ok none
        | some d =>
          if d.flgValue then
            match ← value d (index + 1) s with
            | none => .ok none
            | some (index, s) => parseCommonLoop details value fuel (index + 1) s
          else parseCommonLoop details value fuel (index + 1) s

/-- The number of rounds that a loop over `token_list` is given. -/
def rounds : ℕ := toks.length + 1

/-- `parse_item_common`, from behind the word for the item on. -/
def parseItemCommon {V σ : Type}
    (put : DetailOps V → Kind → CString → σ → Except Fault (Option σ))
    (details : List (DetailOps V)) : ℕ → σ → Except Fault (Option (ℕ × σ)) :=
  parseCommonLoop toks details (fun d => parseRteFlowItemField toks (put d)) (rounds toks)

/-- `parse_action_common`, from behind the word for the action on. -/
def parseActionCommon (details : List (DetailOps Check)) :
    ℕ → FlowAction → Except Fault (Option (ℕ × FlowAction)) :=
  parseCommonLoop toks details (fun d => valueAt toks fun value action =>
    .ok (if d.parseDetail env value then some action else none)) (rounds toks)

/-- Whether the number behind `prefix` is one, and not greater than the number of bits. -/
def prefixFits {V : Type} (d : DetailOps V) (value : CString) : Bool :=
  (wholeNumber 10 value).any fun n => n % 2 ^ 32 ≤ d.size * 8

/-- The pointers that are not null once a value has been given. -/
def FlowItem.allocate (item : FlowItem) : Kind → FlowItem
  | .isValue => { item with spec := true, mask := true }
  | .specValue => { item with spec := true }
  | .lastValue => { item with last := true }
  | .maskValue | .leading => { item with mask := true }

/-- An item of which it is only known which pointers are null is given a value. -/
def DetailOps.allocate (d : DetailOps Check) (k : Kind) (value : CString) (item : FlowItem) :
    Except Fault (Option FlowItem) :=
  let fits := if k = .leading then prefixFits d value else d.parseDetail env value
  .ok (if fits then some (item.allocate k) else none)

/-- `ops->parse` of an item, if it has one. -/
def parseItem (ops : PartOps ItemType) (index : ℕ) : Except Fault (Option (ℕ × FlowItem)) :=
  let item : FlowItem := ⟨ops.type, false, false, false⟩
  match ops.detailList with
  | none => .ok (some (index, item))
  | some details => parseItemCommon toks (DetailOps.allocate env) details (index + 1) item

/-- `ops->parse` of an action; without one the index is moved. -/
def parseAction (ops : PartOps ActionType) (index : ℕ) : Except Fault (Option (ℕ × FlowAction)) :=
  match ops.detailList with
  | none => .ok (some (index + 1, ⟨ops.type, false⟩))
  | some details => parseActionCommon env toks details (index + 1) ⟨ops.type, true⟩

/-- The loops of `parse_flow_pattern` and `parse_flow_actions`, which differ in the table and
in the function that parses a part: whether they succeed, the index, and the array.  An empty
list is a null pointer. -/
def parsePartsLoop {K I : Type} (opsList : List (PartOps K))
    (parse : PartOps K → ℕ → Except Fault (Option (ℕ × I))) :
    ℕ → ℕ → List I → Except Fault (Bool × ℕ × List I)
  | 0, _, _ => .error .blocked
  | fuel + 1, index, parts => do
    match ← tokenAt toks index with
    | none => .ok (true, index, parts)
    | some token =>
      match opsList.find? (·.strType = token) with
      | none => .ok (false, index, parts)
      | some ops =>
        match ← parse ops index with
        | none => .ok (false, index, parts)
        | some (index, part) =>
          if token = "end" then .ok (true, index, parts ++ [part])
          else parsePartsLoop opsList parse fuel (index + 1) (parts ++ [part])

/-- `parse_flow_pattern`. -/
def parseFlowPattern (index : ℕ) : Except Fault (Bool × ℕ × List FlowItem) :=
  parsePartsLoop toks flowItemOpsList (parseItem env toks) (rounds toks) index []

/-- `parse_flow_actions`. -/
def parseFlowActions (index : ℕ) : Except Fault (Bool × List FlowAction) := do
  if ← strcmp (← tokenAt toks index) "actions" then
    let (ret, _, actions) ←
      parsePartsLoop toks flowActionOpsList (parseAction env toks) (rounds toks) (index + 1) []
    .ok (ret, actions)
  else .ok (false, [])

/-- The loop of `parse_flow_attr`; `none` is an error. -/
def parseAttrLoop : ℕ → ℕ → FlowAttr → Except Fault (Option (ℕ × FlowAttr))
  | 0, _, _ => .error .blocked
  | fuel + 1, index, attr => do
    match ← tokenAt toks index with
    | none => .ok none
    | some token =>
      if token = "group" then
        match ← tokenAt toks (index + 1) with
        | none => .ok none
        | some value =>
          match wholeNumber 10 value with
          | none => .ok none
          | some n => parseAttrLoop fuel (index + 2) { attr with group := n % 2 ^ 32 }
      else if token = "priority" then
        match ← tokenAt toks (index + 1) with
        | none => .ok none
        | some value =>
          match wholeNumber 10 value with
          | none => .ok none
          | some n => parseAttrLoop fuel (index + 2) { attr with priority := n % 2 ^ 32 }
      else if token = "ingress" then
        parseAttrLoop fuel (index + 1) { attr with ingress := true }
      else if token = "egress" then
        parseAttrLoop fuel (index + 1) { attr with egress := true }
      else if token = "transfer" then
        parseAttrLoop fuel (index + 1) { attr with transfer := true }
      else if token = "pattern" then .ok (some (index, attr))
      else .ok none

/-- `parse_flow_attr`. -/
def parseFlowAttr (index : ℕ) : Except Fault (Option (ℕ × FlowAttr)) :=
  parseAttrLoop toks (rounds toks) index ⟨0, 0, false, false, false⟩

/-- `parse_phy_port_id`. -/
def parsePhyPortId (resUid : Option CString) : Except Fault (Option ℤ) :=
  match resUid with
  | none => .ok none
  | some uid => do
    let r ← parseResourceUid (some uid)
    .ok (if r.ret = .ok ∧ r.portType = some "phy".toList then r.portId else none)

/-! ## The commands -/

/-- `enum flow_command`. -/
inductive FlowCommand where
  | validate | create | destroy | flush
  deriving DecidableEq

/-- `struct flow_args`. -/
structure FlowArgs where
  command : FlowCommand
  portId : ℤ
  attr : FlowAttr
  pattern : List FlowItem
  actions : List FlowAction
  ruleId : ℕ
  deriving DecidableEq

/-- Zeroed arguments. -/
def FlowArgs.zero : FlowArgs := ⟨.validate, 0, ⟨0, 0, false, false, false⟩, [], [], 0⟩

/-- `parse_flow_rule`: whether it succeeds, and what it has stored. -/
def parseFlowRule (input : FlowArgs) : Except Fault (Bool × FlowArgs) := do
  match ← parsePhyPortId (← tokenAt toks 2) with
  | none => .ok (false, input)
  | some portId =>
    match ← parseFlowAttr toks 3 with
    | none => .ok (false, { input with portId := portId })
    | some (index, attr) =>
      let (ret, index, pattern) ← parseFlowPattern env toks (index + 1)
      let input := { input with portId := portId, attr := attr, pattern := pattern }
      if ret then
        let (ret, actions) ← parseFlowActions env toks (index + 1)
        .ok (ret, { input with actions := actions })
      else .ok (false, input)

/-- `parse_flow_destroy`. -/
def parseFlowDestroy (input : FlowArgs) : Except Fault (Bool × FlowArgs) := do
  match ← parsePhyPortId (← tokenAt toks 2) with
  | none => .ok (false, input)
  | some portId =>
    match ← tokenAt toks 3 with
    | none => .ok (false, { input with portId := portId })
    | some rule =>
      if rule = "ALL" then .ok (true, { input with command := .flush, portId := portId })
      else
        let ruleId := ((CString.strtoul 10 rule).map (·.1 % 2 ^ 32)).getD 0
        .ok (true, { input with command := .destroy, portId := portId, ruleId := ruleId })

/-- The calls that are of interest: those that are given the arrays of a rule, and the uses
of an index into `port_list`. -/
inductive Call where
  | rteFlowValidate (pattern : List FlowItem) (actions : List FlowAction)
  | rteFlowCreate (pattern : List FlowItem) (actions : List FlowAction)
  | freeFlowArgs (pattern : List FlowItem) (actions : List FlowAction)
  | portList (portId : ℤ)
  deriving DecidableEq

variable (L : Limits)

/-- `is_portid_used`. -/
def isPortidUsed (portId : ℤ) : Bool :=
  (List.range L.maxEthports).any fun pid => env.attached pid && decide ((pid : ℤ) = portId)

/-- `exec_flow`.  `rte_flow_create` takes the number of the port as a `uint16_t`. -/
def execFlow (input : FlowArgs) : List Call :=
  match input.command with
  | .validate => [.rteFlowValidate input.pattern input.actions,
      .freeFlowArgs input.pattern input.actions]
  | .create => .rteFlowCreate input.pattern input.actions ::
      ((if env.flowCreated (uint16OfLong input.portId) then [.portList input.portId] else []) ++
        [.freeFlowArgs input.pattern input.actions])
  | .destroy | .flush => if isPortidUsed env L input.portId then [.portList input.portId] else []

/-- The first part of `parse_flow`: the parser that belongs to the command. -/
def parseFlowArgs (command : CString) : Except Fault (Bool × FlowArgs) :=
  if command = "validate" then parseFlowRule env toks .zero
  else if command = "create" then
    parseFlowRule env toks { FlowArgs.zero with command := .create }
  else if command = "destroy" then parseFlowDestroy toks .zero
  else .ok (false, .zero)

/-- The second part of `parse_flow`: the command is executed, or the arguments are freed. -/
def finish (r : Bool × FlowArgs) : List Call :=
  if r.1 then execFlow env L r.2 else [.freeFlowArgs r.2.pattern r.2.actions]

/-- `parse_flow`: the calls that it makes. -/
def parseFlow : Except Fault (List Call) := do
  match ← tokenAt toks 1 with
  | none => .ok (finish env L (false, .zero))
  | some command =>
    let r ← parseFlowArgs env toks command
    .ok (finish env L r)

/-- `parse_command` on a message whose first token is `flow`. -/
def flowCommand (str : CString) : Except Fault (List Call) := do
  tokenise 0 (CString.tokens ' ' str)
  parseFlow env (CString.tokens ' ' str) L

end

/-! ## Harmless commands -/

/-- An array whose only `END` element is its last one. -/
def Terminated {I : Type} (isEnd : I → Prop) (array : List I) : Prop :=
  ∃ parts e, array = parts ++ [e] ∧ isEnd e ∧ ∀ p ∈ parts, ¬ isEnd p

/-- The item ends a pattern. -/
def FlowItem.IsEnd (item : FlowItem) : Prop := item.type = .endItem

/-- The action ends a list of actions. -/
def FlowAction.IsEnd (action : FlowAction) : Prop := action.type = .endAction

/-- What a call may be given. -/
def Call.Good (L : Limits) : Call → Prop
  | .rteFlowValidate pattern actions | .rteFlowCreate pattern actions =>
    Terminated FlowItem.IsEnd pattern ∧ Terminated FlowAction.IsEnd actions
  | .freeFlowArgs pattern actions =>
    (pattern = [] ∨ Terminated FlowItem.IsEnd pattern) ∧
      (actions = [] ∨ Terminated FlowAction.IsEnd actions)
  | .portList portId => 0 ≤ portId ∧ portId < L.maxEthports

/-- **A command is harmless**: no index leaves its array, no null pointer is read, and what
the driver and `free_flow_args` are given ends where it has to. -/
def IndexSafe (env : Env) (L : Limits) (str : CString) : Prop :=
  ∃ calls, flowCommand env L str = .ok calls ∧ ∀ c ∈ calls, c.Good L

/-! ## Reading the list from the front -/

/-- The words that a value of a pattern item is given with. -/
def fieldWords : List CString :=
  ["is", "spec", "last", "mask", "prefix"]

/-- Whether the value behind a word is accepted. -/
def valueFits (env : Env) (d : DetailOps Check) (word value : CString) : Bool :=
  if word = "prefix" then prefixFits d value else d.parseDetail env value

/-- A value. -/
def oneValue (fits : CString → Bool) : List CString → Step CString
  | [] => .cut
  | value :: rest => if fits value then .more rest else .refused

/-- A word and a value. -/
def valueStep (env : Env) (d : DetailOps Check) : List CString → Step CString
  | [] => .cut
  | word :: rest =>
    if word ∈ fieldWords then oneValue (valueFits env d word) rest else .refused

/-- A value alone. -/
def confStep (env : Env) (d : DetailOps Check) : List CString → Step CString :=
  oneValue (d.parseDetail env)

/-- A field of an item or an action, or the slash that ends it. -/
def detailStep (value : DetailOps Check → List CString → Step CString)
    (details : List (DetailOps Check)) :
    List CString → Step CString
  | [] => .cut
  | token :: rest =>
    if token = "/" then .done rest
    else
      match details.find? (·.token = token) with
      | none => .refused
      | some d => if d.flgValue then value d rest else .more rest

/-- What the fields of an item come to is what the item comes to. -/
def ofFields : Outcome CString → Step CString
  | .refused => .refused
  | .cut => .cut
  | .done rest => .more rest

/-- An item or an action, or the word `end`. -/
def partStep {K : Type} (opsList : List (PartOps K))
    (body : PartOps K → List CString → Step CString) : List CString → Step CString
  | [] => .cut
  | token :: rest =>
    match opsList.find? (·.strType = token) with
    | none => .refused
    | some ops => if token = "end" then .done rest else body ops rest

/-- What follows the name of an item. -/
def itemBody (env : Env) (ops : PartOps ItemType) (rest : List CString) : Step CString :=
  match ops.detailList with
  | none => .more rest
  | some details => ofFields (scan (detailStep (valueStep env) details) rest)

/-- **One item of a pattern.** -/
def itemStep (env : Env) : List CString → Step CString := partStep flowItemOpsList (itemBody env)

/-- What follows the name of an action; behind `of_pop_vlan` one token is skipped. -/
def actionBody (env : Env) (ops : PartOps ActionType) (rest : List CString) : Step CString :=
  match ops.detailList with
  | none =>
    match rest with
    | [] => .cut
    | _ :: rest => .more rest
  | some details => ofFields (scan (detailStep (confStep env) details) rest)

/-- **One action.** -/
def actionStep (env : Env) : List CString → Step CString :=
  partStep flowActionOpsList (actionBody env)

/-- **One attribute**, or the word `pattern`. -/
def attrStep : List CString → Step CString
  | [] => .refused
  | token :: rest =>
    if token = "group" ∨ token = "priority" then
      match rest with
      | [] => .refused
      | value :: rest => if (wholeNumber 10 value).isSome then .more rest else .refused
    else if token = "ingress" ∨ token = "egress" ∨ token = "transfer" then
      .more rest
    else if token = "pattern" then .done rest
    else .refused

/-- The tokens behind `actions`: the first action is refused, or one after the other is
read up to an `end`.  Then the rule is executed, for which something may be `needed`. -/
def ActionsSound (env : Env) (needed : Prop) (toks : List CString) : Prop :=
  actionStep env toks = .refused ∨ (needed ∧ ∃ rest, scan (actionStep env) toks = .done rest)

/-- The tokens behind `pattern`: the first item is refused, or one after the other is read
up to an `end`, something follows it, and if that is `actions` then it is followed by what
it has to. -/
def RuleSound (env : Env) (needed : Prop) (toks : List CString) : Prop :=
  itemStep env toks = .refused ∨ ∃ word rest, scan (itemStep env) toks = .done (word :: rest) ∧
    (word = "actions" → ActionsSound env needed rest)

/-- The resource UID has something on both sides of its colon. -/
def UidSound (uid : CString) : Prop := ':' ∈ uid → 2 ≤ (CString.tokens ':' uid).length

/-- The port that a resource UID names. -/
def phyPort (uid : CString) : Option ℤ :=
  match CString.tokens ':' uid with
  | type :: token :: _ =>
    let r := parseUidToken type token
    if ':' ∈ uid ∧ r.ret = .ok ∧ type = "phy" then r.portId else none
  | _ => none

/-- If a rule is created, the number of the port is an index into `port_list`. -/
def PortInRange (env : Env) (L : Limits) (command : CString) (port : ℤ) : Prop :=
  command = "create" → env.flowCreated (uint16OfLong port) = true →
    0 ≤ port ∧ port < L.maxEthports

/-- **What the code takes for granted**: there are at most 47 tokens; the third one has at
most 15 characters and, where it is read, is more than a colon with one side; and behind
the attributes of a rule the tokens are a rule, unless the first thing in it is refused. -/
def Sound (env : Env) (L : Limits) (toks : List CString) : Prop :=
  toks.length < maxParameter ∧
    match toks with
    | _ :: command :: uid :: rest => uid.length < secNameSize ∧
      (command ∈ ["validate".toList, "create".toList, "destroy".toList] → UidSound uid) ∧
      (command ∈ ["validate".toList, "create".toList] → ∀ port, phyPort uid = some port →
        ∀ rule, scan attrStep rest = .done rule →
          RuleSound env (PortInRange env L command port) rule)
    | _ => True

/-! ## Every part takes a token -/

/-- A reader of values does not take more than there is. -/
def Reads {K : Type} (body : K → List CString → Step CString) : Prop :=
  ∀ k l rest, (body k l).rest? = some rest → rest.length ≤ l.length

theorem length_of_oneValue {fits : CString → Bool} {l rest : List CString}
    (h : (oneValue fits l).rest? = some rest) : rest.length ≤ l.length := by
  cases l with
  | nil => cases h
  | cons value l =>
    simp only [oneValue] at h
    split at h
    · cases h
      exact Nat.le_succ _
    · cases h

theorem reads_valueStep (env : Env) : Reads (valueStep env) := by
  intro d l rest h
  cases l with
  | nil => cases h
  | cons word l =>
    simp only [valueStep] at h
    split at h
    · exact Nat.le_succ_of_le (length_of_oneValue h)
    · cases h

theorem reads_confStep (env : Env) : Reads (confStep env) := fun _ _ _ => length_of_oneValue

variable {value : DetailOps Check → List CString → Step CString} {details : List (DetailOps Check)}
  {rest toks : List CString} {env : Env} {index fuel : ℕ} {token uid word : CString}
  {d : DetailOps Check} {I : Type} {isEnd : I → Prop} {parts : List I} {L : Limits}
  {input : FlowArgs} {stop : ℕ → List CString → Prop}

theorem shrinks_detailStep
    (hvalue : Reads value) (details : List (DetailOps Check)) : Shrinks (detailStep value details) := by
  intro l rest h
  cases l with
  | nil => cases h
  | cons token l =>
    simp only [detailStep] at h
    repeat' split at h
    · cases h
      exact Nat.lt_succ_self _
    · cases h
    · exact Nat.lt_succ_of_le (hvalue _ _ _ h)
    · cases h
      exact Nat.lt_succ_self _

/-- The fields of an item or an action are a part of what follows its name. -/
theorem length_of_ofFields (hvalue : Reads value) {l : List CString}
    (h : (ofFields (scan (detailStep value details) l)).rest? = some rest) :
    rest.length ≤ l.length := by
  cases hscan : scan (detailStep value details) l with
  | refused | cut =>
    rw [hscan] at h
    cases h
  | done rest' =>
    rw [hscan] at h
    cases h
    exact Nat.le_of_lt (length_of_scan (shrinks_detailStep hvalue details) hscan)

theorem reads_itemBody (env : Env) : Reads (itemBody env) := by
  intro ops l rest h
  unfold itemBody at h
  split at h
  · cases h
    exact Nat.le_refl _
  · exact length_of_ofFields (reads_valueStep env) h

theorem reads_actionBody (env : Env) : Reads (actionBody env) := by
  intro ops l rest h
  unfold actionBody at h
  split at h
  · split at h
    · cases h
    · cases h
      exact Nat.le_succ _
  · exact length_of_ofFields (reads_confStep env) h

theorem shrinks_partStep {K : Type} (opsList : List (PartOps K))
    {body : PartOps K → List CString → Step CString} (hbody : Reads body) :
    Shrinks (partStep opsList body) := by
  intro l rest h
  cases l with
  | nil => cases h
  | cons token l =>
    simp only [partStep] at h
    split at h
    · cases h
    split at h
    · cases h
      exact Nat.lt_succ_self _
    · exact Nat.lt_succ_of_le (hbody _ _ _ h)

theorem shrinks_attrStep : Shrinks attrStep := by
  intro l rest h
  rcases l with _ | ⟨token, _ | ⟨value, l⟩⟩
  · cases h
  all_goals
    simp only [attrStep] at h
    repeat' split at h
    all_goals cases h <;> simp only [List.length_cons] <;> omega

/-! ## The index and the list -/

/-- The index stands where the rest of the tokens begins. -/
def At (toks : List CString) (index : ℕ) (rest : List CString) : Prop :=
  index ≤ toks.length ∧ toks.drop index = rest

theorem At.next (h : At toks index (token :: rest)) : At toks (index + 1) rest := by
  obtain ⟨hle, hdrop⟩ := h
  have hlt : index < toks.length := by
    by_contra hge
    rw [List.drop_eq_nil_of_le (by omega)] at hdrop
    cases hdrop
  refine ⟨hlt, ?_⟩
  rw [← List.tail_drop, hdrop]
  rfl

theorem At.eq_length (h : At toks index []) : index = toks.length := by
  have := List.drop_eq_nil_iff.mp h.2
  have := h.1
  omega

theorem At.length_le (h : At toks index rest) : rest.length < rounds toks := by
  rw [← h.2, List.length_drop, rounds]
  omega

theorem At.tokenAt (h : At toks index rest) : FlowParser.tokenAt toks index = .ok rest.head? := by
  rw [FlowParser.tokenAt, if_pos h.1, ← h.2, List.head?_drop]

/-- Behind the null pointer. -/
theorem tokenAt_past : tokenAt toks (toks.length + 1) = .error .undefined :=
  if_neg (by omega)

/-! ## Values -/

section

variable {σ : Type} {s : σ} {Q : σ → Prop} {k : Kind}

theorem valueAt_nil {put : CString → σ → Except Fault (Option σ)} (h : At toks index []) :
    valueAt toks put index s = .error .undefined := by
  rw [valueAt, h.tokenAt]
  rfl

theorem valueAt_cons {put : CString → σ → Except Fault (Option σ)} {value : CString} {o : Option σ}
    (h : At toks index (value :: rest)) (hput : put value s = .ok o) :
    valueAt toks put index s = .ok (o.map fun s => (index, s)) := by
  rw [valueAt, h.tokenAt]
  simp only [List.head?_cons, bind, Except.bind, hput]

section

variable {put : Kind → CString → σ → Except Fault (Option σ)}

theorem parseRteFlowItemField_word (h : At toks index (k.word :: rest)) :
    parseRteFlowItemField toks put index s = valueAt toks (put k) (index + 1) s := by
  unfold parseRteFlowItemField
  rw [h.tokenAt]
  cases k <;> rfl

theorem parseRteFlowItemField_no_word (hword : word ∉ fieldWords)
    (h : At toks index (word :: rest)) : parseRteFlowItemField toks put index s = .ok none := by
  simp only [fieldWords, List.mem_cons, List.not_mem_nil, or_false, not_or] at hword
  obtain ⟨his, hspec, hlast, hmask, hpre⟩ := hword
  unfold parseRteFlowItemField
  rw [h.tokenAt]
  simp only [List.head?_cons, strcmp, bind, Except.bind, decide_eq_true_eq]
  rw [if_neg his, if_neg hspec, if_neg hlast, if_neg hmask, if_neg hpre]

end

/-- What reading a value at an index comes to. -/
def FieldSpec {σ : Type} (toks : List CString) (Q : σ → Prop)
    (r : Except Fault (Option (ℕ × σ))) : Step CString → Prop
  | .refused => r = .ok none
  | .cut => r = .error .undefined
  | .more rest => ∃ b, Q b.2 ∧ At toks (b.1 + 1) rest ∧ r = .ok (some b)
  | .done _ => False

theorem fieldSpec_valueAt {put : CString → σ → Except Fault (Option σ)} {fits : CString → Bool}
    {s' : σ} (hs' : Q s') (hput : ∀ value, put value s = .ok (if fits value then some s' else none))
    (h : At toks index rest) :
    FieldSpec toks Q (valueAt toks put index s) (oneValue fits rest) := by
  cases rest with
  | nil => exact valueAt_nil h
  | cons value rest =>
    rw [valueAt_cons h (hput value), oneValue]
    cases fits value with
    | true => exact ⟨(index, s'), hs', h.next, rfl⟩
    | false => rfl

theorem exists_kind_of_mem (h : word ∈ fieldWords) : ∃ k : Kind, word = k.word := by
  simp only [fieldWords, List.mem_cons, List.not_mem_nil, or_false] at h
  rcases h with rfl | rfl | rfl | rfl | rfl
  exacts [⟨.isValue, rfl⟩, ⟨.specValue, rfl⟩, ⟨.lastValue, rfl⟩, ⟨.maskValue, rfl⟩, ⟨.leading, rfl⟩]

theorem isEnd_allocate {item : FlowItem} : (item.allocate k).IsEnd ↔ item.IsEnd := by
  cases k <;> rfl

theorem fieldSpec_allocate (env : Env) (d : DetailOps Check) {item : FlowItem}
    (hitem : ¬ item.IsEnd) (h : At toks index rest) :
    FieldSpec toks (fun item => ¬ item.IsEnd)
      (parseRteFlowItemField toks (d.allocate env) index item) (valueStep env d rest) := by
  cases rest with
  | nil =>
    show parseRteFlowItemField toks _ index item = .error .undefined
    rw [parseRteFlowItemField, h.tokenAt]
    rfl
  | cons word rest =>
    by_cases hword : word ∈ fieldWords
    · simp only [valueStep, if_pos hword]
      obtain ⟨k, rfl⟩ := exists_kind_of_mem hword
      rw [parseRteFlowItemField_word h]
      refine fieldSpec_valueAt (isEnd_allocate (k := k).not.mpr hitem) (fun value => ?_) h.next
      cases k <;> rfl
    · simp only [valueStep, if_neg hword]
      exact parseRteFlowItemField_no_word hword h

end

/-! ## The fields of an item or an action -/

/-- What reading an item or an action comes to: in the middle case a null pointer has been read,
or the index stands at it. -/
def PartSpec {I : Type} (toks : List CString) (Q : I → Prop) (r : Except Fault (Option (ℕ × I))) :
    Step CString → Prop
  | .refused => r = .ok none
  | .cut => r = .error .undefined ∨ ∃ b, Q b.2 ∧ b.1 = toks.length ∧ r = .ok (some b)
  | .more rest => ∃ b, Q b.2 ∧ At toks (b.1 + 1) rest ∧ r = .ok (some b)
  | .done _ => False

theorem detailStep_slash (rest : List CString) :
    detailStep value details ("/" :: rest) = .done rest := by
  rw [detailStep, if_pos rfl]

theorem detailStep_of_none
    (hslash : token ≠ "/") (hfind : details.find? (·.token = token) = none) :
    detailStep value details (token :: rest) = .refused := by
  rw [detailStep, if_neg hslash, hfind]

theorem detailStep_of_some
    (hslash : token ≠ "/") (hfind : details.find? (·.token = token) = some d) :
    detailStep value details (token :: rest) =
      if d.flgValue then value d rest else .more rest := by
  rw [detailStep, if_neg hslash, hfind]

/-- **The loop over the fields of an item or an action.** -/
theorem parseCommonLoop_spec {σ : Type} {s : σ} {Q : σ → Prop}
    {parse : DetailOps Check → ℕ → σ → Except Fault (Option (ℕ × σ))} (hreads : Reads value)
    (hparse : ∀ {d : DetailOps Check} {index : ℕ} {rest : List CString} {s : σ}, Q s →
      At toks index rest → FieldSpec toks Q (parse d index s) (value d rest))
    (hs : Q s) (h : At toks index rest) (hfuel : rest.length < fuel) :
    PartSpec toks Q (parseCommonLoop toks details parse fuel index s)
      (ofFields (scan (detailStep value details) rest)) := by
  have hshrinks := shrinks_detailStep hreads details
  induction fuel generalizing index s rest with
  | zero => exact absurd hfuel (Nat.not_lt_zero _)
  | succ fuel ih =>
    unfold parseCommonLoop
    rw [h.tokenAt]
    cases rest with
    | nil =>
      rw [scan_of_cut hshrinks rfl]
      exact .inr ⟨(index, s), hs, h.eq_length, rfl⟩
    | cons token rest =>
      rw [List.length_cons] at hfuel
      simp only [List.head?_cons, bind, Except.bind]
      by_cases hslash : token = "/"
      · subst hslash
        rw [if_pos rfl, scan_of_done hshrinks (detailStep_slash rest)]
        exact ⟨(index, s), hs, h.next, rfl⟩
      rw [if_neg hslash]
      cases hfind : details.find? (·.token = token) with
      | none =>
        rw [scan_of_refused hshrinks (detailStep_of_none hslash hfind)]
        rfl
      | some d =>
        have hstep : detailStep value details (token :: rest) = _ :=
          detailStep_of_some hslash hfind
        simp only
        by_cases hflg : d.flgValue = true
        · rw [if_pos hflg] at hstep ⊢
          have hfield := hparse (d := d) hs h.next
          cases hvalue : value d rest <;> rw [hvalue] at hfield hstep
          case refused =>
            rw [scan_of_refused hshrinks hstep, show _ = Except.ok none from hfield]
            rfl
          case cut =>
            rw [scan_of_cut hshrinks hstep, show _ = Except.error _ from hfield]
            exact .inl rfl
          case more rest' =>
            have hle := hreads d rest rest' (by rw [hvalue]; rfl)
            obtain ⟨b, hb, hat, hr⟩ := hfield
            rw [scan_of_more hshrinks hstep, hr]
            exact ih hb hat (by omega)
          case done => exact hfield.elim
        · rw [if_neg hflg] at hstep ⊢
          rw [scan_of_more hshrinks hstep]
          exact ih hs h.next (by omega)

/-! ## Items and actions -/

theorem flowItemOpsList_end : ∀ ops ∈ flowItemOpsList,
    (ops.type = .endItem ↔ ops.strType = "end") := by
  decide

theorem flowActionOpsList_end : ∀ ops ∈ flowActionOpsList,
    (ops.type = .endAction ↔ ops.strType = "end") := by
  decide

theorem strType_of_find {K : Type} {opsList : List (PartOps K)} {ops : PartOps K}
    (h : opsList.find? (·.strType = token) = some ops) : ops.strType = token := by
  have htest := List.find?_some h
  exact of_decide_eq_true htest

theorem parseItem_spec {ops : PartOps ItemType}
    (hfind : flowItemOpsList.find? (·.strType = token) = some ops)
    (h : At toks index (token :: rest)) (hne : token ≠ "end") :
    PartSpec toks (fun item => ¬ item.IsEnd) (parseItem env toks ops index)
      (itemBody env ops rest) := by
  have hend : ¬ FlowItem.IsEnd ⟨ops.type, false, false, false⟩ := by
    intro hitem
    have hops := (flowItemOpsList_end ops (List.mem_of_find?_eq_some hfind)).mp hitem
    exact hne ((strType_of_find hfind).symm.trans hops)
  unfold parseItem itemBody
  cases ops.detailList with
  | none => exact ⟨(index, ⟨ops.type, false, false, false⟩), hend, h.next, rfl⟩
  | some details =>
    exact parseCommonLoop_spec (reads_valueStep env) (fieldSpec_allocate env _) hend h.next
      h.next.length_le

theorem parseAction_spec
    {ops : PartOps ActionType} (hfind : flowActionOpsList.find? (·.strType = token) = some ops)
    (h : At toks index (token :: rest)) (hne : token ≠ "end") :
    PartSpec toks (fun action => ¬ action.IsEnd) (parseAction env toks ops index)
      (actionBody env ops rest) := by
  have hend (conf : Bool) : ¬ FlowAction.IsEnd ⟨ops.type, conf⟩ := by
    intro haction
    have hops := (flowActionOpsList_end ops (List.mem_of_find?_eq_some hfind)).mp haction
    exact hne ((strType_of_find hfind).symm.trans hops)
  unfold parseAction actionBody
  cases ops.detailList with
  | none =>
    cases rest with
    | nil => exact .inr ⟨(index + 1, ⟨ops.type, false⟩), hend false, h.next.eq_length, rfl⟩
    | cons skipped rest =>
      exact ⟨(index + 1, ⟨ops.type, false⟩), hend false, h.next.next, rfl⟩
  | some details =>
    exact parseCommonLoop_spec (reads_confStep env)
      (fun hs hat => fieldSpec_valueAt hs (fun _ => rfl) hat) (hend true) h.next h.next.length_le

/-! ## A pattern, a list of actions -/

/-- What the loop over the items or the actions comes to.  `first` is what the first one comes
to, `stop` says where the index stands behind an `end`. -/
def PartsSpec {I : Type} (toks : List CString) (isEnd : I → Prop) (stop : ℕ → List CString → Prop)
    (parts : List I) (first : Step CString) (r : Except Fault (Bool × ℕ × List I)) :
    Outcome CString → Prop
  | .refused => ∃ j parts', (∀ p ∈ parts', ¬ isEnd p) ∧ (parts' = [] ↔ first = .refused) ∧
      r = .ok (false, j, parts ++ parts')
  | .cut => r = .error .undefined ∨ ∃ parts', (∀ p ∈ parts', ¬ isEnd p) ∧
      r = .ok (true, toks.length, parts ++ parts')
  | .done rest => ∃ j parts' e, (∀ p ∈ parts', ¬ isEnd p) ∧ isEnd e ∧ stop j rest ∧
      r = .ok (true, j, parts ++ (parts' ++ [e]))

/-- One more item in front. -/
theorem PartsSpec.cons {part : I} {first : Step CString}
    {r : Except Fault (Bool × ℕ × List I)} {o : Outcome CString} (hpart : ¬ isEnd part)
    (h : PartsSpec toks isEnd stop (parts ++ [part]) first r o) :
    PartsSpec toks isEnd stop parts (.more rest) r o := by
  have hcons {parts' : List I} (hparts : ∀ p ∈ parts', ¬ isEnd p) :
      ∀ p ∈ part :: parts', ¬ isEnd p := List.forall_mem_cons.mpr ⟨hpart, hparts⟩
  have happend (l : List I) : parts ++ [part] ++ l = parts ++ part :: l := by simp
  cases o with
  | refused =>
    obtain ⟨j, parts', hparts, -, hr⟩ := h
    exact ⟨j, part :: parts', hcons hparts, by simp, happend parts' ▸ hr⟩
  | cut =>
    rcases h with herr | ⟨parts', hparts, hr⟩
    · exact .inl herr
    · exact .inr ⟨part :: parts', hcons hparts, happend parts' ▸ hr⟩
  | done rest =>
    obtain ⟨j, parts', e, hparts, he, hstop, hr⟩ := h
    exact ⟨j, part :: parts', e, hcons hparts, he, hstop, happend (parts' ++ [e]) ▸ hr⟩

theorem parsePartsLoop_past {K I : Type} {opsList : List (PartOps K)}
    {parse : PartOps K → ℕ → Except Fault (Option (ℕ × I))} (hfuel : 0 < fuel) (parts : List I) :
    parsePartsLoop toks opsList parse fuel (toks.length + 1) parts = .error .undefined := by
  cases fuel with
  | zero => exact absurd hfuel (Nat.lt_irrefl 0)
  | succ fuel =>
    rw [parsePartsLoop, tokenAt_past]
    rfl

theorem parsePartsLoop_spec {K : Type} {opsList : List (PartOps K)}
    {parse : PartOps K → ℕ → Except Fault (Option (ℕ × I))}
    {body : PartOps K → List CString → Step CString} (hbody : Reads body)
    (hparse : ∀ {token : CString} {rest : List CString} {index : ℕ} {ops : PartOps K},
      opsList.find? (·.strType = token) = some ops → At toks index (token :: rest) →
      token ≠ "end".toList →
      PartSpec toks (fun part => ¬ isEnd part) (parse ops index) (body ops rest))
    (hend : ∀ {rest : List CString} {index : ℕ} {ops : PartOps K},
      opsList.find? (·.strType = "end".toList) = some ops →
      At toks index ("end".toList :: rest) →
      ∃ b, isEnd b.2 ∧ stop b.1 rest ∧ parse ops index = .ok (some b)) (h : At toks index rest)
    (hfuel : rest.length < fuel) :
    PartsSpec toks isEnd stop parts (partStep opsList body rest)
      (parsePartsLoop toks opsList parse fuel index parts) (scan (partStep opsList body) rest) := by
  have hshrinks := shrinks_partStep opsList hbody
  induction fuel generalizing index rest parts with
  | zero => exact absurd hfuel (Nat.not_lt_zero _)
  | succ fuel ih =>
    unfold parsePartsLoop
    rw [h.tokenAt]
    cases rest with
    | nil =>
      rw [scan_of_cut hshrinks rfl]
      refine .inr ⟨[], by simp, ?_⟩
      rw [h.eq_length, List.append_nil]
      rfl
    | cons token rest =>
      rw [List.length_cons] at hfuel
      simp only [List.head?_cons, bind, Except.bind]
      cases hfind : opsList.find? (·.strType = token) with
      | none =>
        have hstep : partStep opsList body (token :: rest) = .refused := by rw [partStep, hfind]
        rw [scan_of_refused hshrinks hstep]
        exact ⟨index, [], by simp, by simp [hstep], by rw [List.append_nil]⟩
      | some ops =>
        have hstep : partStep opsList body (token :: rest) =
          if token = "end".toList then .done rest else body ops rest := by rw [partStep, hfind]
        simp only
        by_cases htok : token = "end".toList
        · subst htok
          obtain ⟨b, hb, hstop, hr⟩ := hend hfind h
          rw [scan_of_done hshrinks (hstep.trans (if_pos rfl)), hr]
          exact ⟨b.1, [], b.2, by simp, hb, hstop, if_pos rfl⟩
        rw [if_neg htok] at hstep
        have hpart := hparse hfind h htok
        cases hval : body ops rest <;> rw [hval] at hpart hstep
        case refused =>
          rw [scan_of_refused hshrinks hstep, show _ = Except.ok none from hpart]
          exact ⟨index, [], by simp, by simp [hstep], by rw [List.append_nil]⟩
        case cut =>
          rw [scan_of_cut hshrinks hstep]
          rcases hpart with herr | ⟨b, -, hlen, hr⟩
          · rw [herr]
            exact .inl rfl
          rw [hr]
          simp only [if_neg htok]
          rw [hlen]
          exact .inl (parsePartsLoop_past (by omega) _)
        case more rest' =>
          have hle := hbody ops rest rest' (by rw [hval]; rfl)
          obtain ⟨b, hb, hat, hr⟩ := hpart
          rw [scan_of_more hshrinks hstep, hr, hstep]
          simp only [if_neg htok]
          exact (ih hat (by omega)).cons hb
        case done => exact hpart.elim

theorem find_end_item : flowItemOpsList.find? (·.strType = "end".toList) =
    some ⟨"end".toList, .endItem, none⟩ := rfl

theorem find_end_action : flowActionOpsList.find? (·.strType = "end".toList) =
    some ⟨"end".toList, .endAction, none⟩ := rfl

theorem parseFlowPattern_spec (env : Env) (h : At toks index rest) :
    PartsSpec toks FlowItem.IsEnd (fun j rest => At toks (j + 1) rest) [] (itemStep env rest)
      (parseFlowPattern env toks index) (scan (itemStep env) rest) := by
  refine parsePartsLoop_spec (reads_itemBody env) (fun hfind hat hne => parseItem_spec hfind hat hne)
    (fun hfind hat => ?_) h h.length_le
  obtain rfl := Option.some.inj (find_end_item.symm.trans hfind)
  exact ⟨(_, ⟨.endItem, false, false, false⟩), rfl, hat.next, rfl⟩

theorem parseFlowActions_spec (env : Env) (h : At toks index rest) :
    PartsSpec toks FlowAction.IsEnd (fun _ _ => True) [] (actionStep env rest)
      (parsePartsLoop toks flowActionOpsList (parseAction env toks) (rounds toks) index [])
      (scan (actionStep env) rest) := by
  refine parsePartsLoop_spec (reads_actionBody env)
    (fun hfind hat hne => parseAction_spec hfind hat hne) (fun hfind _ => ?_) h h.length_le
  obtain rfl := Option.some.inj (find_end_action.symm.trans hfind)
  exact ⟨(_, ⟨.endAction, false⟩), rfl, trivial, rfl⟩

/-! ## Attributes -/

/-- What the loop over the attributes comes to. -/
def AttrSpec (toks : List CString) (r : Except Fault (Option (ℕ × FlowAttr))) :
    Outcome CString → Prop
  | .done rule => ∃ b, At toks (b.1 + 1) rule ∧ r = .ok (some b)
  | .refused => r = .ok none
  | .cut => False

theorem attrStep_number (htok : token = "group" ∨ token = "priority")
    (rest : List CString) : attrStep (token :: rest) =
      match rest with
      | [] => .refused
      | value :: rest => if (wholeNumber 10 value).isSome then .more rest else .refused :=
  if_pos htok

theorem attrStep_flag
    (htok : token = "ingress" ∨ token = "egress" ∨ token = "transfer")
    (rest : List CString) : attrStep (token :: rest) = .more rest := by
  have hnumber : ¬ (token = "group" ∨ token = "priority") := by
    rcases htok with rfl | rfl | rfl <;> decide
  exact (if_neg hnumber).trans (if_pos htok)

theorem parseAttrLoop_spec {attr : FlowAttr} (h : At toks index rest) (hfuel : rest.length < fuel) :
    AttrSpec toks (parseAttrLoop toks fuel index attr) (scan attrStep rest) := by
  induction fuel generalizing index attr rest with
  | zero => exact absurd hfuel (Nat.not_lt_zero _)
  | succ fuel ih =>
    unfold parseAttrLoop
    rw [h.tokenAt]
    cases rest with
    | nil =>
      rw [scan_of_refused shrinks_attrStep rfl]
      rfl
    | cons token rest =>
      rw [List.length_cons] at hfuel
      rw [h.next.tokenAt]
      simp only [List.head?_cons, bind, Except.bind]
      have hflag (attr' : FlowAttr)
          (htok : token = "ingress" ∨ token = "egress" ∨ token = "transfer") :
          AttrSpec toks (parseAttrLoop toks fuel (index + 1) attr')
            (scan attrStep (token :: rest)) := by
        rw [scan_of_more shrinks_attrStep (attrStep_flag htok rest)]
        exact ih h.next (by omega)
      have hnumber (attr' : ℕ → FlowAttr)
          (htok : token = "group" ∨ token = "priority") :
          AttrSpec toks
            (match rest.head? with
              | none => .ok none
              | some value =>
                match wholeNumber 10 value with
                | none => .ok none
                | some n => parseAttrLoop toks fuel (index + 2) (attr' n))
            (scan attrStep (token :: rest)) := by
        have hstep := attrStep_number htok rest
        cases rest with
        | nil =>
          rw [scan_of_refused shrinks_attrStep hstep]
          rfl
        | cons value rest =>
          rw [List.length_cons] at hfuel
          cases hvalue : wholeNumber 10 value with
          | none =>
            simp only [hvalue, Option.isSome_none, Bool.false_eq_true, if_false] at hstep
            rw [scan_of_refused shrinks_attrStep hstep]
            simp only [List.head?_cons, hvalue]
            rfl
          | some n =>
            simp only [hvalue, Option.isSome_some, if_true] at hstep
            rw [scan_of_more shrinks_attrStep hstep]
            simp only [List.head?_cons, hvalue]
            exact ih h.next.next (by omega)
      split_ifs with hgroup hprio hin hout htransfer hpattern
      · exact hnumber (fun n => { attr with group := n % 2 ^ 32 }) (.inl hgroup)
      · exact hnumber (fun n => { attr with priority := n % 2 ^ 32 }) (.inr hprio)
      · exact hflag _ (.inl hin)
      · exact hflag _ (.inr (.inl hout))
      · exact hflag _ (.inr (.inr htransfer))
      all_goals
        have hother : attrStep (token :: rest) =
            if token = "pattern" then .done rest else .refused :=
          (if_neg (not_or.mpr ⟨hgroup, hprio⟩)).trans
            (if_neg (not_or.mpr ⟨hin, not_or.mpr ⟨hout, htransfer⟩⟩))
      · rw [scan_of_done shrinks_attrStep (hother.trans (if_pos hpattern))]
        exact ⟨(index, attr), h.next, rfl⟩
      · rw [scan_of_refused shrinks_attrStep (hother.trans (if_neg hpattern))]
        rfl

/-! ## The tokens of a message -/

theorem tokenise_of_two_lt {maxToken : ℕ} (h : 2 < maxToken) (ts : List CString) :
    tokenise maxToken ts =
      if maxToken + ts.length < maxParameter then .ok () else .error .undefined := by
  have hmax : maxParameter = 48 := rfl
  have hnof : nofTokens = 48 := rfl
  induction ts generalizing maxToken with
  | nil =>
    rw [tokenise]
    by_cases hfull : maxParameter ≤ maxToken
    · rw [if_pos hfull, if_neg (by simp only [List.length_nil]; omega)]
    · rw [if_neg hfull, if_pos (by simp only [List.length_nil]; omega)]
  | cons t ts ih =>
    rw [tokenise, ih (by omega), List.length_cons]
    by_cases hfull : maxParameter ≤ maxToken
    · rw [if_pos hfull, if_neg (by omega)]
    rw [if_neg hfull, if_neg (by omega), if_neg (by omega)]
    by_cases hfits : maxToken + 1 + ts.length < maxParameter
    · rw [if_pos hfits, if_pos (by omega)]
    · rw [if_neg hfits, if_neg (by omega)]

/-- Up to two tokens fit. -/
theorem tokenise_short {ts : List CString} (h : ts.length ≤ 2) : tokenise 0 ts = .ok () := by
  match ts, h with
  | [], _ | [_], _ => rfl
  | [_, _], _ => rfl

theorem tokenise_eq_ok_iff (a b uid : CString) (rest : List CString) :
    tokenise 0 (a :: b :: uid :: rest) = .ok () ↔
      (a :: b :: uid :: rest).length < maxParameter ∧ uid.length < secNameSize := by
  have hthree : tokenise 0 (a :: b :: uid :: rest) =
      if secNameSize ≤ uid.length then .error .undefined else tokenise 3 rest := by
    by_cases hlong : secNameSize ≤ uid.length <;> simp [tokenise, maxParameter, hlong]
  rw [hthree, tokenise_of_two_lt (by omega)]
  have hlen : (a :: b :: uid :: rest).length = 3 + rest.length := by
    simp only [List.length_cons]
    omega
  rw [hlen]
  by_cases hlong : secNameSize ≤ uid.length
  · rw [if_pos hlong]
    refine iff_of_false (by simp) fun h => ?_
    have := h.2
    omega
  rw [if_neg hlong, and_iff_left (by omega)]
  split
  · rename_i hfits
    exact iff_of_true rfl hfits
  · rename_i hfull
    exact iff_of_false (by simp) hfull

/-! ## The port -/

instance (uid : CString) : Decidable (UidSound uid) := inferInstanceAs (Decidable (_ → _))

/-- The type is stored whatever follows it. -/
theorem parseUidToken_portType (type token : CString) :
    (parseUidToken type token).portType = some type := by
  unfold parseUidToken
  simp only
  split
  all_goals
    split <;> rfl

theorem parseResourceUid_of_tokens {type : CString} {more : List CString}
    (hcolon : ':' ∈ uid) (htoks : CString.tokens ':' uid = type :: token :: more) :
    parseResourceUid (some uid) = .ok (parseUidToken type token) := by
  simp only [parseResourceUid, if_pos hcolon, htoks]

theorem parseResourceUid_of_no_colon (hcolon : ':' ∉ uid) :
    parseResourceUid (some uid) = .ok ⟨.ng, none, none, none⟩ := if_neg hcolon

theorem parsePhyPortId_of_sound (h : UidSound uid) :
    parsePhyPortId (some uid) = .ok (phyPort uid) := by
  unfold parsePhyPortId phyPort
  by_cases hcolon : ':' ∈ uid
  · have htwo := h hcolon
    match htoks : CString.tokens ':' uid, htwo with
    | type :: token :: more, _ =>
      simp only [parseResourceUid_of_tokens hcolon htoks, bind, Except.bind,
        parseUidToken_portType, Option.some.injEq, hcolon, true_and]
  simp only [parseResourceUid_of_no_colon hcolon, bind, Except.bind]
  rw [if_neg fun h => by cases h.1]
  split
  · rw [if_neg fun h => hcolon h.1]
  · rfl

theorem parsePhyPortId_of_not_sound (h : ¬ UidSound uid) :
    parsePhyPortId (some uid) = .error .undefined := by
  unfold UidSound at h
  rw [Classical.not_imp] at h
  obtain ⟨hcolon, hfew⟩ := h
  unfold parsePhyPortId parseResourceUid
  match htoks : CString.tokens ':' uid, hfew with
  | [], _ | [type], _ => simp only [if_pos hcolon, htoks, bind, Except.bind]
  | _ :: _ :: _, hfew => exact absurd (by simp) hfew

/-! ## Calls -/

/-- The calls are made, and are good. -/
def SafeCalls (L : Limits) (r : Except Fault (List Call)) : Prop :=
  ∃ calls, r = .ok calls ∧ ∀ c ∈ calls, c.Good L

theorem not_safeCalls_error (f : Fault) : ¬ SafeCalls L (.error f) := by
  rintro ⟨calls, hcalls, -⟩
  cases hcalls

theorem safeCalls_ok {calls : List Call} : SafeCalls L (.ok calls) ↔ ∀ c ∈ calls, c.Good L := by
  constructor
  · rintro ⟨calls', hcalls, hgood⟩
    cases hcalls
    exact hgood
  · exact fun hgood => ⟨calls, rfl, hgood⟩

theorem not_terminated (h : ∀ p ∈ parts, ¬ isEnd p) : ¬ Terminated isEnd parts := by
  rintro ⟨init, e, rfl, he, -⟩
  exact h e (by simp) he

theorem terminated_append {e : I}
    (h : ∀ p ∈ parts, ¬ isEnd p) (he : isEnd e) : Terminated isEnd (parts ++ [e]) :=
  ⟨parts, e, rfl, he, h⟩

/-- Arrays without an `END` are freed safely only if there is none. -/
theorem good_free_iff {pattern : List FlowItem} {actions : List FlowAction}
    (hpattern : pattern = [] ∨ Terminated FlowItem.IsEnd pattern)
    (hactions : ∀ a ∈ actions, ¬ a.IsEnd) :
    (Call.freeFlowArgs pattern actions).Good L ↔ actions = [] := by
  show (_ ∧ (actions = [] ∨ _)) ↔ _
  rw [and_iff_right hpattern, or_iff_left (not_terminated hactions)]

/-- A rule whose arrays end where they have to is executed safely if the number of the port
is in range, should it be needed. -/
theorem safe_execFlow_iff (hcommand : input.command = .validate ∨ input.command = .create)
    (hpattern : Terminated FlowItem.IsEnd input.pattern)
    (hactions : Terminated FlowAction.IsEnd input.actions) :
    (∀ c ∈ execFlow env L input, c.Good L) ↔ (input.command = .create →
      env.flowCreated (uint16OfLong input.portId) = true →
        0 ≤ input.portId ∧ input.portId < L.maxEthports) := by
  have hfree : ∀ c ∈ [Call.freeFlowArgs input.pattern input.actions], c.Good L :=
    List.forall_mem_singleton.mpr ⟨.inr hpattern, .inr hactions⟩
  unfold execFlow
  rcases hcommand with hcommand | hcommand <;> rw [hcommand]
  · exact iff_of_true (List.forall_mem_cons.mpr ⟨⟨hpattern, hactions⟩, hfree⟩) nofun
  rw [forall_prop_of_true rfl]
  simp only
  by_cases hcreated : env.flowCreated (uint16OfLong input.portId) = true
  · rw [if_pos hcreated, forall_prop_of_true hcreated]
    refine ⟨fun h => h (.portList input.portId) (by simp), fun hrange => ?_⟩
    exact List.forall_mem_cons.mpr
      ⟨⟨hpattern, hactions⟩, List.forall_mem_cons.mpr ⟨hrange, hfree⟩⟩
  · rw [if_neg hcreated]
    exact iff_of_true (List.forall_mem_cons.mpr ⟨⟨hpattern, hactions⟩, hfree⟩)
      fun h => absurd h hcreated

/-- A rule whose actions do not end is not executed safely. -/
theorem not_safe_execFlow (hcommand : input.command = .validate ∨ input.command = .create)
    (hactions : ∀ a ∈ input.actions, ¬ a.IsEnd) : ¬ ∀ c ∈ execFlow env L input, c.Good L := by
  intro h
  rcases hcommand with hcommand | hcommand
  · have hgood := h (.rteFlowValidate input.pattern input.actions) (by simp [execFlow, hcommand])
    exact not_terminated hactions hgood.2
  · have hgood := h (.rteFlowCreate input.pattern input.actions) (by simp [execFlow, hcommand])
    exact not_terminated hactions hgood.2

/-! ## Rules -/

/-- The actions behind a pattern that ends where it has to. -/
theorem safe_actions_iff (input : FlowArgs)
    (hcommand : input.command = .validate ∨ input.command = .create)
    (hpattern : Terminated FlowItem.IsEnd input.pattern) (h : At toks index rest) :
    SafeCalls L (parseFlowActions env toks index >>= fun r =>
        .ok (finish env L (r.1, { input with actions := r.2 }))) ↔
      ∃ word rest', rest = word :: rest' ∧ (word = "actions" → ActionsSound env
        (input.command = .create → env.flowCreated (uint16OfLong input.portId) = true →
          0 ≤ input.portId ∧ input.portId < L.maxEthports) rest') := by
  unfold parseFlowActions
  rw [h.tokenAt]
  cases rest with
  | nil => exact iff_of_false (not_safeCalls_error _) (by simp)
  | cons word rest =>
    simp only [List.head?_cons, strcmp, bind, Except.bind, decide_eq_true_eq, List.cons.injEq]
    have hsimp (Q : CString → List CString → Prop) :
        (∃ word' rest', (word = word' ∧ rest = rest') ∧ Q word' rest') ↔ Q word rest := by
      simp
    rw [hsimp fun word rest => word = "actions" → ActionsSound env _ rest]
    by_cases hword : word = "actions"
    · rw [if_pos hword, forall_prop_of_true hword]
      have hspec := parseFlowActions_spec env h.next
      unfold ActionsSound
      have hshrinks : Shrinks (actionStep env) := shrinks_partStep _ (reads_actionBody env)
      have hfirst (hscan : scan (actionStep env) rest ≠ .refused) : actionStep env rest ≠ .refused :=
        fun hfirst => hscan (scan_of_refused hshrinks hfirst)
      cases hscan : scan (actionStep env) rest <;> rw [hscan] at hspec hfirst
      case refused =>
        obtain ⟨j, parts, hno, hparts, hr⟩ := hspec
        rw [hr, or_iff_left (by simp)]
        simp only [List.nil_append]
        rw [safeCalls_ok, ← hparts]
        simp only [finish, Bool.false_eq_true, if_false, List.mem_singleton, forall_eq]
        exact good_free_iff (.inr hpattern) hno
      case cut =>
        refine iff_of_false ?_ ?_
        · rcases hspec with herr | ⟨parts, hno, hr⟩
          · rw [herr]
            exact not_safeCalls_error _
          rw [hr]
          simp only [List.nil_append]
          rw [safeCalls_ok]
          exact not_safe_execFlow hcommand hno
        · rintro (hrefused | ⟨-, _, hdone⟩)
          · exact hfirst nofun hrefused
          · cases hdone
      case done rest' =>
        obtain ⟨j, parts, e, hno, he, -, hr⟩ := hspec
        rw [hr, or_iff_right (hfirst nofun), and_iff_left ⟨rest', rfl⟩]
        simp only [List.nil_append]
        rw [safeCalls_ok]
        exact safe_execFlow_iff hcommand hpattern (terminated_append hno he)
    · rw [if_neg hword]
      refine iff_of_true ?_ fun h => absurd h hword
      rw [safeCalls_ok]
      exact List.forall_mem_singleton.mpr ⟨.inr hpattern, .inl rfl⟩

/-- The pattern and the actions of a rule. -/
theorem safe_pattern_iff (input : FlowArgs)
    (hcommand : input.command = .validate ∨ input.command = .create)
    (hactions : input.actions = []) {rule : List CString} (h : At toks index rule) :
    SafeCalls L (parseFlowPattern env toks index >>= fun r =>
        if r.1 then parseFlowActions env toks (r.2.1 + 1) >>= fun r' =>
          .ok (finish env L (r'.1, { input with pattern := r.2.2, actions := r'.2 }))
        else .ok (finish env L (false, { input with pattern := r.2.2 }))) ↔
      RuleSound env (input.command = .create → env.flowCreated (uint16OfLong input.portId) = true →
        0 ≤ input.portId ∧ input.portId < L.maxEthports) rule := by
  have hspec := parseFlowPattern_spec env h
  have hshrinks : Shrinks (itemStep env) := shrinks_partStep _ (reads_itemBody env)
  have hfirst (hscan : scan (itemStep env) rule ≠ .refused) : itemStep env rule ≠ .refused :=
    fun hfirst => hscan (scan_of_refused hshrinks hfirst)
  unfold RuleSound
  cases hscan : scan (itemStep env) rule <;> rw [hscan] at hspec hfirst
  case refused =>
    obtain ⟨j, parts, hno, hparts, hr⟩ := hspec
    rw [hr, or_iff_left (by simp), ← hparts]
    show SafeCalls L (.ok [.freeFlowArgs parts input.actions]) ↔ _
    rw [safeCalls_ok, hactions]
    simp only [List.mem_singleton, forall_eq]
    show ((parts = [] ∨ _) ∧ _) ↔ _
    rw [or_iff_left (not_terminated hno), and_iff_left (.inl rfl)]
  case cut =>
    refine iff_of_false ?_ ?_
    · rcases hspec with herr | ⟨parts, hno, hr⟩
      · rw [herr]
        exact not_safeCalls_error _
      · rw [hr]
        simp only [bind, Except.bind, if_true, parseFlowActions, tokenAt_past]
        exact not_safeCalls_error _
    · rintro (hrefused | ⟨_, _, hdone, -⟩)
      · exact hfirst nofun hrefused
      · cases hdone
  case done rest =>
    obtain ⟨j, parts, e, hno, he, hat, hr⟩ := hspec
    rw [hr, or_iff_right (hfirst nofun)]
    simp only [Outcome.done.injEq]
    exact safe_actions_iff { input with pattern := parts ++ [e] } hcommand
      (terminated_append hno he) hat

theorem safe_free_nil : SafeCalls L (.ok [.freeFlowArgs [] []]) := by
  rw [safeCalls_ok]
  intro c hc
  rw [List.mem_singleton.mp hc]
  exact ⟨.inl rfl, .inl rfl⟩

/-- A rule. -/
theorem safe_rule_iff (hcommand : input.command = .validate ∨ input.command = .create)
    (hpattern : input.pattern = []) (hactions : input.actions = []) (h : At toks 2 (uid :: rest)) :
    SafeCalls L (parseFlowRule env toks input >>= fun r => .ok (finish env L r)) ↔
      UidSound uid ∧ ∀ port, phyPort uid = some port → ∀ rule, scan attrStep rest = .done rule →
        RuleSound env (input.command = .create → env.flowCreated (uint16OfLong port) = true →
          0 ≤ port ∧ port < L.maxEthports) rule := by
  have hfree (input' : FlowArgs) (hp : input'.pattern = []) (ha : input'.actions = []) :
      SafeCalls L (.ok (finish env L (false, input'))) := by
    show SafeCalls L (.ok [.freeFlowArgs input'.pattern input'.actions])
    rw [hp, ha]
    exact safe_free_nil
  unfold parseFlowRule
  rw [h.tokenAt]
  simp only [List.head?_cons, bind, Except.bind]
  by_cases hsound : UidSound uid
  · rw [parsePhyPortId_of_sound hsound, and_iff_right hsound]
    cases hport : phyPort uid with
    | none => exact iff_of_true (hfree input hpattern hactions) nofun
    | some port =>
      simp only [Option.some.injEq, forall_eq']
      have hattr : AttrSpec toks (parseFlowAttr toks 3) (scan attrStep rest) :=
        parseAttrLoop_spec h.next h.next.length_le
      cases hscan : scan attrStep rest <;> rw [hscan] at hattr
      case refused =>
        rw [show parseFlowAttr toks 3 = .ok none from hattr]
        exact iff_of_true (hfree _ hpattern hactions) nofun
      case cut => exact hattr.elim
      case done rule =>
        obtain ⟨⟨index, attr⟩, hat, hr⟩ := hattr
        rw [hr]
        simp only [Outcome.done.injEq, forall_eq']
        rw [← safe_pattern_iff { input with portId := port, attr := attr } hcommand
          hactions hat]
        simp only [bind, Except.bind]
        cases parseFlowPattern env toks (index + 1) with
        | error f => rfl
        | ok r =>
          simp only
          by_cases hret : r.1 = true
          · rw [if_pos hret, if_pos hret]
            cases parseFlowActions env toks (r.2.1 + 1) <;> rfl
          · rw [if_neg hret, if_neg hret]
  · rw [parsePhyPortId_of_not_sound hsound]
    exact iff_of_false (not_safeCalls_error _) fun h => hsound h.1

/-- Rules are destroyed in ports that are attached only. -/
theorem safe_destroy_iff (h : At toks 2 (uid :: rest)) :
    SafeCalls L (parseFlowDestroy toks .zero >>= fun r => .ok (finish env L r)) ↔
      UidSound uid := by
  have hused (port : ℤ) (calls : List Call)
      (hcalls : calls = if isPortidUsed env L port then [.portList port] else []) :
      SafeCalls L (.ok calls) := by
    rw [safeCalls_ok, hcalls]
    intro c hc
    split at hc
    · rename_i hport
      rw [List.mem_singleton.mp hc]
      unfold isPortidUsed at hport
      rw [List.any_eq_true] at hport
      obtain ⟨pid, hpid, htest⟩ := hport
      rw [Bool.and_eq_true, decide_eq_true_eq] at htest
      rw [List.mem_range] at hpid
      show 0 ≤ port ∧ port < L.maxEthports
      omega
    · cases hc
  unfold parseFlowDestroy
  rw [h.tokenAt, h.next.tokenAt]
  simp only [List.head?_cons, bind, Except.bind]
  by_cases hsound : UidSound uid
  · rw [parsePhyPortId_of_sound hsound]
    refine iff_of_true ?_ hsound
    cases phyPort uid with
    | none => exact safe_free_nil
    | some port =>
      cases rest with
      | nil => exact safe_free_nil
      | cons rule rest =>
        by_cases hall : rule = "ALL"
        · simp only [List.head?_cons, if_pos hall]
          exact hused port _ rfl
        · simp only [List.head?_cons, if_neg hall]
          exact hused port _ rfl
  · rw [parsePhyPortId_of_not_sound hsound]
    exact iff_of_false (not_safeCalls_error _) hsound

/-! ## Every command -/

theorem parseFlow_cons {command : CString}
    (h : At toks 1 (command :: rest)) : parseFlow env toks L =
      (parseFlowArgs env toks command >>= fun r => .ok (finish env L r)) := by
  rw [parseFlow, h.tokenAt]
  rfl

/-- A command with less than three tokens is refused. -/
theorem safe_parseFlow_short (a : CString) (hrest : rest.length ≤ 1) :
    SafeCalls L (parseFlow env (a :: rest) L) := by
  match rest, hrest with
  | [], _ => exact safe_free_nil
  | [command], _ =>
    have hat : At [a, command] 1 [command] := ⟨Nat.le_succ 1, rfl⟩
    have hrule (input : FlowArgs) : parseFlowRule env [a, command] input = .ok (false, input) := rfl
    have hdestroy : parseFlowDestroy [a, command] .zero = .ok (false, .zero) := rfl
    rw [parseFlow_cons hat, parseFlowArgs, hrule, hrule, hdestroy]
    split
    · exact safe_free_nil
    · split
      · exact safe_free_nil
      · split <;> exact safe_free_nil

theorem safe_parseFlow_iff (a command uid : CString) (rest : List CString) :
    SafeCalls L (parseFlow env (a :: command :: uid :: rest) L) ↔
      (command ∈ ["validate".toList, "create".toList, "destroy".toList] → UidSound uid) ∧
      (command ∈ ["validate".toList, "create".toList] → ∀ port, phyPort uid = some port →
        ∀ rule, scan attrStep rest = .done rule →
          RuleSound env (PortInRange env L command port) rule) := by
  have hone : At (a :: command :: uid :: rest) 1 (command :: uid :: rest) := ⟨by simp, rfl⟩
  have htwo : At (a :: command :: uid :: rest) 2 (uid :: rest) := ⟨by simp, rfl⟩
  rw [parseFlow_cons hone, parseFlowArgs]
  by_cases hvalidate : command = "validate".toList
  · rw [if_pos hvalidate, safe_rule_iff (.inl rfl) rfl rfl htwo]
    subst hvalidate
    rw [forall_prop_of_true (by decide), forall_prop_of_true (by decide)]
    -- neither command has to have the port in range
    have hneed (port : ℤ) : (FlowArgs.zero.command = .create →
        env.flowCreated (uint16OfLong port) = true → 0 ≤ port ∧ port < L.maxEthports) ↔
        PortInRange env L "validate".toList port :=
      iff_of_true (fun h => by cases h) fun h => absurd h (by decide)
    simp only [hneed]
  rw [if_neg hvalidate]
  by_cases hcreate : command = "create".toList
  · rw [if_pos hcreate, safe_rule_iff (.inr rfl) rfl rfl htwo]
    subst hcreate
    rw [forall_prop_of_true (by decide), forall_prop_of_true (by decide)]
    simp only [PortInRange, true_imp_iff]
  rw [if_neg hcreate]
  have hrule : command ∉ ["validate".toList, "create".toList] := by
    simp only [List.mem_cons, List.not_mem_nil, or_false, not_or]
    exact ⟨hvalidate, hcreate⟩
  rw [and_iff_left fun h => absurd h hrule]
  by_cases hdestroy : command = "destroy".toList
  · rw [if_pos hdestroy, safe_destroy_iff htwo]
    subst hdestroy
    rw [forall_prop_of_true (by decide)]
  rw [if_neg hdestroy]
  refine iff_of_true safe_free_nil fun h => ?_
  simp only [List.mem_cons, List.not_mem_nil, or_false] at h
  rcases h with h | h | h
  · exact absurd h hvalidate
  · exact absurd h hcreate
  · exact absurd h hdestroy

theorem indexSafe_of_tokenise {str : CString} (h : tokenise 0 (CString.tokens ' ' str) = .ok ()) :
    IndexSafe env L str ↔ SafeCalls L (parseFlow env (CString.tokens ' ' str) L) := by
  unfold IndexSafe flowCommand
  rw [h]
  rfl

/-- **Flow commands.**  A message whose first token is `flow` is harmless, whatever the driver
does, if and only if its tokens are as the code takes for granted. -/
theorem indexSafe_iff (env : Env) (L : Limits) (str : CString) (args : List CString)
    (hflow : CString.tokens ' ' str = "flow".toList :: args) :
    IndexSafe env L str ↔ Sound env L ("flow".toList :: args) := by
  have hmax : maxParameter = 48 := rfl
  have hshort (hargs : args.length ≤ 1) : IndexSafe env L str := by
    rw [indexSafe_of_tokenise (hflow ▸ tokenise_short (Nat.succ_le_succ hargs)), hflow]
    exact safe_parseFlow_short _ hargs
  match args, hflow, hshort with
  | [], _, hshort | [command], _, hshort =>
    exact iff_of_true (hshort (by simp)) ⟨by simp [hmax], trivial⟩
  | command :: uid :: rest, hflow, _ =>
    have htokenise := tokenise_eq_ok_iff "flow".toList command uid rest
    by_cases hfits : tokenise 0 ("flow".toList :: command :: uid :: rest) = .ok ()
    · obtain ⟨hlen, huid⟩ := htokenise.mp hfits
      rw [indexSafe_of_tokenise (hflow ▸ hfits), hflow, safe_parseFlow_iff]
      show _ ↔ (_ ∧ _ ∧ _)
      rw [and_iff_right hlen, and_iff_right huid]
    · refine iff_of_false ?_ fun h => hfits (htokenise.mpr ⟨h.1, h.2.1⟩)
      rintro ⟨calls, hcalls, -⟩
      rw [flowCommand, hflow] at hcalls
      cases htok : tokenise 0 ("flow".toList :: command :: uid :: rest) with
      | error f =>
        rw [htok] at hcalls
        cases hcalls
      | ok u => exact hfits htok

/-- Port 0 is attached and takes every rule. -/
def Env.sample : Env := ⟨fun _ => false, fun p => p = 0, fun p => p = 0⟩

theorem indexSafe_create : IndexSafe .sample .default
    "flow create phy:0 ingress pattern eth / end actions queue index 1 / end" := by
  refine (indexSafe_iff .sample .default _ ["create", "phy:0", "ingress",
    "pattern", "eth", "/", "end", "actions", "queue",
    "index", "1", "/", "end"] (by decide +kernel)).mpr
    ⟨by decide, by decide, fun _ => by decide +kernel, ?_⟩
  intro _ port hport rule hrule
  have hphy : phyPort "phy:0" = some 0 := by decide +kernel
  have hattr : scan attrStep ["ingress", "pattern", "eth", "/",
      "end", "actions", "queue", "index", "1", "/",
      "end"] = .done ["eth", "/", "end", "actions",
      "queue", "index", "1", "/", "end"] := by decide +kernel
  obtain rfl := Option.some.inj (hphy.symm.trans hport)
  obtain rfl := Outcome.done.inj (hattr.symm.trans hrule)
  refine .inr ⟨"actions", ["queue", "index", "1", "/",
    "end"], by decide +kernel, fun _ => .inr ⟨fun _ _ => by decide, [], ?_⟩⟩
  decide +kernel

/-- **Commands that are not harmless.**  The driver is given actions without an `END`; the
index passes the null pointer behind a pattern that stops early; a pattern without an `END`
is freed; the null pointer behind a pattern is compared; and `port_list` is used with an index
of 65536, which the driver takes for port 0. -/
theorem not_indexSafe :
    (flowCommand .sample .default
        "flow validate phy:0 pattern end actions queue index 1 /" =
      .ok [.rteFlowValidate [⟨.endItem, false, false, false⟩] [⟨.queue, true⟩],
        .freeFlowArgs [⟨.endItem, false, false, false⟩] [⟨.queue, true⟩]] ∧
      ¬ IndexSafe .sample .default
        "flow validate phy:0 pattern end actions queue index 1 /") ∧
    flowCommand .sample .default "flow validate phy:0 pattern eth" = .error .undefined ∧
    (flowCommand .sample .default "flow validate phy:0 pattern eth / ipv4" =
      .ok [.freeFlowArgs [⟨.eth, false, false, false⟩] []] ∧
      ¬ IndexSafe .sample .default "flow validate phy:0 pattern eth / ipv4") ∧
    flowCommand .sample .default "flow validate phy:0 pattern end" = .error .undefined ∧
    (flowCommand .sample .default "flow create phy:65536 pattern end actions end" =
      .ok [.rteFlowCreate [⟨.endItem, false, false, false⟩] [⟨.endAction, false⟩],
        .portList 65536,
        .freeFlowArgs [⟨.endItem, false, false, false⟩] [⟨.endAction, false⟩]] ∧
      ¬ IndexSafe .sample .default "flow create phy:65536 pattern end actions end") := by
  have hbad {str : CString} {calls : List Call} (c : Call)
      (h : flowCommand .sample .default str = .ok calls) (hmem : c ∈ calls)
      (hc : ¬ c.Good .default) :
      flowCommand .sample .default str = .ok calls ∧ ¬ IndexSafe .sample .default str := by
    refine ⟨h, ?_⟩
    rintro ⟨calls', h', hgood⟩
    obtain rfl := Except.ok.inj (h.symm.trans h')
    exact hc (hgood c hmem)
  refine ⟨hbad _ (by decide +kernel) List.mem_cons_self ?_, by decide +kernel,
    hbad _ (by decide +kernel) List.mem_cons_self ?_, by decide +kernel,
    hbad (.portList 65536) (by decide +kernel) (by simp) ?_⟩
  · rintro ⟨-, hterm⟩
    refine not_terminated (fun a ha hend => ?_) hterm
    rw [List.mem_singleton.mp ha] at hend
    cases hend
  · rintro ⟨hnull | hterm, -⟩
    · cases hnull
    · refine not_terminated (fun i hi hend => ?_) hterm
      rw [List.mem_singleton.mp hi] at hend
      cases hend
  · rintro ⟨-, hlt⟩
    exact absurd hlt (by decide)

end FlowParser
end SoftPatchPanel.Primary
