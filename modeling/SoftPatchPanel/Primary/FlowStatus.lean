import SoftPatchPanel.Foundation.Writing
import SoftPatchPanel.Primary.FlowParser
import SoftPatchPanel.Primary.PhyPorts

/-!
# The flow rules in the status

`append_flow_json` writes the flow rules of a port as a JSON array into a buffer of its caller.
Each rule is written into a buffer of its own, and so are its attributes, its patterns, its actions,
each pattern and each action; all of these have the size that the caller has given.

The lists notice when they are full.  The conversions of single attributes compare their length with
the room that is left but forget the byte at the end, and the texts between them are written
without a look.  A rule that is too long is cut, which is noticed when it is put into the list.  The
brackets around the list are not noticed, unless there is only one rule: the length of the text of
the last rule is looked at, and not the one of the list.  `flowStatus_iff` says when none of this
happens.
-/

namespace SoftPatchPanel.Primary
namespace FlowStatus

open Shared
open Worker (Fault)
open FlowParser (FlowAttr)
open Writing (Care Mark append_text_cons marks next next_outcome next_piece outcome
  outcome_cons_of_le outcome_cons_of_lt)

/-! ## JSON without blanks -/

/-- A member of an object. -/
def member (name text : CString) : CString := '"' :: (name ++ '"' :: ':' :: text)

/-- An object. -/
def object (members : List CString) : CString :=
  '\x7b' :: ([','].intercalate members ++ "\x7d")

/-- An array. -/
def array (elements : List CString) : CString := '[' :: ([','].intercalate elements ++ "]")

theorem blank_nil : Json.Blank [] := List.forall_mem_nil _

variable {ts : List CString} {ms : List (CString × Json)}

theorem reads_members {name text : CString} {v : Json} (h : Json.Reads text v)
    (hms : List.Forall₂ Json.ReadsMember ts ms) (hname : Json.Plain name := by decide) :
    List.Forall₂ Json.ReadsMember (member name text :: ts) ((name, v) :: ms) :=
  .cons (Json.readsMember hname blank_nil h) hms

theorem reads_object (h : List.Forall₂ Json.ReadsMember ts ms) : Json.Reads (object ts) (.obj ms) :=
  Json.reads_obj blank_nil blank_nil blank_nil h

theorem reads_array {vs : List Json} (h : List.Forall₂ Json.Reads ts vs) :
    Json.Reads (array ts) (.arr vs) :=
  Json.reads_arr blank_nil blank_nil blank_nil h

theorem reads_array_map {α : Type} {text : α → CString} {json : α → Json} {l : List α}
    (h : ∀ a ∈ l, Json.Reads (text a) (json a)) :
    Json.Reads (array (l.map text)) (.arr (l.map json)) :=
  reads_array (List.forall₂_map_left_iff.mpr (List.forall₂_map_right_iff.mpr
    (List.forall₂_same.mpr h)))

theorem length_array (ts : List CString) :
    (array ts).length = ([','].intercalate ts).length + 2 := by
  rw [array, List.length_cons, List.length_append]
  rfl

/-! ## Rules -/

/-- `printf` with `%d` of a `uint32_t`. -/
def asInt (n : ℕ) : ℤ := CString.intOfLong n

/-- `printf` with `0x%0kx`. -/
def hexText (k n : ℕ) : CString :=
  "0x" ++ List.replicate (k - (Nat.toDigits 16 n).length) '0' ++ Nat.toDigits 16 n

/-- `struct rte_ether_addr`. -/
structure EtherAddr where
  bytes : List (BitVec 8)
  length_eq : bytes.length = 6

/-- Its text. -/
def EtherAddr.text (a : EtherAddr) : CString := rteEtherFormatAddr a.bytes

/-- `struct rte_flow_item_eth`. -/
structure ItemEth where
  dst : EtherAddr
  src : EtherAddr
  type : BitVec 16

/-- `struct rte_flow_item_vlan`. -/
structure ItemVlan where
  tci : BitVec 16
  innerType : BitVec 16

/-- A pattern: its type, and `spec`, `last` and `mask`. -/
inductive Item where
  | eth (spec last mask : Option ItemEth)
  | vlan (spec last mask : Option ItemVlan)

/-- An action with its configuration. -/
inductive Action where
  | jump (group : BitVec 32)
  | queue (index : BitVec 16)
  | ofPopVlan
  | ofPushVlan (ethertype : BitVec 16)
  | ofSetVlanVid (vlanVid : BitVec 16)
  | ofSetVlanPcp (vlanPcp : BitVec 8)

/-- `struct flow_rule`. -/
structure Rule where
  ruleId : ℕ
  attr : FlowAttr
  patterns : List Item
  actions : List Action

/-! ### Their texts -/

/-- The format of `append_flow_attr_json`. -/
def attrText (a : FlowAttr) : CString :=
  object [member "group" (intText (asInt a.group)),
    member "priority" (intText (asInt a.priority)),
    member "ingress" (uintText a.ingress.toNat),
    member "egress" (uintText a.egress.toNat),
    member "transfer" (uintText a.transfer.toNat)]

/-- The format of `append_item_eth_json`. -/
def ethText (e : ItemEth) : CString :=
  object [member "dst" (quoted e.dst.text), member "src" (quoted e.src.text),
    member "type" (quoted (hexText 4 e.type.toNat))]

/-- The format of `append_item_vlan_json`. -/
def vlanText (v : ItemVlan) : CString :=
  object [member "tci" (quoted (hexText 4 v.tci.toNat)),
    member "inner_type" (quoted (hexText 4 v.innerType.toNat))]

/-- `str_type` of a pattern. -/
def Item.strType : Item → CString
  | .eth .. => "eth"
  | .vlan .. => "vlan"

/-- The texts of `spec`, `last` and `mask`. -/
def Item.elements : Item → List (CString × Option CString)
  | .eth spec last mask => [("spec", spec.map ethText), ("last", last.map ethText),
      ("mask", mask.map ethText)]
  | .vlan spec last mask => [("spec", spec.map vlanText),
      ("last", last.map vlanText), ("mask", mask.map vlanText)]

/-- The text of a pattern. -/
def Item.text (i : Item) : CString :=
  object (member "type" (quoted i.strType) ::
    i.elements.map fun p => member p.1 (p.2.getD "null"))

/-- `str_type` of an action. -/
def Action.strType : Action → CString
  | .jump _ => "jump"
  | .queue _ => "queue"
  | .ofPopVlan => "of_pop_vlan"
  | .ofPushVlan _ => "of_push_vlan"
  | .ofSetVlanVid _ => "of_set_vlan_vid"
  | .ofSetVlanPcp _ => "of_set_vlan_pcp"

/-- The formats of the functions `append_action_*_json`. -/
def Action.conf : Action → CString
  | .jump group => object [member "group" (intText (asInt group.toNat))]
  | .queue index => object [member "index" (uintText index.toNat)]
  | .ofPopVlan => "null"
  | .ofPushVlan type => object [member "ethertype" (quoted (hexText 4 type.toNat))]
  | .ofSetVlanVid vid => object [member "vlan_vid" (quoted (hexText 4 vid.toNat))]
  | .ofSetVlanPcp pcp => object [member "vlan_pcp" (quoted (hexText 1 pcp.toNat))]

/-- The text of an action. -/
def Action.text (a : Action) : CString :=
  object [member "type" (quoted a.strType), member "conf" a.conf]

/-- The text of a rule. -/
def Rule.text (r : Rule) : CString :=
  object [member "rule_id" (intText (asInt r.ruleId)), member "attr" (attrText r.attr),
    member "patterns" (array (r.patterns.map Item.text)),
    member "actions" (array (r.actions.map Action.text))]

/-! ## Writing them -/

/-- `snprintf` at the start of a buffer. -/
def snprintf (size : ℕ) (text : CString) : CString := text.take (size - 1)

/-- `snprintf` behind a text in a buffer, with the size of the whole buffer as the limit. -/
def snprintfBehind (size : ℕ) (str text : CString) : Except Fault (Option CString) :=
  if size < str.length + (snprintf size text).length + 1 then .error .undefined
  else .ok (some (str ++ snprintf size text))

/-- A character instead of the byte at the end of the text.  The text is read again, for which it
needs an end. -/
def putChar (size : ℕ) (str : CString) (c : Char) : Except Fault (Option CString) :=
  if size < str.length + 2 then .error .undefined else .ok (some (str ++ [c]))

/-- What all the functions `append_*_json` of a single object do: the text is written into a local
buffer, and appended if there is room.  `none` is the result -1. -/
def appendStatus (tmpSize : ℕ) (text : CString) (bufSize : ℕ) (str : CString) :
    Except Fault (Option CString) :=
  let tmpStr := snprintf tmpSize text
  if str.length + tmpStr.length > bufSize then .ok none
  else if str.length + tmpStr.length + 1 > bufSize then .error .undefined
  else .ok (some (str ++ tmpStr))

/-- `append_flow_attr_json`. -/
def appendFlowAttrJson (a : FlowAttr) := appendStatus 128 (attrText a)

/-- The size of the local buffer in the function `status` of an action. -/
def Action.tmpSize : Action → ℕ
  | .ofPopVlan => 5
  | _ => 64

/-- The loop of `append_flow_pattern_json` over `spec`, `last` and `mask`.  After a failure the
closing brace is still written, but nobody reads it. -/
def elementLoop (bufSize : ℕ) :
    List (CString × Option CString) → CString → Except Fault (Option CString)
  | [], tmpStr => .ok (some tmpStr)
  | p :: rest, tmpStr =>
    next (snprintfBehind bufSize tmpStr ('"' :: (p.1 ++ "\":"))) fun tmpStr =>
    next (match p.2 with
      | some text => next (appendStatus 128 text (bufSize - tmpStr.length) []) fun status =>
          .ok (some (tmpStr ++ status))
      | none => snprintfBehind bufSize tmpStr "null") fun tmpStr =>
    match rest with
    | [] => .ok (some tmpStr)
    | _ :: _ => next (putChar bufSize tmpStr ',') fun tmpStr => elementLoop bufSize rest tmpStr

/-- What stands in front of the elements of a pattern. -/
def Item.head (i : Item) : CString := "\x7b\"type\":\"" ++ i.strType ++ "\","

/-- The body of the loop of `append_flow_pattern_json`. -/
def itemJson (bufSize : ℕ) (i : Item) : Except Fault (Option CString) :=
  let tmpStr := snprintf bufSize i.head
  next (elementLoop bufSize i.elements tmpStr) fun tmpStr => putChar bufSize tmpStr '\x7d'

/-- What stands in front of the configuration of an action. -/
def Action.head (a : Action) : CString :=
  "\x7b\"type\":\"" ++ a.strType ++ "\",\"conf\":"

/-- The body of the loop of `append_flow_action_json`. -/
def actionJson (bufSize : ℕ) (a : Action) : Except Fault (Option CString) :=
  let tmpStr := snprintf bufSize a.head
  next (appendStatus a.tmpSize a.conf (bufSize - tmpStr.length) []) fun status =>
    putChar bufSize (tmpStr ++ status) '\x7d'

/-- `append_flow_pattern_json`. -/
def appendFlowPatternJson (bufSize : ℕ) (patterns : List Item) : Except Fault (Option CString) :=
  Writing.partsLoop bufSize (itemJson bufSize) patterns []

/-- `append_flow_action_json`. -/
def appendFlowActionJson (bufSize : ℕ) (actions : List Action) : Except Fault (Option CString) :=
  Writing.partsLoop bufSize (actionJson bufSize) actions []

/-- `append_flow_rule_json`.  The text has been cut when its length is looked at. -/
def appendFlowRuleJson (bufSize : ℕ) (r : Rule) : Except Fault (Option CString) :=
  next (appendFlowAttrJson r.attr bufSize []) fun attrStr =>
  next (appendFlowPatternJson bufSize r.patterns) fun patternStr =>
  next (appendFlowActionJson bufSize r.actions) fun actionsStr =>
    let tmpStr := snprintf bufSize ("\x7b\"rule_id\":" ++ intText (asInt r.ruleId) ++
      ",\"attr\":" ++ attrStr ++ ",\"patterns\":[" ++ patternStr ++
      "],\"actions\":[" ++ actionsStr ++ "]\x7d")
    if tmpStr.length > bufSize - 1 then .ok none else .ok (some (snprintf bufSize tmpStr))

/-- The loop of `append_flow_json` over the rules, the latest first: what has been written, and the
length of the text of the last rule. -/
def flowLoop (bufSize : ℕ) : List Rule → ℕ → CString → ℕ → Except Fault (Option (CString × ℕ))
  | [], _, output, flowLen => .ok (some (output, flowLen))
  | r :: rest, strSize, output, _ =>
    next (appendFlowRuleJson bufSize r) fun flowStr =>
      if strSize = 0 then
        flowLoop bufSize rest flowStr.length (snprintf bufSize flowStr) flowStr.length
      else if strSize + (flowStr.length + 1) > bufSize - 1 then .ok none
      else flowLoop bufSize rest (strSize + (flowStr.length + 1))
        (snprintf bufSize (flowStr ++ ',' :: output)) flowStr.length

/-- `append_flow_json` on an empty `output`.  If there is no rule then the last test is made with
what `malloc` has returned, which reads as a text of the length `stale`; a buffer without any room
cannot be read at all. -/
def appendFlowJson (bufSize stale : ℕ) (rules : List Rule) : Except Fault (Option CString) :=
  if bufSize = 0 then .error .undefined
  else
    next (flowLoop bufSize rules 0 [] stale) fun r =>
      if "[]".length + r.2 > bufSize - 1 then .ok none
      else .ok (some (snprintf bufSize ('[' :: (r.1 ++ "]"))))

/-! ## The lengths of the texts -/

theorem length_member (name text : CString) :
    (member name text).length = name.length + text.length + 3 := by
  simp only [member, List.length_cons, List.length_append]
  omega

theorem length_quoted (s : CString) : (quoted s).length = s.length + 2 := by
  simp only [quoted, List.length_append]
  show 1 + s.length + 1 = _
  omega

theorem length_object_cons (t : CString) (ts : List CString) :
    (object (t :: ts)).length = t.length + (ts.map fun u => u.length + 1).sum + 2 := by
  have hsum : ([','].intercalate (t :: ts)).length =
      t.length + (ts.map fun u => u.length + 1).sum := by
    induction ts generalizing t with
    | nil => rw [List.intercalate_singleton]; rfl
    | cons u ts ih =>
      rw [List.intercalate_cons_cons, List.length_append, List.length_append, ih, List.map_cons,
        List.sum_cons, List.length_singleton]
      omega
  rw [object, List.length_cons, List.length_append, hsum]
  rfl

theorem length_intText_asInt (n : ℕ) : (intText (asInt n)).length ≤ 11 := by
  have hlo := Int.le_bmod (x := n) (m := 2 ^ 32) (by omega)
  have hhi := Int.bmod_lt (x := n) (m := 2 ^ 32) (by omega)
  exact length_intText_int hlo hhi

theorem length_hexText {k n : ℕ} (hk : 0 < k) (h : n < 16 ^ k) : (hexText k n).length = k + 2 := by
  have hle : (Nat.toDigits 16 n).length ≤ k :=
    (Nat.length_toDigits_le_iff (by decide) hk).mpr h
  simp only [hexText, List.length_append, List.length_replicate]
  show 2 + _ + _ = _
  omega

theorem length_uintText_bool (b : Bool) : (uintText b.toNat).length = 1 := by cases b <;> rfl

theorem EtherAddr.length_text (a : EtherAddr) : a.text.length = 17 :=
  (rteEtherFormatAddr_spec a.length_eq).2

/-- The attributes are longer than anything that is cut, and fit the local buffer. -/
theorem length_attrText (a : FlowAttr) : 50 < (attrText a).length ∧ (attrText a).length < 128 := by
  have hgroup := length_intText_asInt a.group
  have hpriority := length_intText_asInt a.priority
  have hlen : (attrText a).length = 58 + (intText (asInt a.group)).length +
      (intText (asInt a.priority)).length := by
    simp only [attrText, length_object_cons, length_member, List.map_cons, List.map_nil,
      List.sum_cons, List.sum_nil, length_uintText_bool]
    show 5 + _ + 3 + (8 + _ + 3 + 1 + (7 + 1 + 3 + 1 + (6 + 1 + 3 + 1 + (8 + 1 + 3 + 1 + 0)))) + 2 = _
    omega
  omega

theorem length_ethText (e : ItemEth) : (ethText e).length < 128 := by
  have htype := length_hexText (show 0 < 4 by decide) e.type.isLt
  simp only [ethText, length_object_cons, length_member, length_quoted, EtherAddr.length_text,
    htype, List.map_cons, List.map_nil, List.sum_cons, List.sum_nil]
  decide

theorem length_vlanText (v : ItemVlan) : (vlanText v).length < 128 := by
  have htci := length_hexText (show 0 < 4 by decide) v.tci.isLt
  have htype := length_hexText (show 0 < 4 by decide) v.innerType.isLt
  simp only [vlanText, length_object_cons, length_member, length_quoted, htci, htype,
    List.map_cons, List.map_nil, List.sum_cons, List.sum_nil]
  decide

theorem Item.length_elements (i : Item) : ∀ p ∈ i.elements, ∀ t ∈ p.2, t.length < 128 := by
  have hmap {α : Type} {text : α → CString} (h : ∀ a, (text a).length < 128) (o : Option α) :
      ∀ t ∈ o.map text, t.length < 128 := by
    intro t ht
    obtain ⟨a, -, rfl⟩ := Option.mem_map.mp ht
    exact h a
  cases i with
  | eth spec last mask =>
    simp only [Item.elements, List.forall_mem_cons]
    exact ⟨hmap length_ethText spec, hmap length_ethText last, hmap length_ethText mask,
      List.forall_mem_nil _⟩
  | vlan spec last mask =>
    simp only [Item.elements, List.forall_mem_cons]
    exact ⟨hmap length_vlanText spec, hmap length_vlanText last, hmap length_vlanText mask,
      List.forall_mem_nil _⟩

theorem Action.length_conf (a : Action) : a.conf.length < a.tmpSize := by
  have hone {name text : CString} (hname : name.length ≤ 9) (htext : text.length ≤ 11) :
      (object [member name text]).length < 64 := by
    rw [length_object_cons, length_member]
    show _ + 0 + 2 < 64
    omega
  have hhex {k n : ℕ} (hk : 0 < k) (hle : k ≤ 7) (h : n < 16 ^ k) :
      (quoted (hexText k n)).length ≤ 11 := by
    rw [length_quoted, length_hexText hk h]
    omega
  cases a with
  | jump group => exact hone (by decide) (length_intText_asInt _)
  | queue index =>
    have hle : (uintText index.toNat).length ≤ 5 :=
      length_uintText_le (by decide) (index.isLt.trans (by decide))
    exact hone (by decide) (hle.trans (by decide))
  | ofPopVlan => decide
  | ofPushVlan type => exact hone (by decide) (hhex (by decide) (by decide) type.isLt)
  | ofSetVlanVid vid => exact hone (by decide) (hhex (by decide) (by decide) vid.isLt)
  | ofSetVlanPcp pcp =>
    -- one digit is asked for, and two are written where the byte needs them
    have hle : (Nat.toDigits 16 pcp.toNat).length ≤ 2 :=
      (Nat.length_toDigits_le_iff (by decide) (by decide)).mpr pcp.isLt
    refine hone (by decide) ?_
    simp only [length_quoted, hexText, List.length_append, List.length_replicate]
    show 2 + _ + _ + 2 ≤ 11
    omega

/-! ## The marks of the texts -/

/-- The pieces of `spec`, `last` and `mask`. -/
def elementPieces : List (CString × Option CString) → List (CString × Care)
  | [] => []
  | [p] => [('"' :: (p.1 ++ "\":"), .unnoticed), elementPiece p.2]
  | p :: q :: rest => ('"' :: (p.1 ++ "\":"), .unnoticed) :: elementPiece p.2 ::
      (",", .unnoticed) :: elementPieces (q :: rest)
where
  /-- The value of one of them. -/
  elementPiece : Option CString → CString × Care
    | some text => (text, .late)
    | none => ("null", .unnoticed)

/-- The pieces of a pattern. -/
def Item.pieces (i : Item) : List (CString × Care) :=
  (i.head, .unnoticed) :: (elementPieces i.elements ++ [("\x7d".toList, .unnoticed)])

/-- The pieces of an action. -/
def Action.pieces (a : Action) : List (CString × Care) :=
  [(a.head, .unnoticed), (a.conf, .late), ("\x7d", .unnoticed)]

/-- The marks of a rule: of its attributes, its patterns and its actions. -/
def Rule.marks (r : Rule) : List Mark :=
  ⟨(attrText r.attr).length, .late⟩ ::
    (Writing.partsMarks (fun i => Writing.marks 0 i.pieces) Item.text r.patterns 0 ++
      Writing.partsMarks (fun a => Writing.marks 0 a.pieces) Action.text r.actions 0)

/-- The marks of the rules behind the latest one, with the length of what has been written. -/
def listMarks : List Rule → ℕ → List Mark
  | [], _ => []
  | r :: rest, n =>
    r.marks ++ ⟨n + (r.text.length + 1), .noticed⟩ :: listMarks rest (n + (r.text.length + 1))

/-- The array of the rules, the oldest first. -/
def flowArray (rules : List Rule) : CString := array (rules.reverse.map Rule.text)

theorem flowArray_nil : flowArray [] = '[' :: ([] ++ "]".toList) := rfl

theorem flowArray_singleton (r : Rule) : flowArray [r] = '[' :: (r.text ++ "]") := by
  rw [flowArray, List.reverse_singleton, List.map_singleton, array, List.intercalate_singleton]

/-- **The marks of the status**, for the rules of a port, the latest first.  The brackets are
noticed if there is one rule. -/
def flowMarks : List Rule → List Mark
  | [] => []
  | [r] => r.marks ++ [⟨r.text.length + 2, .noticed⟩]
  | r :: r' :: rest => r.marks ++ (listMarks (r' :: rest) r.text.length ++
      [⟨(flowArray (r :: r' :: rest)).length, .unnoticed⟩])

/-! ## What is written -/

section Write

variable {size n stale : ℕ} {str : CString} {m : Mark} {r : Rule} {rules : List Rule}
  {l : List (CString × Option CString)}

theorem snprintf_of_lt {text : CString} (h : text.length < size) : snprintf size text = text :=
  List.take_of_length_le (by omega)

theorem snprintfBehind_eq (hstr : str ≠ []) (text : CString) :
    snprintfBehind size str text =
      outcome .undefined size [⟨str.length + text.length, .unnoticed⟩] (str ++ text) := by
  have hpos := List.length_pos_of_ne_nil hstr
  rw [snprintfBehind]
  by_cases hfits : str.length + text.length < size
  · rw [snprintf_of_lt (by omega), if_neg (by omega), outcome_cons_of_lt hfits]
    rfl
  · have hlen : (snprintf size text).length = min (size - 1) text.length := List.length_take ..
    rw [if_pos (by omega), outcome_cons_of_le (by simpa using hfits)]
    rfl

theorem putChar_eq (str : CString) (c : Char) :
    putChar size str c =
      outcome .undefined size [⟨str.length + 1, .unnoticed⟩] (str ++ [c]) := by
  rw [putChar]
  by_cases hfits : str.length + 1 < size
  · rw [if_neg (by omega), outcome_cons_of_lt hfits]
    rfl
  · rw [if_pos (by omega), outcome_cons_of_le (by simpa using hfits)]
    rfl

/-- The text of a single object is noticed one character too late. -/
theorem appendStatus_eq {tmpSize : ℕ} {text : CString} (htext : text.length < tmpSize)
    (hn : n < size) :
    appendStatus tmpSize text (size - n) [] =
      outcome .undefined size [⟨n + text.length, .late⟩] text := by
  rw [appendStatus, snprintf_of_lt htext]
  simp only [List.length_nil, Nat.zero_add, List.nil_append]
  by_cases hfits : n + text.length < size
  · rw [if_neg (by omega), if_neg (by omega), outcome_cons_of_lt hfits]
    rfl
  rw [outcome_cons_of_le (by simpa using hfits)]
  by_cases hover : size < n + text.length
  · rw [if_pos (by omega), if_pos (.inr ⟨rfl, hover⟩)]
  rw [if_neg (by omega), if_pos (by omega)]
  refine (if_neg ?_).symm
  rintro (h | h)
  · cases h
  · exact hover h.2

/-- The value of an element behind its name. -/
theorem element_eq {o : Option CString} (ho : ∀ t ∈ o, t.length < 128)
    (hstr : str ≠ []) (hlt : str.length < size) :
    (match o with
      | some text => next (appendStatus 128 text (size - str.length) []) fun status =>
          .ok (some (str ++ status))
      | none => snprintfBehind size str "null") =
      outcome .undefined size [⟨str.length + (elementPieces.elementPiece o).1.length,
        (elementPieces.elementPiece o).2⟩] (str ++ (elementPieces.elementPiece o).1) := by
  cases o with
  | none => exact snprintfBehind_eq hstr _
  | some text =>
    show next (appendStatus 128 text (size - str.length) []) _ = _
    rw [appendStatus_eq (ho text rfl) hlt]
    exact next_outcome fun _ => rfl

/-- **The loop over the elements of a pattern.** -/
theorem elementLoop_eq (hl : ∀ p ∈ l, ∀ t ∈ p.2, t.length < 128) (hstr : str ≠ [])
    (hlt : str.length < size) :
    elementLoop size l str = outcome .undefined size (marks str.length (elementPieces l))
      (str ++ Writing.text (elementPieces l)) := by
  induction l generalizing str with
  | nil =>
    rw [elementLoop, elementPieces, Writing.text, List.flatMap_nil, List.append_nil]
    rfl
  | cons p rest ih =>
    rw [List.forall_mem_cons] at hl
    have hname : str ++ '"' :: (p.1 ++ "\":") ≠ [] := by simp
    rw [elementLoop, snprintfBehind_eq hstr]
    cases rest with
    | nil =>
      rw [elementPieces, append_text_cons]
      refine next_piece (p := ('"' :: (p.1 ++ "\":"), .unnoticed)) fun hfits => ?_
      rw [element_eq hl.1 hname hfits, append_text_cons]
      refine next_piece fun _ => ?_
      rw [Writing.text, List.flatMap_nil, List.append_nil]
      rfl
    | cons q rest =>
      rw [elementPieces, append_text_cons]
      refine next_piece (p := ('"' :: (p.1 ++ "\":"), .unnoticed)) fun hfits => ?_
      rw [element_eq hl.1 hname hfits, append_text_cons]
      refine next_piece fun hvalue => ?_
      simp only
      rw [putChar_eq, append_text_cons]
      exact next_piece (p := (",", .unnoticed)) fun hcomma =>
        ih hl.2 (by simp) hcomma

theorem text_elementPieces (hl : l ≠ []) :
    Writing.text (elementPieces l) =
      [','].intercalate (l.map fun p => member p.1 (p.2.getD "null")) := by
  have hpiece (o : Option CString) :
      (elementPieces.elementPiece o).1 = o.getD "null" := by cases o <;> rfl
  induction l with
  | nil => exact absurd rfl hl
  | cons p rest ih =>
    cases rest with
    | nil =>
      rw [List.map_singleton, List.intercalate_singleton, elementPieces, Writing.text,
        List.flatMap_cons, List.flatMap_cons, hpiece, List.flatMap_nil, List.append_nil, member]
      simp
    | cons q rest =>
      have ih := ih (by simp)
      rw [List.map_cons] at ih
      rw [List.map_cons, List.map_cons, List.intercalate_cons_cons, ← ih, elementPieces,
        Writing.text, List.flatMap_cons, List.flatMap_cons, List.flatMap_cons, hpiece, member,
        Writing.text]
      simp

theorem Item.elements_ne_nil (i : Item) : i.elements ≠ [] := by cases i <;> simp [Item.elements]

theorem Item.text_eq (i : Item) :
    i.text = i.head ++ Writing.text (elementPieces i.elements) ++ "\x7d" := by
  have hne := i.elements_ne_nil
  unfold Item.text Item.head object
  rw [text_elementPieces hne]
  cases hl : i.elements.map fun p => member p.1 (p.2.getD "null") with
  | nil => exact absurd (List.map_eq_nil_iff.mp hl) hne
  | cons t ts =>
    rw [List.intercalate_cons_cons, member, quoted]
    simp

theorem Item.length_head (i : Item) : 0 < i.head.length ∧ i.head.length < 50 := by
  have hlen : i.head.length = 9 + i.strType.length + 2 := by
    unfold Item.head
    simp
    omega
  have htype : i.strType.length ≤ 4 := by
    cases i with
    | eth => exact Nat.le_succ 3
    | vlan => exact Nat.le_refl 4
  omega

/-- **One pattern.** -/
theorem itemJson_eq (i : Item) (hsize : 50 < size) :
    itemJson size i = outcome .undefined size (marks 0 i.pieces) i.text := by
  obtain ⟨hpos, hlt⟩ := i.length_head
  have hhead : (0 : ℕ) + i.head.length < size := by omega
  have hmarks : marks 0 i.pieces = ⟨0 + i.head.length, .unnoticed⟩ ::
      (marks i.head.length (elementPieces i.elements) ++
        [⟨(i.head ++ Writing.text (elementPieces i.elements)).length + 1, .unnoticed⟩]) := by
    unfold Item.pieces
    rw [marks, Nat.zero_add, Writing.marks_append, List.length_append]
    rfl
  rw [hmarks, outcome_cons_of_lt hhead, i.text_eq, itemJson, snprintf_of_lt (by omega),
    elementLoop_eq i.length_elements (List.ne_nil_of_length_pos hpos) (by omega)]
  exact next_outcome fun _ => putChar_eq _ _

theorem Action.text_eq (a : Action) : a.text = a.head ++ a.conf ++ "\x7d" := by
  unfold Action.text Action.head object
  rw [List.intercalate_cons_cons, List.intercalate_singleton, member, member, quoted]
  simp

theorem Action.strType_mem (a : Action) : a.strType ∈ ["jump", "queue", "of_pop_vlan",
    "of_push_vlan", "of_set_vlan_vid", "of_set_vlan_pcp"].map String.toList := by
  cases a <;> exact List.mem_map.mpr ⟨_, by decide, rfl⟩

theorem Action.length_head (a : Action) : a.head.length < 50 := by
  have hlen : a.head.length = 9 + a.strType.length + 9 := by
    unfold Action.head
    simp
    omega
  have htype : a.strType.length ≤ 15 :=
    (by decide : ∀ t ∈ _, t.length ≤ 15) _ a.strType_mem
  omega

/-- **One action.** -/
theorem actionJson_eq (a : Action) (hsize : 50 < size) :
    actionJson size a = outcome .undefined size (marks 0 a.pieces) a.text := by
  have hlt := a.length_head
  have hhead : (0 : ℕ) + a.head.length < size := by omega
  have hmarks : marks 0 a.pieces = ⟨0 + a.head.length, .unnoticed⟩ ::
      ([⟨a.head.length + a.conf.length, .late⟩] ++ [⟨(a.head ++ a.conf).length + 1, .unnoticed⟩]) := by
    unfold Action.pieces
    rw [marks, marks, marks, marks, Nat.zero_add, List.length_append]
    rfl
  rw [hmarks, outcome_cons_of_lt hhead, a.text_eq, actionJson, snprintf_of_lt (by omega),
    appendStatus_eq a.length_conf (by omega)]
  exact next_outcome fun _ => putChar_eq _ _

theorem object_four (k₁ k₂ k₃ k₄ t₁ t₂ u₃ u₄ : CString) :
    object [member k₁ t₁, member k₂ t₂, member k₃ ('[' :: (u₃ ++ [']'])),
        member k₄ ('[' :: (u₄ ++ [']']))] =
      '\x7b' :: '"' :: (k₁ ++ ['"', ':']) ++ t₁ ++ (',' :: '"' :: (k₂ ++ ['"', ':'])) ++ t₂ ++
        (',' :: '"' :: (k₃ ++ ['"', ':', '['])) ++ u₃ ++
        (']' :: ',' :: '"' :: (k₄ ++ ['"', ':', '['])) ++ u₄ ++ (']' :: "\x7d") := by
  unfold object member
  rw [List.intercalate_cons_cons, List.intercalate_cons_cons, List.intercalate_cons_cons,
    List.intercalate_singleton]
  simp only [List.cons_append, List.nil_append, List.append_assoc]

theorem Rule.text_eq (r : Rule) : r.text =
    "\x7b\"rule_id\":" ++ intText (asInt r.ruleId) ++ ",\"attr\":" ++
      attrText r.attr ++ ",\"patterns\":[" ++ [','].intercalate (r.patterns.map Item.text) ++
      "],\"actions\":[" ++ [','].intercalate (r.actions.map Action.text) ++
      "]\x7d" := by
  have hid : "\x7b\"rule_id\":" = '\x7b' :: '"' :: ("rule_id" ++ ['"', ':']) := by
    simp
  have hattr : ",\"attr\":" = ',' :: '"' :: ("attr" ++ ['"', ':']) := by simp
  have hpatterns : ",\"patterns\":[" = ',' :: '"' :: ("patterns" ++ ['"', ':', '[']) := by
    simp
  have hactions : "],\"actions\":[" =
      ']' :: ',' :: '"' :: ("actions" ++ ['"', ':', '[']) := by simp
  have hend : "]\x7d" = ']' :: "\x7d" := by simp
  rw [hid, hattr, hpatterns, hactions, hend]
  exact object_four _ _ _ _ _ _ _ _

/-- **One rule**, which is cut if it is too long. -/
theorem appendFlowRuleJson_eq (r : Rule) (hsize : 0 < size) :
    appendFlowRuleJson size r = outcome .undefined size r.marks (snprintf size r.text) := by
  obtain ⟨hlong, hattr⟩ := length_attrText r.attr
  have hstatus := appendStatus_eq hattr hsize
  rw [Nat.sub_zero, Nat.zero_add] at hstatus
  rw [appendFlowRuleJson, appendFlowAttrJson, hstatus]
  refine next_outcome fun hfits => ?_
  rw [List.forall_mem_singleton] at hfits
  have hfits : (attrText r.attr).length < size := hfits
  rw [appendFlowPatternJson, Writing.partsLoop_eq fun i _ => itemJson_eq i (by omega)]
  refine next_outcome fun _ => ?_
  rw [appendFlowActionJson, Writing.partsLoop_eq fun a _ => actionJson_eq a (by omega)]
  refine Writing.next_outcome_done ?_
  have hcut : (snprintf size r.text).length ≤ size - 1 := List.length_take_le ..
  simp only [List.nil_append]
  rw [← r.text_eq, if_neg (by omega), snprintf, List.take_of_length_le hcut]

/-! ### How full the buffers are -/

theorem Rule.length_text (r : Rule) : (attrText r.attr).length +
    ([','].intercalate (r.patterns.map Item.text)).length +
      ([','].intercalate (r.actions.map Action.text)).length ≤ r.text.length := by
  rw [r.text_eq]
  simp only [List.length_append]
  omega

theorem Rule.lt_length_text (r : Rule) : 50 < r.text.length := by
  have hattr := (length_attrText r.attr).1
  have htext := r.length_text
  omega

theorem Item.text_pieces (i : Item) : Writing.text i.pieces = i.text := by
  rw [i.text_eq]
  unfold Item.pieces Writing.text
  rw [List.flatMap_cons, List.flatMap_append, List.flatMap_singleton, List.append_assoc]

theorem Action.text_pieces (a : Action) : Writing.text a.pieces = a.text := by
  rw [a.text_eq]
  unfold Action.pieces Writing.text
  rw [List.flatMap_cons, List.flatMap_cons, List.flatMap_singleton, List.append_assoc]

theorem fill_le_length {ps : List (CString × Care)} {t : CString} (h : Writing.text ps = t)
    (hm : m ∈ marks 0 ps) : m.fill ≤ t.length := by
  have hle := Writing.fill_le_of_mem_marks hm
  rwa [Nat.zero_add, h] at hle

theorem Rule.fill_le (h : m ∈ r.marks) : m.fill ≤ r.text.length := by
  have htext := r.length_text
  rw [Rule.marks, List.mem_cons, List.mem_append] at h
  rcases h with rfl | h | h
  · show (attrText r.attr).length ≤ _
    omega
  · have hle := Writing.fill_le_of_mem_partsMarks
      (fun i _ m hm => fill_le_length i.text_pieces hm) h
    omega
  · have hle := Writing.fill_le_of_mem_partsMarks
      (fun a _ m hm => fill_le_length a.text_pieces hm) h
    omega

/-- The texts of some rules, each with a comma. -/
def lengths (rules : List Rule) : ℕ := (rules.map fun r => r.text.length + 1).sum

theorem lengths_cons (r : Rule) (rules : List Rule) :
    lengths (r :: rules) = r.text.length + 1 + lengths rules := by
  rw [lengths, List.map_cons, List.sum_cons, lengths]

theorem fill_le_of_mem_listMarks (h : m ∈ listMarks rules n) : m.fill ≤ n + lengths rules := by
  induction rules generalizing n with
  | nil => cases h
  | cons r rest ih =>
    rw [lengths_cons]
    rw [listMarks, List.mem_append, List.mem_cons] at h
    rcases h with h | rfl | h
    · have := Rule.fill_le h
      omega
    · show n + (r.text.length + 1) ≤ _
      omega
    · have := ih h
      omega

/-- The last of these marks is the length of the whole list. -/
theorem lengths_lt_of_fits (hne : rules ≠ [])
    (h : ∀ m ∈ listMarks rules n, m.fill < size) : n + lengths rules < size := by
  induction rules generalizing n with
  | nil => exact absurd rfl hne
  | cons r rest ih =>
    rw [lengths_cons]
    rw [listMarks] at h
    have hmark : n + (r.text.length + 1) < size :=
      h ⟨_, .noticed⟩ (List.mem_append_right _ List.mem_cons_self)
    cases rest with
    | nil =>
      show n + (r.text.length + 1 + 0) < size
      omega
    | cons r' rest =>
      have hrest := ih (by simp) fun m hm =>
        h m (List.mem_append_right _ (List.mem_cons_of_mem _ hm))
      omega

theorem length_flowArray_eq (hne : rules ≠ []) : (flowArray rules).length = lengths rules + 1 := by
  have hrev : rules.reverse.map Rule.text ≠ [] := by simpa using hne
  have hlen := length_intercalate ',' hrev
  have hsum : ((rules.reverse.map Rule.text).map fun t => t.length + 1).sum = lengths rules := by
    rw [List.map_map, List.map_reverse, List.sum_reverse]
    rfl
  rw [flowArray, length_array, ← hsum, ← hlen]

/-- The length of the text of the last rule. -/
def lastLength (rules : List Rule) (flowLen : ℕ) : ℕ :=
  (rules.getLast?.map fun r => r.text.length).getD flowLen

theorem lastLength_cons (r : Rule) (rules : List Rule) (flowLen : ℕ) :
    lastLength (r :: rules) flowLen = lastLength rules r.text.length := by
  rw [lastLength, List.getLast?_cons, lastLength]
  cases rules.getLast? <;> rfl

theorem lastLength_lt (hne : rules ≠ []) (flowLen : ℕ) :
    lastLength rules flowLen < lengths rules := by
  induction rules generalizing flowLen with
  | nil => exact absurd rfl hne
  | cons r rest ih =>
    rw [lastLength_cons, lengths_cons]
    cases rest with
    | nil =>
      show r.text.length < r.text.length + 1 + 0
      omega
    | cons r' rest =>
      have := ih (by simp) r.text.length
      omega

/-! ### The list -/

/-- **The loop over the rules** behind the latest one. -/
theorem flowLoop_eq {output : CString} (hne : output ≠ [])
    (hlt : output.length < size) (flowLen : ℕ) :
    flowLoop size rules output.length output flowLen =
      outcome .undefined size (listMarks rules output.length)
        ([','].intercalate (rules.reverse.map Rule.text ++ [output]), lastLength rules flowLen) := by
  have hpos := List.length_pos_of_ne_nil hne
  induction rules generalizing output flowLen with
  | nil =>
    rw [List.reverse_nil, List.map_nil, List.nil_append, List.intercalate_singleton]
    rfl
  | cons r rest ih =>
    rw [flowLoop, appendFlowRuleJson_eq r (by omega), listMarks]
    refine next_outcome fun _ => ?_
    rw [if_neg (by omega)]
    by_cases hfull : size ≤ output.length + (r.text.length + 1)
    · have hlen : (snprintf size r.text).length = min (size - 1) r.text.length := List.length_take ..
      rw [if_pos (by omega), outcome_cons_of_le hfull, if_pos (.inl rfl)]
    have hlen : (r.text ++ ',' :: output).length = output.length + (r.text.length + 1) := by
      rw [List.length_append, List.length_cons]
      omega
    rw [snprintf_of_lt (by omega), if_neg (by omega), snprintf_of_lt (by omega),
      outcome_cons_of_lt (by simpa using hfull), ← hlen,
      ih (by simp) (by omega) _ (by omega), lastLength_cons, List.reverse_cons, List.map_append,
      List.map_singleton, List.append_assoc, List.singleton_append, intercalate_append_pair]

/-- If the latest rule has been cut then the next one is noticed. -/
theorem flowLoop_full (r : Rule) (rest : List Rule) (hn : size ≤ n) (hsize : 1 < size)
    (output : CString) (flowLen : ℕ) (x : CString × ℕ) :
    flowLoop size (r :: rest) (size - 1) output flowLen =
      outcome .undefined size (listMarks (r :: rest) n) x := by
  have hfull : size ≤ n + (r.text.length + 1) := by omega
  rw [flowLoop, appendFlowRuleJson_eq r (by omega), listMarks]
  refine next_outcome fun _ => ?_
  rw [if_neg (by omega), if_pos (by omega), outcome_cons_of_le hfull, if_pos (.inl rfl)]

theorem Rule.fits_attr (h : ∀ m ∈ r.marks, m.fill < size) : 50 < size :=
  Nat.lt_trans (length_attrText r.attr).1 (h _ List.mem_cons_self)

/-- All the rules. -/
theorem flowLoop_cons_eq (r r' : Rule) (rest : List Rule) (hsize : 0 < size) (stale : ℕ) :
    flowLoop size (r :: r' :: rest) 0 [] stale =
      outcome .undefined size (r.marks ++ listMarks (r' :: rest) r.text.length)
        ([','].intercalate ((r :: r' :: rest).reverse.map Rule.text),
          lastLength (r' :: rest) r.text.length) := by
  rw [flowLoop, appendFlowRuleJson_eq r hsize]
  refine next_outcome fun hfits => ?_
  have hbig := Rule.fits_attr hfits
  have hlong := r.lt_length_text
  rw [if_pos rfl]
  by_cases hlt : r.text.length < size
  · have hne : r.text ≠ [] := List.ne_nil_of_length_pos (by omega)
    have hrev : (r :: r' :: rest).reverse.map Rule.text =
        (r' :: rest).reverse.map Rule.text ++ [r.text] := by
      rw [List.reverse_cons, List.map_append, List.map_singleton]
    rw [snprintf_of_lt hlt, snprintf_of_lt hlt, flowLoop_eq hne hlt, hrev]
  have hlen : (snprintf size r.text).length = size - 1 := by
    rw [snprintf, List.length_take]
    omega
  rw [hlen]
  exact flowLoop_full r' rest (by omega) (by omega) _ _ _

/-- `append_flow_json` succeeds exactly with the whole array of the rules, if it fits. -/
def FlowExact (size stale : ℕ) (rules : List Rule) : Prop :=
  appendFlowJson size stale rules =
    .ok (if (flowArray rules).length < size then some (flowArray rules) else none)

/-- The last test and the brackets. -/
theorem appendFlowJson_eq_next (rules : List Rule) (hsize : size ≠ 0) :
    appendFlowJson size stale rules = next (flowLoop size rules 0 [] stale) fun r =>
      if size ≤ r.2 + 2 then .ok none else .ok (some (snprintf size ('[' :: (r.1 ++ "]")))) := by
  have htwo : "[]".length = 2 := by decide
  have hiff (n : ℕ) : 2 + n > size - 1 ↔ size ≤ n + 2 := by omega
  rw [appendFlowJson, if_neg hsize]
  simp only [htwo, hiff]

theorem flowExact_nil_iff (hsize : size ≠ 0) :
    FlowExact size stale [] ↔ size ≤ 2 ∨ stale + 2 < size := by
  have hlen : (flowArray []).length = 2 := rfl
  rw [FlowExact, appendFlowJson_eq_next _ hsize, flowLoop, hlen]
  show (if size ≤ stale + 2 then _ else _) = _ ↔ _
  by_cases hfull : size ≤ stale + 2
  · rw [if_pos hfull]
    by_cases hfits : 2 < size
    · rw [if_pos hfits]
      exact iff_of_false (by simp) (by omega)
    · rw [if_neg hfits]
      exact iff_of_true rfl (by omega)
  · rw [if_neg hfull, if_pos (by omega), ← flowArray_nil, snprintf_of_lt (by rw [hlen]; omega)]
    exact iff_of_true rfl (by omega)

/-- One rule: the brackets are noticed. -/
theorem flowExact_singleton_iff (r : Rule) (hsize : 0 < size) :
    FlowExact size stale [r] ↔ Writing.AllSeen size (flowMarks [r]) := by
  have hlen : (flowArray [r]).length = r.text.length + 2 := by
    have hnil : lengths [] = 0 := rfl
    rw [length_flowArray_eq (by simp), lengths_cons, hnil]
  have hjson : appendFlowJson size stale [r] =
      outcome .undefined size (flowMarks [r]) (flowArray [r]) := by
    rw [appendFlowJson_eq_next _ (by omega), flowLoop, appendFlowRuleJson_eq r hsize,
      Writing.next_assoc, flowMarks]
    refine next_outcome fun _ => ?_
    rw [if_pos rfl, flowLoop]
    show (if size ≤ (snprintf size r.text).length + 2 then _ else
      Except.ok (some (snprintf size ('[' :: (snprintf size (snprintf size r.text) ++ "]"))))) =
        _
    by_cases hfits : r.text.length + 2 < size
    · have hself : snprintf size r.text = r.text := snprintf_of_lt (by omega)
      rw [hself, hself, if_neg (by omega), outcome_cons_of_lt hfits, ← flowArray_singleton,
        snprintf_of_lt (by omega)]
      rfl
    · have hcut : (snprintf size r.text).length = min (size - 1) r.text.length := List.length_take ..
      rw [if_pos (by omega), outcome_cons_of_le (by simpa using hfits), if_pos (.inl rfl)]
  rw [FlowExact, hjson]
  refine Writing.outcome_eq_ite_iff ?_
  rw [hlen, flowMarks]
  constructor
  · intro h
    exact h ⟨_, .noticed⟩ (List.mem_append_right _ List.mem_cons_self)
  intro h m hm
  rw [List.mem_append, List.mem_singleton] at hm
  rcases hm with hm | rfl
  · have := Rule.fill_le hm
    omega
  · exact h

/-- All that is written before the brackets is shorter than the array. -/
theorem fill_lt_flowArray {r' : Rule} {rest : List Rule}
    (hm : m ∈ r.marks ++ listMarks (r' :: rest) r.text.length) :
    m.fill < (flowArray (r :: r' :: rest)).length := by
  rw [length_flowArray_eq (by simp), lengths_cons]
  rcases List.mem_append.mp hm with hm | hm
  · have := Rule.fill_le hm
    omega
  · have := fill_le_of_mem_listMarks hm
    omega

/-- Several rules: the brackets are not noticed. -/
theorem flowExact_cons_iff (r r' : Rule) (rest : List Rule) (hsize : 0 < size) :
    FlowExact size stale (r :: r' :: rest) ↔
      Writing.AllSeen size (flowMarks (r :: r' :: rest)) := by
  have hlast := lastLength_lt (show r' :: rest ≠ [] by simp) r.text.length
  have hlong := r.lt_length_text
  rw [FlowExact, appendFlowJson_eq_next _ (by omega), flowLoop_cons_eq r r' rest hsize, flowMarks,
    ← List.append_assoc]
  refine Writing.next_cut_iff (fun m hm => ?_) (fun hfits => ?_) fun hlt => snprintf_of_lt hlt
  · exact (fill_lt_flowArray hm).le
  · have hlt := lengths_lt_of_fits (by simp) fun m hm => hfits m (List.mem_append_right _ hm)
    exact if_neg (by omega)

/-- **When the rules of a port are shown as a whole or not at all.** -/
theorem flowExact_iff (rules : List Rule) :
    FlowExact size stale rules ↔ size ≠ 0 ∧ (rules = [] → size ≤ 2 ∨ stale + 2 < size) ∧
      Writing.AllSeen size (flowMarks rules) := by
  by_cases hsize : size = 0
  · refine iff_of_false (fun h => ?_) fun h => h.1 hsize
    rw [FlowExact, appendFlowJson, if_pos hsize] at h
    cases h
  rcases rules with _ | ⟨r, _ | ⟨r', rest⟩⟩
  · rw [flowExact_nil_iff hsize]
    exact ⟨fun h => ⟨hsize, fun _ => h, fun m hm => by cases hm⟩, fun h => h.2.1 rfl⟩
  · rw [flowExact_singleton_iff r (by omega)]
    exact ⟨fun h => ⟨hsize, fun hnil => absurd hnil (List.cons_ne_nil _ _), h⟩, fun h => h.2.2⟩
  · rw [flowExact_cons_iff r r' rest (by omega)]
    exact ⟨fun h => ⟨hsize, fun hnil => absurd hnil (List.cons_ne_nil _ _), h⟩, fun h => h.2.2⟩

end Write

/-! ## What the array reads as -/

/-- The attributes. -/
def attrJson (a : FlowAttr) : Json :=
  .obj [("group", .num (asInt a.group) 0), ("priority", .num (asInt a.priority) 0),
    ("ingress", .num a.ingress.toNat 0), ("egress", .num a.egress.toNat 0),
    ("transfer", .num a.transfer.toNat 0)]

/-- An element of a pattern `eth`. -/
def ethJson (e : ItemEth) : Json :=
  .obj [("dst", .str e.dst.text), ("src", .str e.src.text),
    ("type", .str (hexText 4 e.type.toNat))]

/-- An element of a pattern `vlan`. -/
def vlanJson (v : ItemVlan) : Json :=
  .obj [("tci", .str (hexText 4 v.tci.toNat)),
    ("inner_type", .str (hexText 4 v.innerType.toNat))]

/-- A pattern, with all its elements. -/
def Item.json : Item → Json
  | .eth spec last mask => .obj [("type", .str "eth"),
      ("spec", (spec.map ethJson).getD .null), ("last", (last.map ethJson).getD .null),
      ("mask", (mask.map ethJson).getD .null)]
  | .vlan spec last mask => .obj [("type", .str "vlan"),
      ("spec", (spec.map vlanJson).getD .null),
      ("last", (last.map vlanJson).getD .null),
      ("mask", (mask.map vlanJson).getD .null)]

/-- The configuration of an action. -/
def Action.confJson : Action → Json
  | .jump group => .obj [("group", .num (asInt group.toNat) 0)]
  | .queue index => .obj [("index", .num index.toNat 0)]
  | .ofPopVlan => .null
  | .ofPushVlan type => .obj [("ethertype", .str (hexText 4 type.toNat))]
  | .ofSetVlanVid vid => .obj [("vlan_vid", .str (hexText 4 vid.toNat))]
  | .ofSetVlanPcp pcp => .obj [("vlan_pcp", .str (hexText 1 pcp.toNat))]

/-- An action. -/
def Action.json (a : Action) : Json :=
  .obj [("type", .str a.strType), ("conf", a.confJson)]

/-- A rule, with its attributes, all its patterns and all its actions. -/
def Rule.json (r : Rule) : Json :=
  .obj [("rule_id", .num (asInt r.ruleId) 0), ("attr", attrJson r.attr),
    ("patterns", .arr (r.patterns.map Item.json)),
    ("actions", .arr (r.actions.map Action.json))]

theorem plain_toDigits (n : ℕ) : Json.Plain (Nat.toDigits 16 n) := by
  have hdigit : ∀ d < 16, Json.Plain [Nat.digitChar d] := by decide
  induction n using Nat.strongRecOn with
  | ind n ih =>
    rw [Nat.toDigits_eq_if (by decide)]
    split
    · rename_i hlt
      exact hdigit n hlt
    · exact Json.plain_append.mpr ⟨ih _ (by omega), hdigit _ (Nat.mod_lt _ (by decide))⟩

theorem plain_hexText (k n : ℕ) : Json.Plain (hexText k n) := by
  refine Json.plain_append.mpr ⟨Json.plain_append.mpr ⟨by decide, fun c hc => ?_⟩, plain_toDigits n⟩
  obtain rfl := List.eq_of_mem_replicate hc
  decide

theorem reads_attrText (a : FlowAttr) : Json.Reads (attrText a) (attrJson a) :=
  reads_object (reads_members (reads_intText _)
    (reads_members (reads_intText _)
      (reads_members (reads_uintText _)
        (reads_members (reads_uintText _)
          (reads_members (reads_uintText _) .nil)))))

theorem reads_ethText (e : ItemEth) : Json.Reads (ethText e) (ethJson e) :=
  reads_object (reads_members (reads_quoted (rteEtherFormatAddr_spec e.dst.length_eq).1)
    (reads_members (reads_quoted (rteEtherFormatAddr_spec e.src.length_eq).1)
      (reads_members (reads_quoted (plain_hexText _ _)) .nil)))

theorem reads_vlanText (v : ItemVlan) : Json.Reads (vlanText v) (vlanJson v) :=
  reads_object (reads_members (reads_quoted (plain_hexText _ _))
    (reads_members (reads_quoted (plain_hexText _ _)) .nil))

theorem reads_getD {α : Type} {text : α → CString} {json : α → Json}
    (h : ∀ a, Json.Reads (text a) (json a)) (o : Option α) :
    Json.Reads ((o.map text).getD "null") ((o.map json).getD .null) := by
  cases o with
  | none => exact Json.reads_null
  | some a => exact h a

theorem reads_item {type spec last mask : CString} {spec' last' mask' : Json}
    (htype : Json.Plain type) (hspec : Json.Reads spec spec') (hlast : Json.Reads last last')
    (hmask : Json.Reads mask mask') :
    Json.Reads (object [member "type" (quoted type), member "spec" spec,
        member "last" last, member "mask" mask])
      (.obj [("type", .str type), ("spec", spec'), ("last", last'),
        ("mask", mask')]) :=
  reads_object (reads_members (reads_quoted htype)
    (reads_members hspec (reads_members hlast
      (reads_members hmask .nil))))

theorem Item.reads_text (i : Item) : Json.Reads i.text i.json := by
  cases i with
  | eth spec last mask =>
    exact reads_item (by decide : Json.Plain "eth") (reads_getD reads_ethText spec)
      (reads_getD reads_ethText last) (reads_getD reads_ethText mask)
  | vlan spec last mask =>
    exact reads_item (by decide : Json.Plain "vlan") (reads_getD reads_vlanText spec)
      (reads_getD reads_vlanText last) (reads_getD reads_vlanText mask)

theorem Action.reads_conf (a : Action) : Json.Reads a.conf a.confJson := by
  cases a with
  | jump group => exact reads_object (reads_members (reads_intText _) .nil)
  | queue index => exact reads_object (reads_members (reads_uintText _) .nil)
  | ofPopVlan => exact Json.reads_null
  | ofPushVlan _ | ofSetVlanVid _ | ofSetVlanPcp _ =>
    exact reads_object (reads_members (reads_quoted (plain_hexText _ _)) .nil)

theorem Action.reads_text (a : Action) : Json.Reads a.text a.json := by
  have hplain : Json.Plain a.strType := (by decide : ∀ t ∈ _, Json.Plain t) _ a.strType_mem
  exact reads_object (reads_members (reads_quoted hplain)
    (reads_members a.reads_conf .nil))

/-- **A rule is well-formed JSON.** -/
theorem Rule.reads_text (r : Rule) : Json.Reads r.text r.json :=
  reads_object (reads_members (reads_intText _)
    (reads_members (reads_attrText _)
      (reads_members (reads_array_map fun i _ => i.reads_text)
        (reads_members (reads_array_map fun a _ => a.reads_text) .nil))))

theorem decode_flowArray (rules : List Rule) :
    Json.decode (flowArray rules) = some (.arr (rules.reverse.map Rule.json)) :=
  Json.decode_of_reads (reads_array_map fun r _ => r.reads_text)

/-- A rule that drops nothing and changes nothing. -/
def plainRule (ruleId : ℕ) : Rule := ⟨ruleId, ⟨0, 0, true, false, false⟩, [.eth none none none], []⟩

/-- The array of several rules is cut when it is just one character too long. -/
theorem not_flowExact_of_brackets (stale : ℕ) (r r' : Rule) (rest : List Rule) :
    ¬ FlowExact (flowArray (r :: r' :: rest)).length stale (r :: r' :: rest) := by
  have hlen := length_flowArray_eq (show r :: r' :: rest ≠ [] by simp)
  rw [lengths_cons] at hlen
  rw [flowExact_cons_iff r r' rest (by omega), flowMarks, ← List.append_assoc]
  intro hall
  have hfirst : Writing.firstOver (flowArray (r :: r' :: rest)).length
      (r.marks ++ listMarks (r' :: rest) r.text.length) = none :=
    Writing.firstOver_eq_none_iff.mpr fun m hm => fill_lt_flowArray hm
  have hseen := hall ⟨(flowArray (r :: r' :: rest)).length, .unnoticed⟩ (by
    rw [Writing.firstOver_append, hfirst, Option.none_or]
    exact Writing.firstOver_cons_of_le (m := ⟨_, .unnoticed⟩) (Nat.le_refl _) [])
  rcases hseen with hcare | hcare
  · cases hcare
  · cases hcare.1

variable {rules : List Rule}

/-- In the buffer for the flow rules of a port single texts always fit, and what is shown there is
made of the texts of the rules. -/
theorem flowLoop_eq_appendFlowLoop
    (hfits : ∀ r ∈ rules, ∀ m ∈ r.marks, m.fill < flowBufSize) {output : CString}
    (hlt : output.length < flowBufSize) (flowLen : ℕ) :
    flowLoop flowBufSize rules output.length output flowLen =
      .ok ((appendFlowLoop (rules.map fun r => snprintf flowBufSize r.text) output.length output).map
        fun o => (o, ((rules.getLast?.map fun r => (snprintf flowBufSize r.text).length)).getD
          flowLen)) := by
  have hsize : flowBufSize = 30208 := rfl
  induction rules generalizing output flowLen with
  | nil => rfl
  | cons r rest ih =>
    rw [List.forall_mem_cons] at hfits
    have hcut : (snprintf flowBufSize r.text).length ≤ flowBufSize - 1 := List.length_take_le ..
    have hself : snprintf flowBufSize (snprintf flowBufSize r.text) = snprintf flowBufSize r.text :=
      snprintf_of_lt (by omega)
    rw [flowLoop, appendFlowRuleJson_eq r (by omega), Writing.outcome_of_fits hfits.1,
      List.map_cons, appendFlowLoop, List.getLast?_cons]
    have hlast (fl : ℕ) : (rest.getLast?.map fun r => (snprintf flowBufSize r.text).length).getD
        (snprintf flowBufSize r.text).length =
        ((some (rest.getLast?.getD r)).map fun r => (snprintf flowBufSize r.text).length).getD fl := by
      cases rest.getLast? <;> rfl
    show (if output.length = 0 then _ else _) = _
    by_cases hzero : output.length = 0
    · rw [if_pos hzero, if_pos hzero, hself, ih hfits.2 (by omega), hlast flowLen]
      have htake : (snprintf flowBufSize r.text).take (flowBufSize - 1) =
          snprintf flowBufSize r.text := hself
      rw [htake]
    rw [if_neg hzero, if_neg hzero]
    by_cases hfull : output.length + ((snprintf flowBufSize r.text).length + 1) > flowBufSize - 1
    · rw [if_pos hfull, if_pos hfull]
      rfl
    have hlen : (snprintf flowBufSize r.text ++ ',' :: output).length =
        output.length + ((snprintf flowBufSize r.text).length + 1) := by
      rw [List.length_append, List.length_cons]
      omega
    have hwhole : snprintf flowBufSize (snprintf flowBufSize r.text ++ ',' :: output) =
        snprintf flowBufSize r.text ++ ',' :: output := snprintf_of_lt (by omega)
    rw [if_neg hfull, if_neg hfull, hwhole, ← hlen, ih hfits.2 (by omega), hlast flowLen]

/-- **What `phy_port_stats_json` shows** of the rules of a port is what has been described here. -/
theorem appendFlowJson_eq_texts (stale : ℕ)
    (hfits : ∀ r ∈ rules, ∀ m ∈ r.marks, m.fill < flowBufSize) :
    appendFlowJson flowBufSize stale rules =
      .ok (Primary.appendFlowJson stale (rules.map fun r => snprintf flowBufSize r.text)) := by
  have hsize : flowBufSize = 30208 := rfl
  have hnil : ([] : CString).length < flowBufSize := by rw [hsize]; decide
  have hloop := flowLoop_eq_appendFlowLoop hfits hnil stale
  rw [List.length_nil] at hloop
  have htwo : "[]".length = 2 := by decide
  rw [appendFlowJson_eq_next _ (by omega), hloop, Primary.appendFlowJson]
  cases appendFlowLoop (rules.map fun r => snprintf flowBufSize r.text) 0 [] with
  | none => rfl
  | some output =>
    have hlast : (((rules.map fun r => snprintf flowBufSize r.text).getLast?.map List.length).getD
        stale) = (rules.getLast?.map fun r => (snprintf flowBufSize r.text).length).getD stale := by
      rw [List.getLast?_map, Option.map_map]
      rfl
    rw [Option.bind_some, hlast]
    show (if flowBufSize ≤ _ + 2 then _ else _) = _
    by_cases hfull : flowBufSize ≤
        (rules.getLast?.map fun r => (snprintf flowBufSize r.text).length).getD stale + 2
    · rw [if_pos hfull, if_pos (by omega)]
    · rw [if_neg hfull, if_neg (by omega)]
      rfl

end FlowStatus
end SoftPatchPanel.Primary
