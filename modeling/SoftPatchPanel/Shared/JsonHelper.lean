import Mathlib.Algebra.Order.BigOperators.Group.List
import Mathlib.Algebra.Order.Ring.Nat
import Mathlib.Data.List.Forall2
import SoftPatchPanel.Foundation.Json

/-!
# `json_helper.c`: building replies

Replies of the secondary processes are JSON texts that are put together from the
inside out.  Every function appends one member to a text, with a comma in front of it
unless the text is still empty; the text of an array or an object is built in a buffer
of its own first and then put between brackets.

Names and strings are copied as they are.  The buffers grow as they need to; that an
allocation fails is left out.

`Members output ms` and `Elements output vs` say what a buffer holds so far.  Every
function keeps one of them, as long as the names and strings it is given are plain, and
the brackets turn it into a text that reads as an object or an array.
-/

namespace SoftPatchPanel.Shared

/-! ## Numbers -/

/-- `%u`. -/
def uintText (n : ℕ) : CString := Nat.toDigits 10 n

/-- `%d`. -/
def intText (z : ℤ) : CString :=
  if z < 0 then '-' :: Nat.toDigits 10 z.natAbs else Nat.toDigits 10 z.natAbs

/-- `%02X` of a byte. -/
def hexPair (b : BitVec 8) : CString :=
  [(Nat.digitChar (b.toNat / 16)).toUpper, (Nat.digitChar (b.toNat % 16)).toUpper]

/-- `rte_ether_format_addr`. -/
def rteEtherFormatAddr (bytes : List (BitVec 8)) : CString := [':'].intercalate (bytes.map hexPair)

/-- The text of an address. -/
theorem rteEtherFormatAddr_spec {bytes : List (BitVec 8)} (h : bytes.length = 6) :
    Json.Plain (rteEtherFormatAddr bytes) ∧ (rteEtherFormatAddr bytes).length = 17 := by
  have hdigit : ∀ d < 16, Json.Plain [(Nat.digitChar d).toUpper] := by decide
  have hpair (b : BitVec 8) : Json.Plain (hexPair b) := by
    have hlt := b.isLt
    rw [hexPair, ← List.singleton_append]
    exact Json.plain_append.mpr ⟨hdigit _ (by omega), hdigit _ (Nat.mod_lt _ (by decide))⟩
  rcases bytes with _ | ⟨b₀, _ | ⟨b₁, _ | ⟨b₂, _ | ⟨b₃, _ | ⟨b₄, _ | ⟨b₅, _ | ⟨b₆, bs⟩⟩⟩⟩⟩⟩⟩
  all_goals first | refine ⟨?_, rfl⟩ | cases h
  have hcolon : Json.Plain [':'] := by decide
  show Json.Plain ([':'].intercalate [_, _, _, _, _, _])
  simp only [List.intercalate_cons_cons, List.intercalate_singleton, Json.plain_append]
  exact ⟨⟨hpair b₀, hcolon⟩, ⟨hpair b₁, hcolon⟩, ⟨hpair b₂, hcolon⟩, ⟨hpair b₃, hcolon⟩,
    ⟨hpair b₄, hcolon⟩, hpair b₅⟩

variable {n k : ℕ} {ts : List CString} {output t name val : CString} {ms : List (CString × Json)}
  {v : Json} {vs : List Json}

theorem length_uintText_le (hk : 0 < k) (hn : n < 10 ^ k) : (uintText n).length ≤ k :=
  (Nat.length_toDigits_le_iff (by decide) hk).mpr hn

theorem length_intText_le (hk : 0 < k) (hn : n < 10 ^ k) : (intText n).length ≤ k := by
  rw [intText, if_neg (by omega)]
  exact length_uintText_le hk hn

/-- An `int` has at most ten digits and a sign. -/
theorem length_intText_int {z : ℤ} (hlo : -2 ^ 31 ≤ z) (hhi : z < 2 ^ 31) :
    (intText z).length ≤ 11 := by
  have hlen : (uintText z.natAbs).length ≤ 10 := length_uintText_le (by decide) (by omega)
  unfold intText
  split
  · exact Nat.succ_le_succ hlen
  · exact Nat.le_succ_of_le hlen

theorem intText_natCast (n : ℕ) : intText n = Nat.toDigits 10 n := by
  rw [intText, if_neg (by omega), Int.natAbs_natCast]

theorem isDigit_of_mem_intText {c : Char} (h : c ∈ intText n) : c.isDigit = true := by
  rw [intText_natCast] at h
  exact CString.isDigit_of_mem_toDigits h

theorem not_mem_intText (n : ℕ) {c : Char} (hc : c.isDigit = false) : c ∉ intText n := fun hin =>
  absurd (isDigit_of_mem_intText hin) (hc ▸ Bool.false_ne_true)

theorem value_intText {base : ℕ} (hbase : base = 0 ∨ base = 10) (n : ℕ) {rest : CString}
    (h : CString.Ends rest) : CString.value base (intText n ++ rest) = some ((n : ℤ), rest) := by
  rw [intText_natCast]
  exact CString.value_toDigits hbase n h

theorem value_intText_nil (n : ℕ) : CString.value 0 (intText n) = some ((n : ℤ), []) := by
  have h := value_intText (.inl rfl) n CString.ends_nil
  rwa [List.append_nil] at h

/-! ## Members -/

/-- `JSON_APPEND_COMMA`, on the length of what is there. -/
def jsonAppendComma (output : CString) : CString :=
  if output = [] then [] else ", "

/-- A text between quotes. -/
def quoted (val : CString) : CString := "\"" ++ val ++ "\""

/-- `JSON_APPEND_VALUE`: a member with the text of its value. -/
def appendJsonValue (output name val : CString) : CString :=
  output ++ jsonAppendComma output ++ quoted name ++ ": " ++ val

/-- `append_json_uint_value`. -/
def appendJsonUintValue (output name : CString) (val : ℕ) : CString :=
  appendJsonValue output name (uintText val)

/-- `append_json_int_value`. -/
def appendJsonIntValue (output name : CString) (val : ℤ) : CString :=
  appendJsonValue output name (intText val)

/-- `append_json_str_value`. -/
def appendJsonStrValue (output name val : CString) : CString :=
  appendJsonValue output name (quoted val)

/-- `append_json_array_brackets`. -/
def appendJsonArrayBrackets (output name val : CString) : CString :=
  appendJsonValue output name ("[ " ++ val ++ " ]")

/-- `append_json_block_brackets`: without a name it appends an element. -/
def appendJsonBlockBrackets (output name val : CString) : CString :=
  let block := "\x7b " ++ val ++ " \x7d"
  if name = [] then output ++ jsonAppendComma output ++ block
  else appendJsonValue output name block

/-! ## What a buffer holds -/

theorem reads_quoted {s : CString} (hs : Json.Plain s) : Json.Reads (quoted s) (.str s) := by
  have htext : quoted s = '"' :: (s ++ ['"']) := rfl
  rw [htext]
  exact Json.reads_str hs

theorem reads_uintText (n : ℕ) : Json.Reads (uintText n) (.num n 0) := Json.reads_nat n

theorem reads_intText (z : ℤ) : Json.Reads (intText z) (.num z 0) := by
  unfold intText
  by_cases hz : z < 0
  · have hneg : z = -(z.natAbs : ℤ) := by omega
    rw [if_pos hz, hneg, Int.natAbs_neg, Int.natAbs_natCast]
    exact Json.reads_neg z.natAbs
  · have hpos : z = (z.natAbs : ℤ) := by omega
    rw [if_neg hz, hpos, Int.natAbs_natCast]
    exact Json.reads_nat z.natAbs

/-- The buffer holds the texts `ts`, with a comma between each two of them. -/
def Holds (output : CString) (ts : List CString) : Prop :=
  output = (", ".toList).intercalate ts ∧ ∀ t ∈ ts, t ≠ []

/-- The buffer holds these members. -/
def Members (output : CString) (ms : List (CString × Json)) : Prop :=
  ∃ ts, Holds output ts ∧ List.Forall₂ Json.ReadsMember ts ms

/-- The buffer holds these elements. -/
def Elements (output : CString) (vs : List Json) : Prop :=
  ∃ ts, Holds output ts ∧ List.Forall₂ Json.Reads ts vs

theorem length_intercalate (d : Char) (hne : ts ≠ []) :
    ([d].intercalate ts).length + 1 = (ts.map fun t => t.length + 1).sum := by
  induction ts with
  | nil => exact absurd rfl hne
  | cons t ts ih =>
    cases ts with
    | nil => rw [List.intercalate_singleton, List.map_singleton, List.sum_singleton]
    | cons u ts =>
      rw [List.intercalate_cons_cons, List.length_append, List.length_append, List.map_cons,
        List.sum_cons, ← ih (by simp), List.length_singleton]
      omega

theorem length_intercalate_le (d : Char) {k : ℕ} (h : ∀ t ∈ ts, t.length < k) :
    ([d].intercalate ts).length ≤ ts.length * k := by
  rcases eq_or_ne ts [] with rfl | hne
  · exact Nat.zero_le _
  have hlen := length_intercalate d hne
  have hsum := List.sum_le_card_nsmul (ts.map fun t => t.length + 1) k (List.forall_mem_map.mpr h)
  rw [List.length_map, Nat.nsmul_eq_mul] at hsum
  omega

theorem intercalate_append_singleton {sep : CString} (hne : ts ≠ [])
    (t : CString) : sep.intercalate (ts ++ [t]) = sep.intercalate ts ++ sep ++ t := by
  induction ts with
  | nil => exact absurd rfl hne
  | cons u ts ih =>
    cases ts with
    | nil => simp only [List.nil_append, List.cons_append, List.intercalate_cons_cons,
        List.intercalate_singleton]
    | cons u' ts =>
      have htail := ih (List.cons_ne_nil _ _)
      simp only [List.cons_append, List.intercalate_cons_cons] at htail ⊢
      rw [htail]
      simp only [List.append_assoc]

/-- One more text goes behind a comma, unless it is the first. -/
theorem Holds.append (h : Holds output ts)
    (ht : t ≠ []) : Holds (output ++ jsonAppendComma output ++ t) (ts ++ [t]) := by
  obtain ⟨rfl, hne⟩ := h
  refine ⟨?_, List.forall_mem_append.mpr ⟨hne, List.forall_mem_singleton.mpr ht⟩⟩
  cases ts with
  | nil =>
    rw [List.intercalate_nil, List.nil_append, List.nil_append, List.intercalate_singleton,
      jsonAppendComma, if_pos rfl, List.nil_append]
  | cons u ts =>
    have hfull : (", ".toList).intercalate (u :: ts) ≠ [] := by
      have hlen := Json.length_add_le_intercalate_cons ", " u ts
      have hu : 0 < u.length := List.length_pos_iff.mpr (hne u List.mem_cons_self)
      rw [← List.length_pos_iff]
      omega
    rw [jsonAppendComma, if_neg hfull, intercalate_append_singleton (List.cons_ne_nil _ _)]

theorem members_nil : Members [] [] :=
  ⟨[], ⟨rfl, fun _ ht => nomatch ht⟩, List.Forall₂.nil⟩

theorem elements_nil : Elements [] [] :=
  ⟨[], ⟨rfl, fun _ ht => nomatch ht⟩, List.Forall₂.nil⟩

theorem blank_space : Json.Blank " " := List.forall_mem_singleton.mpr rfl

section

variable (h : Members output ms)
include h

theorem Members.value (hname : Json.Plain name) (hv : Json.Reads val v) :
    Members (appendJsonValue output name val) (ms ++ [(name, v)]) := by
  obtain ⟨ts, hts, hall⟩ := h
  have hm := Json.readsMember hname blank_space hv
  have htext : appendJsonValue output name val = output ++ jsonAppendComma output
      ++ '"' :: (name ++ '"' :: ':' :: (" " ++ val)) := by
    simp only [appendJsonValue, quoted, String.reduceToList, List.append_assoc, List.cons_append,
      List.nil_append]
  rw [htext]
  exact ⟨_, hts.append hm.ne_nil, List.rel_append hall (List.Forall₂.cons hm List.Forall₂.nil)⟩

theorem Members.str (hname : Json.Plain name) (hval : Json.Plain val) :
    Members (appendJsonStrValue output name val) (ms ++ [(name, .str val)]) :=
  h.value hname (reads_quoted hval)

theorem Members.uint (hname : Json.Plain name) (n : ℕ) :
    Members (appendJsonUintValue output name n) (ms ++ [(name, .num n 0)]) :=
  h.value hname (reads_uintText n)

theorem Members.int (hname : Json.Plain name) (z : ℤ) :
    Members (appendJsonIntValue output name z) (ms ++ [(name, .num z 0)]) :=
  h.value hname (reads_intText z)

/-- A buffer of members between braces is an object. -/
theorem Members.reads : Json.Reads ("\x7b " ++ output ++ " \x7d") (.obj ms) := by
  obtain ⟨ts, ⟨rfl, -⟩, hall⟩ := h
  have htext : "\x7b ".toList ++ (", ".toList).intercalate ts ++ " \x7d".toList
      = '\x7b' :: (" ".toList ++ ((',' :: " ".toList).intercalate ts ++ (" ".toList ++ ['\x7d']))) := by
    simp only [String.reduceToList, List.cons_append, List.nil_append]
  rw [htext]
  exact Json.reads_obj blank_space blank_space blank_space hall

omit h in
/-- A buffer of elements between brackets is an array. -/
theorem Elements.reads (h : Elements output vs) :
    Json.Reads ("[ " ++ output ++ " ]") (.arr vs) := by
  obtain ⟨ts, ⟨rfl, -⟩, hall⟩ := h
  have htext : "[ ".toList ++ (", ".toList).intercalate ts ++ " ]".toList
      = '[' :: (" ".toList ++ ((',' :: " ".toList).intercalate ts ++ (" ".toList ++ [']']))) := by
    simp only [String.reduceToList, List.cons_append, List.nil_append]
  rw [htext]
  exact Json.reads_arr blank_space blank_space blank_space hall

omit h in
theorem Elements.append (h : Elements output vs) (ht : Json.Reads t v) :
    Elements (output ++ jsonAppendComma output ++ t) (vs ++ [v]) := by
  obtain ⟨ts, hts, hall⟩ := h
  exact ⟨_, hts.append ht.ne_nil, List.rel_append hall (List.Forall₂.cons ht List.Forall₂.nil)⟩

theorem Members.array (hname : Json.Plain name) (hval : Elements val vs) :
    Members (appendJsonArrayBrackets output name val) (ms ++ [(name, .arr vs)]) :=
  h.value hname hval.reads

theorem Members.block {ms' : List (CString × Json)} (hname : Json.Plain name) (hne : name ≠ []) (hval : Members val ms') :
    Members (appendJsonBlockBrackets output name val) (ms ++ [(name, .obj ms')]) := by
  rw [appendJsonBlockBrackets, if_neg hne]
  exact h.value hname hval.reads

end

theorem Elements.block (h : Elements output vs) (hval : Members val ms) :
    Elements (appendJsonBlockBrackets output [] val) (vs ++ [.obj ms]) := by
  rw [appendJsonBlockBrackets, if_pos rfl]
  exact h.append hval.reads

end SoftPatchPanel.Shared
