import Mathlib.Data.List.DropRight
import SoftPatchPanel.Foundation.CString

/-!
# JSON texts

A decoder for the grammar of RFC 8259, and what texts it reads as what values.

The decoder is a recursive descent.  Each function takes the text from where it stands
and returns what it has read together with the rest; white space in front of a value, a
name or a punctuation mark is skipped.  The recursion is on a bound for the number of
calls, for which twice the length of the text is always enough.  A number is kept as
written, a decimal mantissa and an exponent of ten.

`Reads t v` says that `t` reads as `v` whatever follows it, as long as a number at its
end is not continued.  It is closed under everything a program does to put a text
together: strings without special characters between quotes, decimal numbers, and lists
of texts, with commas and any white space between them, in brackets.  So a program that
builds its output from the inside out is dealt with from the inside out, and `decode` is
looked at only at the very end (`decode_of_reads`).
-/

namespace SoftPatchPanel

/-- A JSON value.  The members of an object are in the order of the text. -/
inductive Json where
  | null
  | bool (b : Bool)
  /-- The number `mantissa * 10 ^ exponent`. -/
  | num (mantissa exponent : ℤ)
  | str (s : CString)
  | arr (elements : List Json)
  | obj (members : List (CString × Json))

namespace Json

/-! ## The decoder -/

/-- White space. -/
def isWs (c : Char) : Bool := c = ' ' || c = '\t' || c = '\n' || c = '\r'

/-- Skip white space. -/
def skipWs (s : CString) : CString := s.dropWhile isWs

/-- A character of a string, or a code unit given by its number. -/
inductive StrItem where
  | char (c : Char)
  | unit (u : ℕ)

/-- The value of four hexadecimal digits. -/
def hex4 (a b c d : Char) : Option ℕ :=
  if [a, b, c, d].all (CString.isDigitOf 16) then some (CString.digitsVal 16 [a, b, c, d])
  else none

/-- The character behind a backslash, unless it is the `u` of a code unit. -/
def simpleEscape (c : Char) : Option Char :=
  [('"', '"'), ('\\', '\\'), ('/', '/'), ('b', '\x08'), ('f', '\x0c'), ('n', '\n'), ('r', '\r'),
    ('t', '\t')].lookup c

/-- The items of a string up to its closing quote, and the rest. -/
def strItems : CString → Option (List StrItem × CString)
  | [] => none
  | c :: t =>
    if c = '"' then some ([], t)
    else if c = '\\' then
      match t with
      | 'u' :: w :: x :: y :: z :: t => do
        let u ← hex4 w x y z
        let r ← strItems t
        some (.unit u :: r.1, r.2)
      | e :: t => do
        let c ← simpleEscape e
        let r ← strItems t
        some (.char c :: r.1, r.2)
      | [] => none
    else if c.toNat < 0x20 then none
    else do
      let r ← strItems t
      some (.char c :: r.1, r.2)

/-- Put the pairs of surrogates together; a single one stands for no character. -/
def joinUnits : List StrItem → CString
  | [] => []
  | .char c :: rest => c :: joinUnits rest
  | .unit u :: .unit l :: rest =>
    if 0xd800 ≤ u ∧ u < 0xdc00 ∧ 0xdc00 ≤ l ∧ l < 0xe000 then
      Char.ofNat (0x10000 + (u - 0xd800) * 0x400 + (l - 0xdc00)) :: joinUnits rest
    else Char.ofNat u :: joinUnits (.unit l :: rest)
  | .unit u :: rest => Char.ofNat u :: joinUnits rest

/-- A string, behind its opening quote. -/
def string (s : CString) : Option (CString × CString) :=
  (strItems s).map fun r => (joinUnits r.1, r.2)

/-- The digits at the front, of which there must be one, and the rest. -/
def digits (s : CString) : Option (CString × CString) :=
  match s.takeWhile Char.isDigit with
  | [] => none
  | d :: ds => some (d :: ds, s.dropWhile Char.isDigit)

/-- The fraction of a number: its digits and the rest. -/
def frac : CString → Option (CString × CString)
  | '.' :: t => digits t
  | s => some ([], s)

/-- The sign of an exponent and the rest. -/
def expoSign : CString → ℤ × CString
  | '-' :: t => (-1, t)
  | '+' :: t => (1, t)
  | s => (1, s)

/-- The exponent of a number. -/
def expo : CString → Option (ℤ × CString)
  | [] => some (0, [])
  | c :: t =>
    if c = 'e' ∨ c = 'E' then
      (digits (expoSign t).2).map fun r => ((expoSign t).1 * Nat.ofDigitChars 10 r.1 0, r.2)
    else some (0, c :: t)

/-- A number without its sign: the digits do not start with a zero, unless that is all of
the integer part. -/
def unsigned (s : CString) : Option ((ℕ × ℤ) × CString) := do
  let i ← digits s
  if i.1.head? = some '0' ∧ 1 < i.1.length then none
  else do
    let f ← frac i.2
    let e ← expo f.2
    some ((Nat.ofDigitChars 10 (i.1 ++ f.1) 0, e.1 - f.1.length), e.2)

/-- A number. -/
def number (c : Char) (t : CString) : Option (Json × CString) :=
  if c = '-' then (unsigned t).map fun r => (.num (-r.1.1) r.1.2, r.2)
  else (unsigned (c :: t)).map fun r => (.num r.1.1 r.1.2, r.2)

/-- One of the three words. -/
def literal (s : CString) : Option (Json × CString) :=
  [("null".toList, null), ("true".toList, bool true), ("false".toList, bool false)].findSome?
    fun w => if w.1.isPrefixOf s then some (w.2, s.drop w.1.length) else none

/-- Items with commas between them, up to the closing bracket. -/
def sepBy {α : Type} (close : Char) (item : CString → Option (α × CString)) :
    ℕ → CString → Option (List α × CString)
  | 0, _ => none
  | n + 1, s => do
    let r ← item s
    match skipWs r.2 with
    | [] => none
    | c :: t =>
      if c = ',' then (sepBy close item n t).map fun q => (r.1 :: q.1, q.2)
      else if c = close then some ([r.1], t)
      else none

/-- What stands between brackets, behind the opening one. -/
def block {α : Type} (close : Char) (item : CString → Option (α × CString)) (n : ℕ)
    (s : CString) : Option (List α × CString) :=
  match skipWs s with
  | [] => none
  | c :: t => if c = close then some ([], t) else sepBy close item n (c :: t)

/-- A name and its value. -/
def member (val : CString → Option (Json × CString)) (s : CString) :
    Option ((CString × Json) × CString) :=
  match skipWs s with
  | [] => none
  | c :: t =>
    if c = '"' then do
      let k ← string t
      match skipWs k.2 with
      | [] => none
      | d :: u => if d = ':' then (val u).map fun r => ((k.1, r.1), r.2) else none
    else none

/-- A value, and the rest. -/
def value : ℕ → CString → Option (Json × CString)
  | 0, _ => none
  | n + 1, s =>
    match skipWs s with
    | [] => none
    | c :: t =>
      if c = '"' then (string t).map fun r => (.str r.1, r.2)
      else if c = '[' then (block ']' (value n) n t).map fun r => (.arr r.1, r.2)
      else if c = '\x7b' then (block '\x7d' (member (value n)) n t).map fun r => (.obj r.1, r.2)
      else if c = '-' ∨ c.isDigit then number c t
      else literal (c :: t)

/-- **The value of a JSON text**, or nothing if the text is not well formed. -/
def decode (s : CString) : Option Json :=
  match value s.length s with
  | none => none
  | some (v, t) => if skipWs t = [] then some v else none

/-! ## White space -/

/-- A text of white space only. -/
def Blank (w : CString) : Prop := ∀ c ∈ w, isWs c

variable {w rest t s : CString} {c : Char} {v : Json} {ts : List CString}

theorem skipWs_blank_append (hw : Blank w) (s : CString) : skipWs (w ++ s) = skipWs s :=
  List.dropWhile_append_of_pos hw

theorem skipWs_cons (hc : isWs c = false) (s : CString) : skipWs (c :: s) = c :: s :=
  List.dropWhile_cons_of_neg (by rw [hc]; exact Bool.false_ne_true)

theorem value_blank_append (hw : Blank w) (n : ℕ) (s : CString) : value n (w ++ s) = value n s := by
  cases n with
  | zero => rw [value, value]
  | succ n => rw [value, value, skipWs_blank_append hw]

/-! ## Reading a text whatever follows -/

/-- What can stand behind a number without continuing it. -/
def Stops (rest : CString) : Prop :=
  ∀ c ∈ rest.head?, c.isDigit = false ∧ c ≠ '.' ∧ c ≠ 'e' ∧ c ≠ 'E'

/-- The function `item` reads `x` off the text `t`, whatever follows. -/
def ReadsBy {α : Type} (item : CString → Option (α × CString)) (t : CString) (x : α) : Prop :=
  ∀ rest, Stops rest → item (t ++ rest) = some (x, rest)

/-- The text `t` reads as the value `v`, whatever follows. -/
def Reads (t : CString) (v : Json) : Prop := ∀ n, t.length ≤ n → ReadsBy (value n) t v

/-- The text `t` reads as a name and its value, whatever follows. -/
def ReadsMember (t : CString) (m : CString × Json) : Prop :=
  ∀ n, t.length ≤ n → ReadsBy (member (value n)) t m

theorem stops_nil : Stops [] := by
  intro c hc
  cases hc

theorem stops_cons (h : c.isDigit = false ∧ c ≠ '.' ∧ c ≠ 'e' ∧ c ≠ 'E')
    (rest : CString) : Stops (c :: rest) := by
  intro d hd
  cases hd
  exact h

theorem stops_of_isWs (h : isWs c) : c.isDigit = false ∧ c ≠ '.' ∧ c ≠ 'e' ∧ c ≠ 'E' := by
  simp only [isWs, Bool.or_eq_true, decide_eq_true_eq] at h
  rcases h with ((rfl | rfl) | rfl) | rfl <;> decide

theorem stops_blank_append (hw : Blank w) (h : Stops rest) : Stops (w ++ rest) := by
  cases w with
  | nil => exact h
  | cons c w => exact stops_cons (stops_of_isWs (hw c List.mem_cons_self)) _

theorem Reads.ne_nil (h : Reads t v) : t ≠ [] := by
  rintro rfl
  have h0 := h 0 le_rfl [] stops_nil
  rw [value] at h0
  cases h0

theorem ReadsMember.ne_nil {m : CString × Json} (h : ReadsMember t m) : t ≠ [] := by
  rintro rfl
  have h0 := h 0 le_rfl [] stops_nil
  rw [List.append_nil] at h0
  cases h0

/-- **A text that reads as a value decodes to it.** -/
theorem decode_of_reads (h : Reads t v) : decode t = some v := by
  have h0 := h t.length le_rfl [] stops_nil
  rw [List.append_nil] at h0
  rw [decode, h0]
  rfl

/-! ## Strings -/

/-- A text that stands for itself between quotes. -/
def Plain (s : CString) : Prop := ∀ c ∈ s, c ≠ '"' ∧ c ≠ '\\' ∧ 0x20 ≤ c.toNat

instance (s : CString) : Decidable (Plain s) :=
  List.decidableBAll _ s

theorem plain_append : Plain (s ++ t) ↔ Plain s ∧ Plain t :=
  List.forall_mem_append

theorem strItems_plain (hs : Plain s) (rest : CString) :
    strItems (s ++ '"' :: rest) = some (s.map .char, rest) := by
  induction s with
  | nil =>
    rw [List.nil_append, strItems.eq_def]
    rfl
  | cons c s ih =>
    obtain ⟨⟨hq, hb, hc⟩, hs'⟩ := List.forall_mem_cons.mp hs
    rw [List.cons_append, strItems.eq_def]
    dsimp only
    rw [if_neg hq, if_neg hb, if_neg (Nat.not_lt.mpr hc), ih hs']
    rfl

theorem joinUnits_char (s : CString) : joinUnits (s.map .char) = s := by
  induction s with
  | nil => rfl
  | cons c s ih => rw [List.map_cons, joinUnits, ih]

theorem string_plain (hs : Plain s) (rest : CString) :
    string (s ++ '"' :: rest) = some (s, rest) := by
  rw [string, strItems_plain hs, Option.map_some, joinUnits_char]

theorem reads_str (hs : Plain s) : Reads ('"' :: (s ++ ['"'])) (.str s) := by
  intro n hn rest _
  obtain ⟨n, rfl⟩ : ∃ k, n = k + 1 := ⟨n - 1, by simp only [List.length_cons] at hn; omega⟩
  have htext : '"' :: (s ++ ['"']) ++ rest = '"' :: (s ++ '"' :: rest) := by
    rw [List.cons_append, List.append_assoc, List.singleton_append]
  rw [htext, value, skipWs_cons rfl]
  show ((string (s ++ '"' :: rest)).map fun r => (Json.str r.1, r.2)) = _
  rw [string_plain hs, Option.map_some]

theorem reads_null : Reads "null".toList .null := by
  intro n hn rest _
  obtain ⟨n, rfl⟩ : ∃ k, n = k + 1 := ⟨n - 1, by
    have hlen : "null".toList.length = 4 := rfl
    omega⟩
  rfl

/-- A name, a colon and a value. -/
theorem readsMember {k : CString} (hk : Plain k) (hw : Blank w)
    (h : Reads t v) : ReadsMember ('"' :: (k ++ '"' :: ':' :: (w ++ t))) (k, v) := by
  intro n hn rest hrest
  simp only [List.length_cons, List.length_append] at hn
  have htext : '"' :: (k ++ '"' :: ':' :: (w ++ t)) ++ rest
      = '"' :: (k ++ '"' :: (':' :: (w ++ (t ++ rest)))) := by
    simp only [List.cons_append, List.append_assoc]
  rw [htext, member, skipWs_cons rfl]
  show (string (k ++ '"' :: (':' :: (w ++ (t ++ rest)))) >>= _) = _
  rw [string_plain hk]
  show ((value n (w ++ (t ++ rest))).map fun r => ((k, r.1), r.2)) = _
  rw [value_blank_append hw, h n (by omega) rest hrest, Option.map_some]

/-! ## Numbers -/

theorem digits_append {ds : CString} (hne : ds ≠ []) (hds : ∀ c ∈ ds, c.isDigit)
    (hrest : ∀ c ∈ rest.head?, c.isDigit = false) : digits (ds ++ rest) = some (ds, rest) := by
  have htake : rest.takeWhile Char.isDigit = [] := by
    cases rest with
    | nil => rfl
    | cons c rest =>
      exact List.takeWhile_cons_of_neg (by rw [hrest c rfl]; exact Bool.false_ne_true)
  have hdrop : rest.dropWhile Char.isDigit = rest := by
    cases rest with
    | nil => rfl
    | cons c rest =>
      exact List.dropWhile_cons_of_neg (by rw [hrest c rfl]; exact Bool.false_ne_true)
  rw [digits, List.takeWhile_append_of_pos hds, List.dropWhile_append_of_pos hds, htake, hdrop,
    List.append_nil]
  cases ds with
  | nil => exact absurd rfl hne
  | cons d ds => rfl

theorem frac_of_stops (h : Stops rest) : frac rest = some ([], rest) := by
  cases rest with
  | nil => rfl
  | cons c rest =>
    have hc : c ≠ '.' := (h c rfl).2.1
    unfold frac
    split
    · rename_i heq
      exact absurd (List.cons.inj heq).1 hc
    · rfl

theorem expo_of_stops (h : Stops rest) : expo rest = some (0, rest) := by
  cases rest with
  | nil => rfl
  | cons c rest =>
    obtain ⟨-, -, he, hE⟩ := h c rfl
    rw [expo, if_neg (not_or.mpr ⟨he, hE⟩)]

theorem unsigned_toDigits (n : ℕ) (h : Stops rest) :
    unsigned (Nat.toDigits 10 n ++ rest) = some ((n, 0), rest) := by
  have hlead : ¬((Nat.toDigits 10 n).head? = some '0' ∧ 1 < (Nat.toDigits 10 n).length) := by
    rintro ⟨hz, hlen⟩
    rcases Nat.eq_zero_or_pos n with rfl | hn
    · exact absurd hlen (by decide)
    · exact CString.head?_toDigits_ne_zero hn hz
  rw [unsigned, digits_append Nat.toDigits_ne_nil (fun c hc => Nat.isDigit_of_mem_toDigits
    (by decide) (by decide) hc) fun c hc => (h c hc).1]
  show (if _ then _ else _) = _
  rw [if_neg hlead, frac_of_stops h]
  show (expo rest >>= _) = _
  rw [expo_of_stops h]
  show some ((Nat.ofDigitChars 10 (Nat.toDigits 10 n ++ []) 0, _), rest) = _
  rw [List.append_nil, Nat.ofDigitChars_ten_toDigits]
  rfl

theorem reads_nat (m : ℕ) : Reads (Nat.toDigits 10 m) (.num m 0) := by
  intro n hn rest hrest
  obtain ⟨c, t, hct⟩ := List.exists_cons_of_ne_nil (Nat.toDigits_ne_nil (b := 10) (n := m))
  have hc : c.isDigit := Nat.isDigit_of_mem_toDigits (by decide) (by decide)
    (hct ▸ List.mem_cons_self : c ∈ Nat.toDigits 10 m)
  have hne : ∀ d : Char, d.isDigit = false → c ≠ d := by
    rintro d hd rfl
    rw [hc] at hd
    cases hd
  have hws : isWs c = false := by
    simp only [isWs, Bool.or_eq_false_iff, decide_eq_false_iff_not]
    exact ⟨⟨⟨hne _ rfl, hne _ rfl⟩, hne _ rfl⟩, hne _ rfl⟩
  have hval := unsigned_toDigits m hrest
  rw [hct] at hn hval ⊢
  obtain ⟨n, rfl⟩ : ∃ k, n = k + 1 := ⟨n - 1, by simp only [List.length_cons] at hn; omega⟩
  rw [List.cons_append] at hval ⊢
  rw [value, skipWs_cons hws]
  show (if _ then _ else _) = _
  rw [if_neg (hne _ rfl), if_neg (hne _ rfl), if_neg (hne _ rfl), if_pos (Or.inr hc), number,
    if_neg (hne _ rfl), hval, Option.map_some]

theorem reads_neg (m : ℕ) : Reads ('-' :: Nat.toDigits 10 m) (.num (-m) 0) := by
  intro n hn rest hrest
  obtain ⟨n, rfl⟩ : ∃ k, n = k + 1 := ⟨n - 1, by simp only [List.length_cons] at hn; omega⟩
  rw [List.cons_append, value, skipWs_cons rfl]
  show ((unsigned (Nat.toDigits 10 m ++ rest)).map fun r => (Json.num (-r.1.1) r.1.2, r.2)) = _
  rw [unsigned_toDigits m hrest, Option.map_some]

/-! ## Arrays and objects -/

/-- A function that reads one item of a list which ends with the bracket `close`: it skips
white space, and it does not take the bracket for an item. -/
structure Itemwise {α : Type} (close : Char) (item : CString → Option (α × CString)) : Prop where
  blank : ∀ s, item (skipWs s) = item s
  nil : item [] = none
  bracket : ∀ s, item (close :: s) = none
  ne_comma : close ≠ ','
  not_ws : isWs close = false
  stops : ∀ rest, Stops (close :: rest)

theorem skipWs_skipWs (s : CString) : skipWs (skipWs s) = skipWs s :=
  List.dropWhile_idempotent isWs s

/-- Without any call left, no member is read. -/
theorem member_value_zero (s : CString) : member (value 0) s = none := by
  rw [member]
  cases skipWs s with
  | nil => rfl
  | cons c t =>
    show (if c = '"' then (string t >>= _) else none) = none
    by_cases hc : c = '"'
    · rw [if_pos hc]
      cases string t with
      | none => rfl
      | some k =>
        show (match skipWs k.2 with
          | [] => none
          | d :: u => if d = ':' then (value 0 u).map _ else none) = none
        cases skipWs k.2 with
        | nil => rfl
        | cons d u => exact ite_self _
    · exact if_neg hc

theorem itemwise_value (n : ℕ) : Itemwise ']' (value n) where
  blank s := by
    cases n with
    | zero => rw [value, value]
    | succ n => rw [value, value, skipWs_skipWs]
  nil := by cases n <;> rfl
  bracket s := by
    cases n with
    | zero => rfl
    | succ n =>
      rw [value, skipWs_cons rfl]
      rfl
  ne_comma := by decide
  not_ws := rfl
  stops := stops_cons (by decide)

theorem itemwise_member (val : CString → Option (Json × CString)) :
    Itemwise '\x7d' (member val) where
  blank s := by rw [member, member, skipWs_skipWs]
  nil := rfl
  bracket s := by
    rw [member, skipWs_cons rfl]
    rfl
  ne_comma := by decide
  not_ws := rfl
  stops := stops_cons (by decide)

namespace Itemwise

variable {α : Type} {item : CString → Option (α × CString)} {close : Char} {w w' : CString} {n : ℕ}
  {ts : List CString} {xs : List α}

section

variable (hI : Itemwise close item)
include hI

theorem sepBy_skipWs (n : ℕ) (s : CString) :
    sepBy close item n (skipWs s) = sepBy close item n s := by
  cases n with
  | zero => rfl
  | succ n => rw [sepBy, sepBy, hI.blank]

theorem sepBy_blank_append (hw : Blank w) (n : ℕ) (s : CString) :
    sepBy close item n (w ++ s) = sepBy close item n s := by
  rw [← hI.sepBy_skipWs, skipWs_blank_append hw, hI.sepBy_skipWs]

/-- The texts of the items, with the separator between them, are read item by item. -/
theorem sepBy_intercalate (hw : Blank w) (hw' : Blank w')
    (h : List.Forall₂ (ReadsBy item) ts xs) (hne : ts ≠ []) (hn : ts.length ≤ n) (rest : CString) :
    sepBy close item n ((',' :: w).intercalate ts ++ (w' ++ close :: rest)) = some (xs, rest) := by
  induction h generalizing n with
  | nil => exact absurd rfl hne
  | @cons t x ts xs hx hxs ih =>
    rw [List.length_cons] at hn
    obtain ⟨n, rfl⟩ : ∃ k, n = k + 1 := ⟨n - 1, by omega⟩
    cases hxs with
    | nil =>
      rw [List.intercalate_singleton, sepBy, hx _ (stops_blank_append hw' (hI.stops rest))]
      show (match skipWs (w' ++ close :: rest) with
        | [] => none
        | c :: t => _) = _
      rw [skipWs_blank_append hw', skipWs_cons hI.not_ws]
      show (if _ then _ else _) = _
      rw [if_neg hI.ne_comma, if_pos rfl]
    | @cons t' x' ts xs hx' hxs =>
      have htext : (',' :: w).intercalate (t :: t' :: ts) ++ (w' ++ close :: rest)
          = t ++ (',' :: (w ++ ((',' :: w).intercalate (t' :: ts) ++ (w' ++ close :: rest)))) := by
        rw [List.intercalate_cons_cons]
        simp only [List.cons_append, List.append_assoc]
      rw [htext, sepBy, hx _ (stops_cons (by decide) _)]
      show ((sepBy close item n (w ++ _)).map fun q => (x :: q.1, q.2)) = _
      rw [hI.sepBy_blank_append hw, ih (List.cons_ne_nil _ _) (Nat.le_of_succ_le_succ hn),
        Option.map_some]

theorem block_of_sepBy {s : CString} {r : List α × CString}
    (h : sepBy close item n s = some r) : block close item n s = some r := by
  rw [← hI.sepBy_skipWs] at h
  rw [block]
  cases hs : skipWs s with
  | nil =>
    rw [hs] at h
    cases n with
    | zero => cases h
    | succ n =>
      rw [sepBy, hI.nil] at h
      cases h
  | cons c t =>
    rw [hs] at h
    by_cases hc : c = close
    · cases n with
      | zero => cases h
      | succ n =>
        rw [hc, sepBy, hI.bracket] at h
        cases h
    · show (if c = close then _ else _) = _
      rw [if_neg hc, h]

/-- A bracketed list, empty or not. -/
theorem block_intercalate {v : CString} (hv : Blank v) (hw : Blank w)
    (hw' : Blank w') (h : List.Forall₂ (ReadsBy item) ts xs) (hn : ts.length ≤ n) (rest : CString) :
    block close item n (v ++ ((',' :: w).intercalate ts ++ (w' ++ close :: rest)))
      = some (xs, rest) := by
  cases h with
  | nil =>
    rw [List.intercalate_nil, List.nil_append, block, skipWs_blank_append hv,
      skipWs_blank_append hw', skipWs_cons hI.not_ws]
    exact if_pos rfl
  | cons hx hxs =>
    refine hI.block_of_sepBy ?_
    rw [hI.sepBy_blank_append hv]
    exact hI.sepBy_intercalate hw hw' (List.Forall₂.cons hx hxs) (List.cons_ne_nil _ _) hn rest

end

end Itemwise

theorem length_add_le_intercalate_cons (sep t : CString) (ts : List CString) :
    t.length + (sep.intercalate ts).length ≤ (sep.intercalate (t :: ts)).length := by
  cases ts with
  | nil =>
    rw [List.intercalate_nil, List.intercalate_singleton]
    exact le_rfl
  | cons t' ts =>
    rw [List.intercalate_cons_cons, List.length_append, List.length_append]
    omega

/-- A bound for the whole list is a bound for the number of items and for each of them. -/
theorem forall₂_readsBy {α : Type} {f : ℕ → CString → Option (α × CString)} (sep : CString)
    (hf : ∀ s, f 0 s = none) {xs : List α}
    (h : List.Forall₂ (fun t x => ∀ n, t.length ≤ n → ReadsBy (f n) t x) ts xs) {n : ℕ}
    (hn : (sep.intercalate ts).length ≤ n) :
    ts.length ≤ n ∧ List.Forall₂ (ReadsBy (f n)) ts xs := by
  induction h generalizing n with
  | nil => exact ⟨Nat.zero_le n, List.Forall₂.nil⟩
  | @cons t x ts xs hx hxs ih =>
    have hcons := length_add_le_intercalate_cons sep t ts
    have hpos : 0 < t.length := by
      rw [List.length_pos_iff]
      rintro rfl
      have h0 := hx 0 le_rfl [] stops_nil
      rw [hf] at h0
      cases h0
    obtain ⟨hlen, -⟩ := ih (n := n - 1) (by omega)
    obtain ⟨-, hall⟩ := ih (n := n) (by omega)
    rw [List.length_cons]
    exact ⟨by omega, List.Forall₂.cons (hx n (by omega)) hall⟩

variable {v w' : CString}

/-- **An array**: the texts of the elements between brackets. -/
theorem reads_arr (hv : Blank v) (hw : Blank w) (hw' : Blank w')
    {xs : List Json} (h : List.Forall₂ Reads ts xs) :
    Reads ('[' :: (v ++ ((',' :: w).intercalate ts ++ (w' ++ [']'])))) (.arr xs) := by
  intro n hn rest _
  simp only [List.length_cons, List.length_append] at hn
  obtain ⟨n, rfl⟩ : ∃ k, n = k + 1 := ⟨n - 1, by omega⟩
  obtain ⟨hlen, hall⟩ := forall₂_readsBy (f := value) (',' :: w) (fun _ => rfl) h (n := n)
    (by omega)
  have hblock := (itemwise_value n).block_intercalate hv hw hw' hall hlen rest
  rw [List.cons_append, value, skipWs_cons rfl]
  simp only [List.append_assoc, List.singleton_append]
  show ((block ']' (value n) n _).map fun r => (Json.arr r.1, r.2)) = _
  rw [hblock, Option.map_some]

/-- **An object**: the texts of the members between braces. -/
theorem reads_obj (hv : Blank v) (hw : Blank w) (hw' : Blank w')
    {ms : List (CString × Json)} (h : List.Forall₂ ReadsMember ts ms) :
    Reads ('\x7b' :: (v ++ ((',' :: w).intercalate ts ++ (w' ++ ['\x7d'])))) (.obj ms) := by
  intro n hn rest _
  simp only [List.length_cons, List.length_append] at hn
  obtain ⟨n, rfl⟩ : ∃ k, n = k + 1 := ⟨n - 1, by omega⟩
  obtain ⟨hlen, hall⟩ := forall₂_readsBy (f := fun n => member (value n)) (',' :: w)
    member_value_zero h (n := n) (by omega)
  have hblock := (itemwise_member (value n)).block_intercalate hv hw hw' hall hlen rest
  rw [List.cons_append, value, skipWs_cons rfl]
  simp only [List.append_assoc, List.singleton_append]
  show ((block '\x7d' (member (value n)) n _).map fun r => (Json.obj r.1, r.2)) = _
  rw [hblock, Option.map_some]

end Json
end SoftPatchPanel
