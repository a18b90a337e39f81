import Mathlib.Algebra.Group.Int.Defs
import Mathlib.Algebra.Group.Nat.Defs
import Mathlib.Data.List.Basic
import Mathlib.Data.Int.Basic

/-!
# The C string library

Strings are lists of characters, the terminating NUL left implicit, and the
functions follow the C99 text for a machine with 64-bit `long` and 32-bit `int`.

* `strtol` and `strtoul` skip white space, take one sign, recognise the prefixes
  of base 0 and base 16, and saturate where the value does not fit.  `none` is
  the case in which no conversion is performed, that is, in which `endptr` is
  left at the start of the string; otherwise the second component is what
  `endptr` points at.
* `intOfLong` and `uintOfULong` are the conversions a program performs silently
  when it stores the result in an `int` or an `unsigned int`.
* `value` is the number that a numeral denotes, without the limits of any machine
  type; a number that fits an `int` is what the calls and the conversions give.
  What `printf` writes for a number is read back (`value_toDigits`).
* `tokens` is the sequence of strings that successive calls of `strtok_r` with a
  one-character delimiter return.
* `strstr` returns the tail that starts at the first occurrence of the needle.
-/

namespace SoftPatchPanel

/-- A C string, without its terminator. -/
abbrev CString := List Char

namespace CString

/-- A string literal is a C string where one is expected. -/
instance : Coe String CString := ⟨String.toList⟩

/-- Under a name, so that membership in a list of strings is decided in one way throughout. -/
instance lawfulBEq : LawfulBEq CString := inferInstance

/-! ## Numbers -/

/-- The characters `isspace` accepts in the C locale. -/
def isSpace (c : Char) : Bool :=
  c = ' ' || (9 ≤ c.toNat && c.toNat ≤ 13)

/-- The value of a digit in bases up to 36. -/
def digitVal (c : Char) : Option ℕ :=
  if '0' ≤ c ∧ c ≤ '9' then some (c.toNat - '0'.toNat)
  else if 'a' ≤ c ∧ c ≤ 'z' then some (c.toNat - 'a'.toNat + 10)
  else if 'A' ≤ c ∧ c ≤ 'Z' then some (c.toNat - 'A'.toNat + 10)
  else none

/-- Whether `c` is a digit of the base. -/
def isDigitOf (base : ℕ) (c : Char) : Bool :=
  match digitVal c with
  | some d => d < base
  | none => false

/-- The value of a digit string, most significant digit first. -/
def digitsVal (base : ℕ) (ds : CString) : ℕ :=
  ds.foldl (fun acc c => acc * base + (digitVal c).getD 0) 0

/-- The digits at the front of the string, their value, and the rest; `none`
when there is no digit. -/
def scanDigits (base : ℕ) (s : CString) : Option (ℕ × CString) :=
  match s.takeWhile (isDigitOf base) with
  | [] => none
  | d :: ds => some (digitsVal base (d :: ds), s.dropWhile (isDigitOf base))

/-- The digits of a numeral after its sign: base 16 may have the prefix `0x`,
and base 0 reads the base off the prefix.  A prefix `0x` without a hexadecimal
digit behind it is the numeral `0`. -/
def scanNumeral (base : ℕ) (s : CString) : Option (ℕ × CString) :=
  match s with
  | '0' :: x :: d :: rest =>
    if (base = 0 ∨ base = 16) ∧ (x = 'x' ∨ x = 'X') ∧ isDigitOf 16 d then
      scanDigits 16 (d :: rest)
    else scanDigits (if base = 0 then 8 else base) s
  | '0' :: _ => scanDigits (if base = 0 then 8 else base) s
  | _ => scanDigits (if base = 0 then 10 else base) s

/-- White space, an optional sign and a numeral: whether the sign is a minus,
the magnitude, and what follows. -/
def scanSigned (base : ℕ) (s : CString) : Option (Bool × ℕ × CString) :=
  match s.dropWhile isSpace with
  | '-' :: t => (scanNumeral base t).map fun r => (true, r.1, r.2)
  | '+' :: t => (scanNumeral base t).map fun r => (false, r.1, r.2)
  | t => (scanNumeral base t).map fun r => (false, r.1, r.2)

/-- `LONG_MAX`. -/
def longMax : ℤ := 2 ^ 63 - 1

/-- `LONG_MIN`. -/
def longMin : ℤ := -2 ^ 63

/-- `ULONG_MAX`. -/
def ulongMax : ℕ := 2 ^ 64 - 1

/-- `strtol(s, &endptr, base)`. -/
def strtol (base : ℕ) (s : CString) : Option (ℤ × CString) :=
  (scanSigned base s).map fun r =>
    (if r.1 then max longMin (-(r.2.1 : ℤ)) else min longMax r.2.1, r.2.2)

/-- `strtoul(s, &endptr, base)`: a minus sign negates in the unsigned type, and
a magnitude that does not fit gives `ULONG_MAX` whatever the sign. -/
def strtoul (base : ℕ) (s : CString) : Option (ℕ × CString) :=
  (scanSigned base s).map fun r =>
    (if ulongMax < r.2.1 then ulongMax
     else if r.1 then (2 ^ 64 - r.2.1) % 2 ^ 64 else r.2.1, r.2.2)

/-- The conversion of a `long` to a 32-bit `int`. -/
def intOfLong (n : ℤ) : ℤ := n.bmod (2 ^ 32)

/-- The conversion of an `unsigned long` to a 32-bit `unsigned int`. -/
def uintOfULong (n : ℕ) : ℕ := n % 2 ^ 32

/-- The number at the front of the string, whatever its size, and what follows it. -/
def value (base : ℕ) (s : CString) : Option (ℤ × CString) :=
  (scanSigned base s).map fun r => (if r.1 then -(r.2.1 : ℤ) else r.2.1, r.2.2)

theorem strtol_eq_value (base : ℕ) (s : CString) :
    strtol base s = (value base s).map fun r => (max longMin (min longMax r.1), r.2) := by
  rw [strtol, value, Option.map_map]
  congr 1
  funext r
  have hmax : longMax = 2 ^ 63 - 1 := rfl
  have hmin : longMin = -2 ^ 63 := rfl
  obtain ⟨neg, n, rest⟩ := r
  cases neg with
  | true =>
    show (max longMin (-(n : ℤ)), rest) = (max longMin (min longMax (-(n : ℤ))), rest)
    rw [Int.min_eq_right (by omega)]
  | false =>
    show (min longMax (n : ℤ), rest) = (max longMin (min longMax (n : ℤ)), rest)
    rw [Int.max_eq_right (by omega)]

variable {n : ℤ} {base : ℕ} {s rest t : CString} {c delim : Char}

/-- A number that fits an `int` survives `strtol` and the conversion. -/
theorem intOfLong_clamp (hlo : -2 ^ 31 ≤ n) (hhi : n < 2 ^ 31) :
    intOfLong (max longMin (min longMax n)) = n := by
  have hmax : longMax = 2 ^ 63 - 1 := rfl
  have hmin : longMin = -2 ^ 63 := rfl
  rw [Int.min_eq_right (by omega), Int.max_eq_right (by omega), intOfLong]
  exact Int.bmod_eq_of_le (by omega) (by omega)

theorem strtol_of_value (h : value base s = some (n, rest)) (hlo : -2 ^ 31 ≤ n) (hhi : n < 2 ^ 31) :
    (strtol base s).map (fun r => (intOfLong r.1, r.2)) = some (n, rest) := by
  rw [strtol_eq_value, h]
  simp only [Option.map_some]
  rw [intOfLong_clamp hlo hhi]

/-- What `strtoul` makes of a number: it counts modulo the range of the type, unless the magnitude
does not fit. -/
def ulongOfValue (n : ℤ) : ℕ := if ulongMax < n.natAbs then ulongMax else (n % 2 ^ 64).toNat

theorem strtoul_eq_value (base : ℕ) (s : CString) :
    strtoul base s = (value base s).map fun r => (ulongOfValue r.1, r.2) := by
  rw [strtoul, value, Option.map_map]
  congr 1
  funext r
  have hmax : ulongMax = 2 ^ 64 - 1 := rfl
  obtain ⟨neg, n, rest⟩ := r
  cases neg with
  | true =>
    show ((if ulongMax < n then ulongMax else (2 ^ 64 - n) % 2 ^ 64), rest) =
      (ulongOfValue (-(n : ℤ)), rest)
    rw [ulongOfValue, Int.natAbs_neg, Int.natAbs_natCast]
    split
    · rfl
    · congr 1
      omega
  | false =>
    show ((if ulongMax < n then ulongMax else n), rest) = (ulongOfValue (n : ℤ), rest)
    rw [ulongOfValue, Int.natAbs_natCast]
    split
    · rfl
    · congr 1
      omega

variable {n : ℕ}

theorem ulongOfValue_natCast (hn : n < 2 ^ 64) : ulongOfValue n = n := by
  have hmax : ulongMax = 2 ^ 64 - 1 := rfl
  rw [ulongOfValue, Int.natAbs_natCast, if_neg (by omega)]
  omega

/-- A number that fits an `unsigned long` is what `strtoul` returns. -/
theorem strtoul_of_value (h : value base s = some ((n : ℤ), rest)) (hn : n < 2 ^ 64) :
    strtoul base s = some (n, rest) := by
  rw [strtoul_eq_value, h]
  simp only [Option.map_some]
  rw [ulongOfValue_natCast hn]

/-! ## Decimal numerals -/

theorem head?_toDigits_ne_zero (hn : 0 < n) : (Nat.toDigits 10 n).head? ≠ some '0' := by
  induction n using Nat.strongRecOn with
  | ind n ih =>
    rcases Nat.lt_or_ge n 10 with hlt | hge
    · rw [Nat.toDigits_of_lt_base hlt]
      show some n.digitChar ≠ some '0'
      have hall : ∀ m < 10, 0 < m → some m.digitChar ≠ some '0' := by decide
      exact hall n hlt hn
    rw [Nat.toDigits_of_base_le (by decide) hge, List.head?_append]
    have hdiv : 0 < n / 10 := Nat.div_pos hge (by decide)
    cases h : (Nat.toDigits 10 (n / 10)).head? with
    | none => exact absurd (List.head?_eq_none_iff.mp h) Nat.toDigits_ne_nil
    | some c =>
      rw [Option.some_or, ← h]
      exact ih (n / 10) (Nat.div_lt_self hn (by decide)) hdiv

theorem isDigit_of_mem_toDigits (hc : c ∈ Nat.toDigits 10 n) : c.isDigit = true :=
  Nat.isDigit_of_mem_toDigits (by decide) (by decide) hc

theorem digitVal_of_isDigit (hc : c.isDigit = true) : digitVal c = some (c.toNat - '0'.toNat) := by
  rw [Char.isDigit, Bool.and_eq_true, decide_eq_true_eq, decide_eq_true_eq] at hc
  have hrange : '0' ≤ c ∧ c ≤ '9' := hc
  rw [digitVal, if_pos hrange]

theorem isDigitOf_of_isDigit (hc : c.isDigit = true) : isDigitOf 10 c = true := by
  rw [isDigitOf, digitVal_of_isDigit hc]
  rw [Char.isDigit, Bool.and_eq_true, decide_eq_true_eq, decide_eq_true_eq] at hc
  have hle : c.toNat ≤ '9'.toNat := hc.2
  have hnine : '9'.toNat = 57 := rfl
  have hzero : '0'.toNat = 48 := rfl
  exact decide_eq_true (by omega)

theorem digitsVal_toDigits (n : ℕ) : digitsVal 10 (Nat.toDigits 10 n) = n := by
  refine Eq.trans ?_ (Nat.ofDigitChars_ten_toDigits (n := n))
  rw [digitsVal, Nat.ofDigitChars]
  refine List.foldl_ext _ _ _ fun acc c hc => ?_
  rw [digitVal_of_isDigit (isDigit_of_mem_toDigits hc), Option.getD_some, Nat.mul_comm]

/-- A text does not continue a decimal numeral, not even the prefix of a hexadecimal one. -/
def Ends (rest : CString) : Prop :=
  ∀ c ∈ rest.head?, isDigitOf 10 c = false ∧ c ≠ 'x' ∧ c ≠ 'X'

theorem ends_nil : Ends [] := fun c hc => by cases hc

theorem scanDigits_toDigits (n : ℕ) (h : Ends rest) :
    scanDigits 10 (Nat.toDigits 10 n ++ rest) = some (n, rest) := by
  have hall : ∀ c ∈ Nat.toDigits 10 n, isDigitOf 10 c = true :=
    fun c hc => isDigitOf_of_isDigit (isDigit_of_mem_toDigits hc)
  have hstop : rest.takeWhile (isDigitOf 10) = [] ∧ rest.dropWhile (isDigitOf 10) = rest := by
    cases rest with
    | nil => exact ⟨rfl, rfl⟩
    | cons c rest =>
      have hc : ¬ isDigitOf 10 c = true := by
        rw [(h c rfl).1]
        exact Bool.false_ne_true
      exact ⟨List.takeWhile_cons_of_neg hc, List.dropWhile_cons_of_neg hc⟩
  rw [scanDigits, List.takeWhile_append_of_pos hall, List.dropWhile_append_of_pos hall, hstop.1,
    hstop.2, List.append_nil]
  have hval := digitsVal_toDigits n
  cases hd : Nat.toDigits 10 n with
  | nil => exact absurd hd Nat.toDigits_ne_nil
  | cons d ds =>
    rw [hd] at hval
    show some (digitsVal 10 (d :: ds), rest) = _
    rw [hval]

theorem scanDigits_zero (hbase : 0 < base) (h : ∀ c ∈ rest.head?, isDigitOf base c = false) :
    scanDigits base ('0' :: rest) = some (0, rest) := by
  have hzero : isDigitOf base '0' = true := decide_eq_true hbase
  have hval : digitsVal base ['0'] = 0 := by
    show 0 * base + 0 = 0
    rw [Nat.zero_mul]
  rw [scanDigits, List.takeWhile_cons_of_pos hzero, List.dropWhile_cons_of_pos hzero]
  cases rest with
  | nil => exact congrArg (fun k => some (k, [])) hval
  | cons c rest =>
    have hc : ¬ isDigitOf base c = true := by
      rw [h c rfl]
      exact Bool.false_ne_true
    rw [List.takeWhile_cons_of_neg hc, List.dropWhile_cons_of_neg hc]
    exact congrArg (fun k => some (k, c :: rest)) hval

theorem isDigitOf_mono {b b' : ℕ} (hb : b ≤ b') (h : isDigitOf b' c = false) :
    isDigitOf b c = false := by
  unfold isDigitOf at h ⊢
  split
  · rename_i d hd
    rw [hd] at h
    have hlt := of_decide_eq_false h
    exact decide_eq_false (by omega)
  · rfl

/-- **A decimal numeral is read back**, in base ten and when the base is left open. -/
theorem scanNumeral_toDigits (hbase : base = 0 ∨ base = 10) (n : ℕ)
    (h : Ends rest) : scanNumeral base (Nat.toDigits 10 n ++ rest) = some (n, rest) := by
  have hten : (if base = 0 then 10 else base) = 10 := by
    rcases hbase with rfl | rfl <;> rfl
  have height : 0 < (if base = 0 then 8 else base) ∧ (if base = 0 then 8 else base) ≤ 10 := by
    rcases hbase with rfl | rfl <;> decide
  rcases Nat.eq_zero_or_pos n with rfl | hn
  · have hzero : scanDigits (if base = 0 then 8 else base) ('0' :: rest) = some (0, rest) :=
      scanDigits_zero height.1 fun c hc => isDigitOf_mono height.2 (h c hc).1
    show scanNumeral base ('0' :: rest) = _
    unfold scanNumeral
    split
    · rename_i x d rest' heq
      obtain rfl := (List.cons.inj heq).2
      have hx : ¬(x = 'x' ∨ x = 'X') := not_or.mpr (h x rfl).2
      rwa [if_neg fun hall => hx hall.2.1]
    · exact hzero
    · rename_i hno
      exact absurd rfl (hno rest)
  · have hhead := head?_toDigits_ne_zero hn
    have hscan := scanDigits_toDigits n h
    cases hd : Nat.toDigits 10 n with
    | nil => exact absurd hd Nat.toDigits_ne_nil
    | cons d ds =>
      rw [hd] at hhead hscan
      have hne : d ≠ '0' := fun heq => hhead (congrArg some heq)
      unfold scanNumeral
      split
      · rename_i heq
        exact absurd (List.cons.inj heq).1 hne
      · rename_i heq
        exact absurd (List.cons.inj heq).1 hne
      · rwa [hten]

theorem value_toDigits (hbase : base = 0 ∨ base = 10) (n : ℕ)
    (h : Ends rest) : value base (Nat.toDigits 10 n ++ rest) = some ((n : ℤ), rest) := by
  have hscan := scanNumeral_toDigits hbase n h
  obtain ⟨c, t, hct⟩ := List.exists_cons_of_ne_nil (Nat.toDigits_ne_nil (b := 10) (n := n))
  have hc : c.isDigit = true := isDigit_of_mem_toDigits (hct ▸ List.mem_cons_self)
  have hne : ∀ d : Char, d.isDigit = false → c ≠ d := by
    rintro d hd rfl
    rw [hc] at hd
    cases hd
  have hspace : ¬ isSpace c = true := by
    rw [Char.isDigit, Bool.and_eq_true, decide_eq_true_eq, decide_eq_true_eq] at hc
    have hlo : '0'.toNat ≤ c.toNat := hc.1
    have hzero : '0'.toNat = 48 := rfl
    rw [isSpace, Bool.or_eq_true, Bool.and_eq_true, decide_eq_true_eq, decide_eq_true_eq,
      decide_eq_true_eq]
    rintro (rfl | ⟨-, hle⟩)
    · exact absurd hlo (by decide)
    · omega
  rw [hct, List.cons_append] at hscan ⊢
  rw [value, scanSigned, List.dropWhile_cons_of_neg hspace]
  split
  · rename_i heq
    exact absurd (List.cons.inj heq).1 (hne _ rfl)
  · rename_i heq
    exact absurd (List.cons.inj heq).1 (hne _ rfl)
  · rw [hscan]
    rfl

/-! ## Searching and splitting -/

/-- `strstr(s, needle)`: the tail of `s` from the first occurrence on. -/
def strstr (needle : CString) : CString → Option CString
  | [] => if needle = [] then some [] else none
  | c :: s => if needle.isPrefixOf (c :: s) then some (c :: s) else strstr needle s

/-- The tokens that successive calls of `strtok_r` with the one-character
delimiter return: the maximal runs of other characters. -/
def tokens (delim : Char) (s : CString) : List CString :=
  (s.splitOnP (· = delim)).filter (· ≠ [])

theorem ne_nil_of_mem_tokens (h : t ∈ tokens delim s) : t ≠ [] := by
  rw [tokens, List.mem_filter] at h
  simpa using h.2

theorem not_mem_of_mem_splitOnP (h : t ∈ s.splitOnP (· = delim)) : delim ∉ t := by
  induction s generalizing t with
  | nil =>
    rw [List.splitOnP_nil, List.mem_singleton] at h
    rw [h]
    exact List.not_mem_nil
  | cons c s ih =>
    rw [List.splitOnP_cons_eq_if_modifyHead] at h
    split at h
    · rcases List.mem_cons.mp h with rfl | h
      · exact List.not_mem_nil
      · exact ih h
    rename_i hc
    cases hs : s.splitOnP (· = delim) with
    | nil => exact absurd hs (List.splitOnP_ne_nil _ _)
    | cons u us =>
      rw [hs] at h ih
      rcases List.mem_cons.mp h with rfl | h
      · intro hin
        rcases List.mem_cons.mp hin with heq | hin
        · exact hc (decide_eq_true heq.symm)
        · exact ih List.mem_cons_self hin
      · exact ih (List.mem_cons_of_mem _ h)

/-- A token does not contain the delimiter. -/
theorem not_mem_of_mem_tokens (h : t ∈ tokens delim s) : delim ∉ t :=
  not_mem_of_mem_splitOnP (List.mem_filter.mp h).1

/-- A text is one token exactly if it is not empty and does not contain the delimiter. -/
theorem tokens_eq_singleton_iff : tokens delim s = [s] ↔ s ≠ [] ∧ delim ∉ s := by
  constructor
  · intro h
    have hmem : s ∈ tokens delim s := by
      rw [h]
      exact List.mem_singleton_self s
    exact ⟨ne_nil_of_mem_tokens hmem, not_mem_of_mem_tokens hmem⟩
  rintro ⟨hne, hno⟩
  have hsplit : s.splitOnP (· = delim) = [s] := by
    refine List.splitOnP_eq_singleton fun c hc => ?_
    exact decide_eq_false fun heq => hno (heq ▸ hc)
  rw [tokens, hsplit]
  exact List.filter_cons_of_pos (decide_eq_true hne)

theorem tokens_intercalate {ts : List CString} (h : ∀ t ∈ ts, t ≠ [] ∧ delim ∉ t) :
    tokens delim ([delim].intercalate ts) = ts := by
  rcases eq_or_ne ts [] with rfl | hne
  · rfl
  have hsplit : ([delim].intercalate ts).splitOnP (· = delim) = ts :=
    List.splitOn_intercalate delim (fun t ht => (h t ht).2) hne
  rw [tokens, hsplit, List.filter_eq_self]
  exact fun t ht => decide_eq_true (h t ht).1

theorem strstr_eq_none {needle : CString} (h : c ∉ s) : strstr (c :: needle) s = none := by
  induction s with
  | nil => rfl
  | cons d s ih =>
    obtain ⟨hne, hs⟩ := List.ne_and_not_mem_of_not_mem_cons h
    have hno : (c :: needle).isPrefixOf (d :: s) = false := by
      rw [List.isPrefixOf, beq_false_of_ne hne, Bool.false_and]
    rw [strstr, if_neg (by rw [hno]; exact Bool.false_ne_true)]
    exact ih hs

example : tokens ' ' " ls  -l /tmp " = ["ls", "-l", "/tmp"] := by decide

example : strtol 0 "0x1f," = some (31, [',']) := by decide

end CString
end SoftPatchPanel
