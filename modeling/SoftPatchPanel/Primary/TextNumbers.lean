import SoftPatchPanel.Primary.FlowFields
import SoftPatchPanel.Primary.FlowRules
import SoftPatchPanel.Worker.CmdTokens

/-!
# Texts of addresses and numbers

The workers and `spp_primary` each have their own conversions of texts, all of them around
`strtol` and `strtoul`.  Here is for which texts they do what their callers rely on.

A MAC address is split by `strtok`, so that empty groups do not count, and the groups are signed
numbers of any length.  In the workers a group that is no number ends the loop without an error,
and too few groups are accepted; in `spp_primary` they are accepted too (`macExact_iff`).

A number is stored in a type of the program before it is compared with its bounds, so that it is
compared modulo the range of this type.  Where the field has the width of the type nothing is
compared at all.  The attributes of a flow rule and the number of the rule to be destroyed are
decimal, and for the latter nobody looks at where the number ends (`numbersExact_iff`).
-/

namespace SoftPatchPanel.Primary
namespace TextNumbers

open Worker (Fault IsHexByte MacGroups bytesVal convertMacTokens sppwkConvertMacStrToInt64 strLenShort
  getIntInRange getUintInRange)
open FlowFields (Byte Obj groupByte etherAddrLoop_eq strToRteEtherAddr strToNumber strToPcp
  setDeiInTci setVidInTci strToUint16 strToUint32)
open FlowParser (wholeNumber parseFlowAttr parseFlowDestroy FlowArgs)
open CString

/-! ## MAC addresses -/

/-- The text is a MAC address. -/
def MacForm (s : CString) : Prop := ∃ gs, MacGroups s gs

/-- The conversion of the workers is exact on a text. -/
def ConvertExact (s : CString) : Prop :=
  ∃ r, sppwkConvertMacStrToInt64 s = .ok r ∧ (0 ≤ r.toInt ↔ MacForm s) ∧
    (∀ gs, MacGroups s gs → ∀ i g, gs[i]? = some g →
      r.toNat / 256 ^ i % 256 = CString.digitsVal 16 g) ∧
    (¬ MacForm s → r = -1#64)

/-- The conversion of `spp_primary` is exact on a text. -/
def EtherExact (s : CString) : Prop :=
  ∀ offset o, ∃ r, strToRteEtherAddr s offset o = .ok r ∧ (r.isSome ↔ MacForm s) ∧
    ∀ gs, MacGroups s gs →
      r = some (o.store offset (gs.map fun g => BitVec.ofNat 8 (CString.digitsVal 16 g)))

variable {g s t : CString} {gs toks rest : List CString} {index : ℕ}

/-! ### The workers -/

/-- A group as the workers read it: a whole number, cut down to an `int`. -/
def groupInt (t : CString) : Option ℤ :=
  match CString.strtol 16 t with
  | some (n, []) => some (CString.intOfLong n)
  | _ => none

/-- The groups up to the first one that is no number. -/
def leadingInts : List CString → List ℤ
  | [] => []
  | t :: ts =>
    match groupInt t with
    | none => []
    | some v => v :: leadingInts ts

/-- The numbers, one byte above the other, with their bits put together. -/
def orGroups : List ℤ → ℕ → BitVec 64
  | [], _ => 0#64
  | v :: vs, cnt => (BitVec.ofInt 64 v <<< (cnt * 8)) ||| orGroups vs (cnt + 1)

/-- Each bit of the result is set in one of the numbers. -/
def Covers (vs : List ℤ) : Prop :=
  ∀ b < 64, ∃ i v, vs[i]? = some v ∧ i * 8 ≤ b ∧ (BitVec.ofInt 64 v).getLsbD (b - i * 8) = true

/-- The workers refuse a text: there are six numbers and a further group, or the numbers are such
that the result is the error code. -/
def Refused (toks : List CString) : Prop :=
  (6 ≤ (leadingInts toks).length ∧ 7 ≤ toks.length) ∨ Covers (leadingInts toks)

/-- **The loop over the groups**, in the workers. -/
theorem convertMacTokens_eq {cnt : ℕ} (hcnt : cnt ≤ 6) (mac : BitVec 64) :
    convertMacTokens toks cnt mac =
      if 6 ≤ cnt + (leadingInts toks).length ∧ 7 ≤ cnt + toks.length then -1#64
      else mac ||| orGroups (leadingInts toks) cnt := by
  induction toks generalizing cnt mac with
  | nil =>
    rw [convertMacTokens, if_neg (by rw [List.length_nil]; omega), leadingInts, orGroups,
      BitVec.or_zero]
  | cons t toks ih =>
    rw [convertMacTokens, List.length_cons]
    by_cases hsix : 6 ≤ cnt
    · rw [if_pos hsix, if_pos (by omega)]
    rw [if_neg hsix, leadingInts]
    unfold groupInt
    rcases strtol 16 t with _ | ⟨n, _ | ⟨c, rest⟩⟩
    · simp only
      rw [if_neg (by rw [List.length_nil]; omega), orGroups, BitVec.or_zero]
    · simp only
      rw [ih (by omega), orGroups, List.length_cons, ← BitVec.or_assoc]
      exact if_congr (by omega) rfl rfl
    · simp only
      rw [if_neg (by rw [List.length_nil]; omega), orGroups, BitVec.or_zero]

theorem getLsbD_orGroups (vs : List ℤ) (cnt b : ℕ) :
    (orGroups vs cnt).getLsbD b = true ↔ b < 64 ∧
      ∃ i v, vs[i]? = some v ∧ (cnt + i) * 8 ≤ b ∧
        (BitVec.ofInt 64 v).getLsbD (b - (cnt + i) * 8) = true := by
  induction vs generalizing cnt with
  | nil => simp [orGroups]
  | cons v vs ih =>
    rw [orGroups, BitVec.getLsbD_or, Bool.or_eq_true, ih, BitVec.getLsbD_shiftLeft]
    have hfirst : ((decide (b < 64) && !decide (b < cnt * 8) &&
        (BitVec.ofInt 64 v).getLsbD (b - cnt * 8)) = true) ↔
        b < 64 ∧ cnt * 8 ≤ b ∧ (BitVec.ofInt 64 v).getLsbD (b - cnt * 8) = true := by
      simp only [Bool.and_eq_true, decide_eq_true_eq, Bool.not_eq_true', decide_eq_false_iff_not,
        Nat.not_lt, and_assoc]
    rw [hfirst, ← and_or_left]
    refine and_congr_right fun _ => ?_
    constructor
    · rintro (⟨hle, hbit⟩ | ⟨i, w, hw, hle, hbit⟩)
      · exact ⟨0, v, rfl, by omega, hbit⟩
      · have hsucc : cnt + (i + 1) = cnt + 1 + i := by omega
        exact ⟨i + 1, w, hw, by rw [hsucc]; exact hle, by rw [hsucc]; exact hbit⟩
    rintro ⟨i, w, hw, hle, hbit⟩
    cases i with
    | zero =>
      obtain rfl : v = w := Option.some.inj hw
      exact .inl ⟨hle, hbit⟩
    | succ i =>
      have hsucc : cnt + (i + 1) = cnt + 1 + i := by omega
      rw [hsucc] at hle hbit
      exact .inr ⟨i, w, hw, hle, hbit⟩

theorem orGroups_eq_iff (vs : List ℤ) : orGroups vs 0 = -1#64 ↔ Covers vs := by
  have hones (b : ℕ) (hb : b < 64) : (-1#64).getLsbD b = true := by
    rw [BitVec.neg_one_eq_allOnes, BitVec.getLsbD_allOnes]
    exact decide_eq_true hb
  constructor
  · intro h b hb
    have hbit := hones b hb
    rw [← h, getLsbD_orGroups] at hbit
    obtain ⟨-, i, v, hv, hle, hbit⟩ := hbit
    rw [Nat.zero_add] at hle hbit
    exact ⟨i, v, hv, hle, hbit⟩
  · intro h
    apply BitVec.eq_of_getLsbD_eq
    intro b hb
    obtain ⟨i, v, hv, hle, hbit⟩ := h b hb
    rw [hones b hb, getLsbD_orGroups]
    exact ⟨hb, i, v, hv, by rw [Nat.zero_add]; exact hle, by rw [Nat.zero_add]; exact hbit⟩

theorem convertMacTokens_eq_iff (toks : List CString) :
    convertMacTokens toks 0 0#64 = -1#64 ↔ Refused toks := by
  rw [convertMacTokens_eq (Nat.zero_le 6), Nat.zero_add, Nat.zero_add, BitVec.zero_or, Refused]
  by_cases hmany : 6 ≤ (leadingInts toks).length ∧ 7 ≤ toks.length
  · rw [if_pos hmany]
    exact iff_of_true rfl (.inl hmany)
  · rw [if_neg hmany, orGroups_eq_iff, or_iff_right hmany]

theorem digitsVal_of_bytesVal (hgs : ∀ g ∈ gs, IsHexByte g) {i : ℕ} (hg : gs[i]? = some g) :
    bytesVal gs / 256 ^ i % 256 = digitsVal 16 g := by
  induction gs generalizing i with
  | nil => cases hg
  | cons g' gs ih =>
    rw [List.forall_mem_cons] at hgs
    have hlt := Worker.digitsVal_lt_of_isHexByte hgs.1
    rw [bytesVal]
    cases i with
    | zero =>
      obtain rfl : g' = g := Option.some.inj hg
      rw [Nat.pow_zero, Nat.div_one]
      omega
    | succ i =>
      have hdiv : (digitsVal 16 g' + 256 * bytesVal gs) / 256 = bytesVal gs := by omega
      rw [Nat.pow_succ', ← Nat.div_div_eq_div_mul, hdiv]
      exact ih hgs.2 hg

theorem convertExact_iff (s : CString) :
    ConvertExact s ↔ s.length < 32 ∧ (MacForm s ∨ Refused (tokens ':' s)) := by
  have hshort : strLenShort = 32 := rfl
  constructor
  · rintro ⟨r, hr, -, -, hng⟩
    unfold sppwkConvertMacStrToInt64 at hr
    by_cases hlen : strLenShort ≤ s.length
    · rw [if_pos hlen] at hr
      cases hr
    · rw [if_neg hlen] at hr
      refine ⟨by omega, or_iff_not_imp_left.mpr fun hform => ?_⟩
      rw [← convertMacTokens_eq_iff, Except.ok.inj hr, hng hform]
  rintro ⟨hlen, hform⟩
  by_cases hmac : MacForm s
  · obtain ⟨gs, hgs⟩ := hmac
    obtain ⟨hlt, hconvert⟩ := hgs.convert
    have hnat : (BitVec.ofNat 64 (bytesVal gs)).toNat = bytesVal gs := by
      rw [BitVec.toNat_ofNat, Nat.mod_eq_of_lt (by omega)]
    refine ⟨_, hconvert, iff_of_true ?_ ⟨gs, hgs⟩, fun gs' hgs' i g hg => ?_,
      fun h => absurd ⟨gs, hgs⟩ h⟩
    · rw [BitVec.toInt_eq_toNat_of_lt (by rw [hnat]; omega)]
      exact Int.natCast_nonneg _
    · obtain rfl : gs' = gs := hgs'.tokens.symm.trans hgs.tokens
      rw [hnat, digitsVal_of_bytesVal hgs.2.1 hg]
  · have hng := (convertMacTokens_eq_iff _).mpr (hform.resolve_left hmac)
    refine ⟨-1#64, ?_, iff_of_false (by decide) hmac, fun gs hgs => absurd ⟨gs, hgs⟩ hmac,
      fun _ => rfl⟩
    rw [sppwkConvertMacStrToInt64, if_neg (by omega), hng]

/-! ### The flow parser -/

/-- `spp_primary` refuses a text: there are too many groups, or one of them is no number. -/
def EtherRefused (toks : List CString) : Prop :=
  6 < toks.length ∨ ∃ t ∈ toks, ∀ n, CString.value 16 t ≠ some (n, [])

theorem wholeNumber_eq_none_iff {base : ℕ} (ht : t ≠ []) :
    wholeNumber base t = none ↔ ∀ n, value base t ≠ some (n, []) := by
  rw [wholeNumber, strtoul_eq_value]
  rcases value base t with _ | ⟨n, _ | ⟨c, rest⟩⟩
  · simp [ht]
  · simp
  · simp

theorem groupByte_of_isHexByte (h : IsHexByte t) :
    groupByte t = some (BitVec.ofNat 8 (digitsVal 16 t)) := by
  have hlt := Worker.digitsVal_lt_of_isHexByte h
  have hmax : ulongMax = 2 ^ 64 - 1 := rfl
  rw [groupByte, wholeNumber, strtoul, Worker.scanSigned_of_isHexByte h]
  simp only [Option.map_some, Bool.false_eq_true, if_false]
  rw [if_neg (by omega)]

theorem mapM_groupByte_of_isHexByte (hgs : ∀ g ∈ gs, IsHexByte g) :
    gs.mapM groupByte = some (gs.map fun g => BitVec.ofNat 8 (digitsVal 16 g)) := by
  induction gs with
  | nil => rfl
  | cons g gs ih =>
    rw [List.forall_mem_cons] at hgs
    rw [List.mapM_cons, groupByte_of_isHexByte hgs.1, ih hgs.2]
    rfl

theorem mapM_groupByte_eq_none_iff (htoks : ∀ t ∈ toks, t ≠ []) :
    toks.mapM groupByte = none ↔ ∃ t ∈ toks, ∀ n, value 16 t ≠ some (n, []) := by
  induction toks with
  | nil => simp
  | cons t toks ih =>
    rw [List.forall_mem_cons] at htoks
    rw [List.mapM_cons, List.exists_mem_cons_iff, ← ih htoks.2, ← wholeNumber_eq_none_iff htoks.1]
    unfold groupByte
    cases wholeNumber 16 t with
    | none => simp
    | some n =>
      simp only [Option.map_some, reduceCtorEq, false_or]
      cases toks.mapM (fun t => (wholeNumber 16 t).map (BitVec.ofNat 8)) <;> simp

theorem etherExact_iff (s : CString) :
    EtherExact s ↔ s.length < 32 ∧ (MacForm s ∨ EtherRefused (tokens ':' s)) := by
  have hnone (offset : ℕ) (o : Obj) :
      FlowFields.etherAddrLoop offset (tokens ':' s) 0 o = none ↔
        EtherRefused (tokens ':' s) := by
    rw [etherAddrLoop_eq, Nat.zero_add, EtherRefused,
      ← mapM_groupByte_eq_none_iff fun t ht => ne_nil_of_mem_tokens ht]
    by_cases hlen : (tokens ':' s).length ≤ 6
    · rw [if_pos (.inl hlen), Option.map_eq_none_iff, or_iff_right (by omega)]
    · rw [if_neg (by rintro (h | h); exacts [hlen h, hlen (by rw [h]; decide)])]
      exact iff_of_true rfl (.inl (by omega))
  constructor
  · intro h
    obtain ⟨r, hr, hsome, -⟩ := h 0 .cleared
    unfold strToRteEtherAddr at hr
    by_cases hlen : s.length < 32
    · rw [if_pos hlen] at hr
      refine ⟨hlen, or_iff_not_imp_left.mpr fun hform => ?_⟩
      rw [← hnone 0 .cleared, Except.ok.inj hr]
      exact Option.not_isSome_iff_eq_none.mp fun h => hform (hsome.mp h)
    · rw [if_neg hlen] at hr
      cases hr
  rintro ⟨hlen, hform⟩ offset o
  rw [strToRteEtherAddr, if_pos hlen]
  refine ⟨_, rfl, ?_⟩
  by_cases hmac : MacForm s
  · obtain ⟨gs, hgs⟩ := hmac
    have hloop : FlowFields.etherAddrLoop offset (tokens ':' s) 0 o =
        some (o.store offset (gs.map fun g => BitVec.ofNat 8 (digitsVal 16 g))) := by
      rw [etherAddrLoop_eq, hgs.tokens, if_pos (.inl (by rw [hgs.1])),
        mapM_groupByte_of_isHexByte hgs.2.1]
      rfl
    rw [hloop]
    refine ⟨iff_of_true rfl ⟨gs, hgs⟩, fun gs' hgs' => ?_⟩
    obtain rfl : gs' = gs := hgs'.tokens.symm.trans hgs.tokens
    rfl
  · rw [(hnone offset o).mpr (hform.resolve_left hmac)]
    exact ⟨iff_of_false (by simp) hmac, fun gs hgs => absurd ⟨gs, hgs⟩ hmac⟩

/-- **When the texts of MAC addresses are converted exactly.**  A text has to fit the buffer, and if
it is not an address there has to be a reason for which it is refused. -/
theorem macExact_iff (s : CString) :
    (ConvertExact s ↔ s.length < 32 ∧ (MacForm s ∨ Refused (CString.tokens ':' s))) ∧
    (EtherExact s ↔ s.length < 32 ∧ (MacForm s ∨ EtherRefused (CString.tokens ':' s))) :=
  ⟨convertExact_iff s, etherExact_iff s⟩

/-- Three groups are accepted by both, a text without any is the address 0 in the workers, and a long
text is written over the end of the buffer. -/
theorem not_macExact_three : ¬ ConvertExact "1:2:3" ∧ ¬ EtherExact "1:2:3" ∧
    ¬ ConvertExact "zz" ∧ ¬ ConvertExact (List.replicate 32 '1') := by
  have hform {s : CString} (h : (CString.tokens ':' s).length ≠ 6) : ¬ MacForm s := by
    rintro ⟨gs, hgs⟩
    exact h (by rw [hgs.tokens, hgs.1])
  have hconvert {s : CString} (h : (CString.tokens ':' s).length ≠ 6)
      (hne : sppwkConvertMacStrToInt64 s ≠ .ok (-1#64)) : ¬ ConvertExact s := by
    rintro ⟨r, hr, -, -, hng⟩
    exact hne (by rw [hr, hng (hform h)])
  refine ⟨hconvert (by decide) (by decide +kernel), fun h => ?_,
    hconvert (by decide) (by decide +kernel), hconvert (by decide) (by decide +kernel)⟩
  obtain ⟨r, hr, hsome, -⟩ := h 0 .cleared
  have htrue : (strToRteEtherAddr "1:2:3" 0 .cleared).map Option.isSome = .ok true := by
    decide +kernel
  rw [hr] at htrue
  exact hform (by decide) (hsome.mp (Except.ok.inj htrue))

/-! ## Numbers -/

/-- What the conversion to `int` makes of a number. -/
def storedInt (n : ℤ) : ℤ := CString.intOfLong (max CString.longMin (min CString.longMax n))

/-- What the conversion to an unsigned type with a number of bits makes of a number. -/
def asUnsigned (bits : ℕ) (n : ℤ) : ℕ := CString.ulongOfValue n % 2 ^ bits

theorem asUnsigned_natCast {bits n : ℕ} (hbits : bits ≤ 64) (hn : n < 2 ^ bits) :
    asUnsigned bits n = n := by
  have hlt : n < 2 ^ 64 := Nat.lt_of_lt_of_le hn (Nat.pow_le_pow_right (by decide) hbits)
  rw [asUnsigned, ulongOfValue_natCast hlt, Nat.mod_eq_of_lt hn]

/-- `get_int_in_range` accepts exactly the numbers of the range. -/
def IntExact (s : CString) (n min max : ℤ) : Prop :=
  getIntInRange s min max = if min ≤ n ∧ n ≤ max then some n else none

/-- `get_uint_in_range` accepts exactly the numbers of the range. -/
def UintExact (s : CString) (n : ℤ) (min max : ℕ) : Prop :=
  getUintInRange s min max = if (min : ℤ) ≤ n ∧ n ≤ max then some n.toNat else none

/-- A conversion of the flow parser accepts exactly the numbers with some bits. -/
def FieldExact (convert : CString → ℕ → Obj → Except Fault (Option Obj)) (s : CString) (n : ℤ)
    (bits : ℕ) : Prop :=
  ∀ offset o, (∃ o', convert s offset o = .ok (some o')) ↔ 0 ≤ n ∧ n < 2 ^ bits

section Number

variable {s : CString} {n : ℤ} {width : ℕ}

theorem intExact_iff (h : value 0 s = some (n, [])) {min max : ℤ} (hmin : -2 ^ 31 ≤ min)
    (hmax : max < 2 ^ 31) :
    IntExact s n min max ↔ (-2 ^ 31 ≤ n ∧ n < 2 ^ 31) ∨ storedInt n < min ∨ max < storedInt n := by
  have hget : getIntInRange s min max =
      if storedInt n < min ∨ max < storedInt n then none else some (storedInt n) := by
    rw [getIntInRange, strtol_eq_value, h]
    rfl
  rw [IntExact, hget]
  by_cases hfits : -2 ^ 31 ≤ n ∧ n < 2 ^ 31
  · have hself : storedInt n = n := intOfLong_clamp hfits.1 hfits.2
    refine iff_of_true ?_ (.inl hfits)
    rw [hself]
    by_cases hin : min ≤ n ∧ n ≤ max
    · rw [if_neg (by omega), if_pos hin]
    · rw [if_pos (by omega), if_neg hin]
  · rw [or_iff_right hfits, if_neg (show ¬ (min ≤ n ∧ n ≤ max) by omega)]
    simp only [ite_eq_left_iff, reduceCtorEq, imp_false, not_not]

theorem uintExact_iff (h : value 0 s = some (n, [])) {min max : ℕ} (hmax : max < 2 ^ 32) :
    UintExact s n min max ↔
      (0 ≤ n ∧ n < 2 ^ 32) ∨ asUnsigned 32 n < min ∨ max < asUnsigned 32 n := by
  have hget : getUintInRange s min max =
      if asUnsigned 32 n < min ∨ max < asUnsigned 32 n then none else some (asUnsigned 32 n) := by
    rw [getUintInRange, strtoul_eq_value, h]
    rfl
  rw [UintExact, hget]
  by_cases hfits : 0 ≤ n ∧ n < 2 ^ 32
  · obtain ⟨k, rfl⟩ := Int.eq_ofNat_of_zero_le hfits.1
    have hself : asUnsigned 32 k = k := asUnsigned_natCast (by decide) (by omega)
    refine iff_of_true ?_ (.inl hfits)
    rw [hself]
    by_cases hin : (min : ℤ) ≤ k ∧ (k : ℤ) ≤ max
    · rw [if_neg (by omega), if_pos hin]
      rfl
    · rw [if_pos (by omega), if_neg hin]
  · rw [or_iff_right hfits, if_neg (show ¬ ((min : ℤ) ≤ n ∧ n ≤ max) by omega)]
    simp only [ite_eq_left_iff, reduceCtorEq, imp_false, not_not]

theorem wholeNumber_of_value_nil {base : ℕ} (h : value base s = some (n, [])) :
    wholeNumber base s = some (ulongOfValue n) := by
  rw [wholeNumber, strtoul_eq_value, h]
  rfl

/-- A conversion that compares with `2 ^ bits - 1`, in a type of `width` bits. -/
theorem fieldExact_iff (h : value 0 s = some (n, [])) {bits : ℕ} (hbits : bits ≤ width)
    (hwidth : width ≤ 64) {write : ℕ → Option (ℕ → Obj → Obj)}
    (hwrite : ∀ k, (write k).isSome ↔ k % 2 ^ width < 2 ^ bits) :
    FieldExact (strToNumber write) s n bits ↔
      (0 ≤ n ∧ n < 2 ^ width) ∨ 2 ^ bits ≤ asUnsigned width n := by
  have hmono : 2 ^ bits ≤ 2 ^ width := Nat.pow_le_pow_right (by decide) hbits
  have hsome (offset : ℕ) (o : Obj) : (∃ o', strToNumber write s offset o = .ok (some o')) ↔
      asUnsigned width n < 2 ^ bits := by
    rw [strToNumber, wholeNumber_of_value_nil h, Option.bind_some, asUnsigned, ← hwrite]
    cases write (ulongOfValue n) <;> simp
  have hexact : FieldExact (strToNumber write) s n bits ↔
      (asUnsigned width n < 2 ^ bits ↔ 0 ≤ n ∧ n < 2 ^ bits) := by
    constructor
    · intro hall
      exact (hsome 0 .cleared).symm.trans (hall 0 .cleared)
    · intro hiff offset o
      exact (hsome offset o).trans hiff
  have hcast : ((2 ^ bits : ℕ) : ℤ) = 2 ^ bits := by push_cast; rfl
  have hcast' : ((2 ^ width : ℕ) : ℤ) = 2 ^ width := by push_cast; rfl
  rw [hexact, ← hcast, ← hcast']
  by_cases hfits : 0 ≤ n ∧ n < ((2 ^ width : ℕ) : ℤ)
  · obtain ⟨k, rfl⟩ := Int.eq_ofNat_of_zero_le hfits.1
    have hself : asUnsigned width k = k := asUnsigned_natCast hwidth (by omega)
    refine iff_of_true ?_ (.inl hfits)
    rw [hself]
    omega
  · rw [or_iff_right hfits]
    omega

/-- A field with all the bits of its type is never refused. -/
theorem fieldExact_width_iff (h : value 0 s = some (n, []))
    (hwidth : width ≤ 64) {write : ℕ → ℕ → Obj → Obj} :
    FieldExact (strToNumber fun k => some (write k)) s n width ↔ 0 ≤ n ∧ n < 2 ^ width := by
  rw [fieldExact_iff h (Nat.le_refl width) hwidth fun k =>
    iff_of_true rfl (Nat.mod_lt _ (Nat.two_pow_pos _))]
  refine or_iff_left fun hge => ?_
  exact absurd hge (Nat.not_le.mpr (Nat.mod_lt _ (Nat.two_pow_pos _)))

end Number

/-! ### Attributes -/

/-- `parse_flow_attr` accepts the attribute at an index, in front of others that it accepts, exactly
if its number fits. -/
def AttrExact (toks : List CString) (index : ℕ) (n : ℤ) : Prop :=
  (∃ r, parseFlowAttr toks index = .ok (some r)) ↔ 0 ≤ n ∧ n < 2 ^ 32

theorem parseFlowAttr_iff_scan (hat : FlowParser.At toks index rest) :
    (∃ r, parseFlowAttr toks index = .ok (some r)) ↔
      ∃ rule, Scan.scan FlowParser.attrStep rest = .done rule := by
  have hspec : FlowParser.AttrSpec toks (parseFlowAttr toks index)
      (Scan.scan FlowParser.attrStep rest) := FlowParser.parseAttrLoop_spec hat hat.length_le
  cases hscan : Scan.scan FlowParser.attrStep rest with
  | refused =>
    rw [hscan] at hspec
    have hspec : parseFlowAttr toks index = .ok none := hspec
    simp [hspec]
  | cut =>
    rw [hscan] at hspec
    exact absurd hspec not_false
  | done rule =>
    rw [hscan] at hspec
    obtain ⟨b, -, hb⟩ := hspec
    exact iff_of_true ⟨b, hb⟩ ⟨rule, rfl⟩

/-- **An attribute with a number** is accepted if the number is decimal. -/
theorem parseFlowAttr_number {word : CString}
    (hword : word = "group" ∨ word = "priority") (hs : s ≠ [])
    (hat : FlowParser.At toks index (word :: s :: rest))
    (hrest : ∃ r, parseFlowAttr toks (index + 2) = .ok (some r)) :
    (∃ r, parseFlowAttr toks index = .ok (some r)) ↔ ∃ m, value 10 s = some (m, []) := by
  rw [parseFlowAttr_iff_scan hat.next.next] at hrest
  rw [parseFlowAttr_iff_scan hat]
  have hstep := FlowParser.attrStep_number hword (s :: rest)
  have hnone : wholeNumber 10 s = none ↔ ¬ ∃ m, value 10 s = some (m, []) := by
    rw [wholeNumber_eq_none_iff hs, not_exists]
  cases hnumber : wholeNumber 10 s with
  | none =>
    simp only [hnumber, Option.isSome_none, Bool.false_eq_true, if_false] at hstep
    rw [Scan.scan_of_refused FlowParser.shrinks_attrStep hstep]
    exact iff_of_false (by simp) (hnone.mp hnumber)
  | some m =>
    simp only [hnumber, Option.isSome_some, if_true] at hstep
    rw [Scan.scan_of_more FlowParser.shrinks_attrStep hstep]
    refine iff_of_true hrest (Classical.byContradiction fun hno => ?_)
    rw [hnone.mpr hno] at hnumber
    cases hnumber

/-! ### Destroying a rule -/

section Destroy

open Primary.Flow (FlowRule DestroyEnv Listed execFlowDestroy execFlowFlush)

variable {R : Type} {st st' : Flow.State R} {L : ℕ → List (ℕ × FlowRule R)} {port : ℕ}
  {uid s response : CString} {e : DestroyEnv} {x : ℕ × FlowRule R}

/-- `parse_flow` with `destroy`: the arguments are parsed, and `exec_flow` is called. -/
def flowDestroy (st : Flow.State R) (toks : List CString) (e : DestroyEnv) :
    Except Fault (Option (CString × Flow.State R)) := do
  let (ret, input) ← parseFlowDestroy toks .zero
  if ret then
    match input.command with
    | .destroy => some <$> execFlowDestroy st input.portId.toNat input.ruleId e
    | .flush => some <$> execFlowFlush st input.portId.toNat e
    | .validate | .create => .ok none
  else .ok none

/-- The number that a text starts with when it is taken to be decimal, and zero if there is none. -/
def decimal (s : CString) : ℤ := ((CString.value 10 s).map Prod.fst).getD 0

/-- The tokens of the command. -/
def destroyTokens (uid s : CString) (rest : List CString) : List CString :=
  "flow" :: "destroy" :: uid :: s :: rest

/-- A rule of the port is destroyed only if the text is its number. -/
def DestroyExact (st : Flow.State R) (L : ℕ → List (ℕ × FlowRule R)) (port : ℕ) (uid s : CString)
    (rest : List CString) : Prop :=
  ∀ e response st', flowDestroy st (destroyTokens uid s rest) e = .ok (some (response, st')) →
    ∀ x ∈ L port, st'.portList.cell x.1 = none → CString.value 0 s = some ((x.2.ruleId : ℤ), [])

theorem flowDestroy_eq (huid : FlowParser.parsePhyPortId (some uid) = .ok (some (port : ℤ)))
    (rest : List CString) (e : DestroyEnv) :
    flowDestroy st (destroyTokens uid s rest) e =
      if s = "ALL" then some <$> execFlowFlush st port e
      else some <$> execFlowDestroy st port (asUnsigned 32 (decimal s)) e := by
  have hthree : FlowParser.tokenAt (destroyTokens uid s rest) 3 = .ok (some s) := rfl
  have htwo : FlowParser.tokenAt (destroyTokens uid s rest) 2 = .ok (some uid) := rfl
  have hrule : ((strtoul 10 s).map (·.1 % 2 ^ 32)).getD 0 = asUnsigned 32 (decimal s) := by
    rw [strtoul_eq_value, decimal]
    cases value 10 s <;> rfl
  unfold flowDestroy parseFlowDestroy
  rw [htwo]
  simp only [bind, Except.bind]
  rw [huid]
  simp only
  rw [hthree]
  simp only
  by_cases hall : s = "ALL"
  · rw [if_pos hall, if_pos hall]
    rfl
  · rw [if_neg hall, if_neg hall, hrule]
    rfl

/-- A rule whose number is looked for is freed, and no other one. -/
theorem cell_of_execFlowDestroy (h : Listed st L) {ruleId : ℕ}
        (hexec : execFlowDestroy st port ruleId e = .ok (response, st')) (hx : x ∈ L port) :
    st'.portList.cell x.1 = none ↔ e.used = true ∧ e.ok = true ∧ x.2.ruleId = ruleId := by
  obtain ⟨response', st'', L', hexec', heffect⟩ := h.destroy port ruleId e
  obtain rfl : st'' = st' := by
    rw [hexec] at hexec'
    exact (Prod.mk.inj (Except.ok.inj hexec')).2.symm
  have hupdate : L' = Function.update L port (L' port) := by
    funext p
    rcases eq_or_ne p port with rfl | hne
    · rw [Function.update_self]
    · rw [Function.update_of_ne hne, (heffect.others p hne).1]
  have hport := heffect.destroyed port ruleId e rfl
  have hsub : L' port ⊆ L port := by
    rw [hport]
    split
    · exact List.filter_subset_self ..
    · exact List.Subset.refl _
  have hrep := heffect.listed.represents
  rw [hupdate] at hrep
  rw [h.represents.cell_eq_none_iff hrep hsub hx, hport]
  split
  · rename_i hyes
    simp [hx, hyes]
  · rename_i hno
    simp only [hx, not_true_eq_false, false_iff]
    exact fun hc => hno ⟨hc.1, hc.2.1⟩

theorem cell_of_execFlowFlush (h : Listed st L)
    (hexec : execFlowFlush st port e = .ok (response, st'))
    (hx : x ∈ L port) : st'.portList.cell x.1 = none ↔ e.used = true := by
  unfold execFlowFlush at hexec
  by_cases hused : e.used = true
  · obtain ⟨portList, hclear, hrep⟩ := h.represents.clear port (h.length_lt port)
    rw [if_pos hused] at hexec
    simp only [hclear] at hexec
    obtain rfl : _ = st' := (Prod.mk.inj (Except.ok.inj hexec)).2
    refine iff_of_true ?_ hused
    exact (h.represents.cell_eq_none_iff hrep (List.nil_subset _) hx).mpr List.not_mem_nil
  · rw [if_neg hused] at hexec
    obtain rfl : st = st' := (Prod.mk.inj (Except.ok.inj hexec)).2
    exact iff_of_false (h.represents.cell_ne_none hx) hused

/-- **When a rule is destroyed only by its number.** -/
theorem destroyExact_iff (h : Listed st L)
    (huid : FlowParser.parsePhyPortId (some uid) = .ok (some (port : ℤ))) (rest : List CString) :
    DestroyExact st L port uid s rest ↔ ∀ x ∈ L port,
      s = "ALL" ∨ x.2.ruleId = asUnsigned 32 (decimal s) →
        value 0 s = some ((x.2.ruleId : ℤ), []) := by
  unfold DestroyExact
  simp only [flowDestroy_eq huid]
  by_cases hall : s = "ALL"
  · simp only [hall, if_true, true_or, forall_const]
    constructor
    · intro hexact x hx
      obtain ⟨response, st', L', hexec, -⟩ := h.flush port ⟨true, true, []⟩
      refine hexact ⟨true, true, []⟩ response st' ?_ x hx ((cell_of_execFlowFlush h hexec hx).mpr rfl)
      rw [hexec]
      rfl
    · intro hval e response st' _ x hx _
      exact hval x hx
  simp only [hall, if_false, false_or]
  constructor
  · intro hexact x hx hid
    obtain ⟨response, st', L', hexec, -⟩ :=
      h.destroy port (asUnsigned 32 (decimal s)) ⟨true, true, []⟩
    refine hexact ⟨true, true, []⟩ response st' ?_ x hx
      ((cell_of_execFlowDestroy h hexec hx).mpr ⟨rfl, rfl, hid⟩)
    rw [hexec]
    rfl
  · intro hval e response st' hexec x hx hcell
    obtain ⟨response', st'', L', hexec', -⟩ := h.destroy port (asUnsigned 32 (decimal s)) e
    rw [hexec'] at hexec
    obtain ⟨rfl, rfl⟩ := Prod.mk.inj (Option.some.inj (Except.ok.inj hexec))
    exact hval x hx ((cell_of_execFlowDestroy h hexec' hx).mp hcell).2.2

end Destroy

/-! ### All of them -/

/-- **When numbers are checked for what they are.** -/
theorem numbersExact_iff {R : Type} :
    (∀ (s : CString) (n : ℤ), CString.value 0 s = some (n, []) →
      (∀ min max : ℤ, -2 ^ 31 ≤ min → max < 2 ^ 31 → (IntExact s n min max ↔
        (-2 ^ 31 ≤ n ∧ n < 2 ^ 31) ∨ storedInt n < min ∨ max < storedInt n)) ∧
      (∀ min max : ℕ, max < 2 ^ 32 → (UintExact s n min max ↔
        (0 ≤ n ∧ n < 2 ^ 32) ∨ asUnsigned 32 n < min ∨ max < asUnsigned 32 n)) ∧
      (FieldExact strToPcp s n 3 ↔ (0 ≤ n ∧ n < 2 ^ 8) ∨ 2 ^ 3 ≤ asUnsigned 8 n) ∧
      (FieldExact setDeiInTci s n 1 ↔ (0 ≤ n ∧ n < 2 ^ 8) ∨ 2 ^ 1 ≤ asUnsigned 8 n) ∧
      (FieldExact setVidInTci s n 12 ↔ (0 ≤ n ∧ n < 2 ^ 16) ∨ 2 ^ 12 ≤ asUnsigned 16 n) ∧
      (FieldExact strToUint16 s n 16 ↔ 0 ≤ n ∧ n < 2 ^ 16) ∧
      (FieldExact strToUint32 s n 32 ↔ 0 ≤ n ∧ n < 2 ^ 32) ∧
      ∀ (toks : List CString) (index : ℕ) (word : CString) (rest : List CString),
        word = "group" ∨ word = "priority" →
        FlowParser.At toks index (word :: s :: rest) →
        (∃ r, parseFlowAttr toks (index + 2) = .ok (some r)) →
        (AttrExact toks index n ↔
          ((∃ m, CString.value 10 s = some (m, [])) ↔ 0 ≤ n ∧ n < 2 ^ 32))) ∧
    ∀ (st : Flow.State R) (L : ℕ → List (ℕ × Flow.FlowRule R)) (port : ℕ) (uid s : CString)
      (rest : List CString), Flow.Listed st L →
      FlowParser.parsePhyPortId (some uid) = .ok (some (port : ℤ)) →
      (DestroyExact st L port uid s rest ↔ ∀ x ∈ L port,
        s = "ALL" ∨ x.2.ruleId = asUnsigned 32 (decimal s) →
          CString.value 0 s = some ((x.2.ruleId : ℤ), [])) := by
  refine ⟨fun s n h => ⟨fun min max hmin hmax => intExact_iff h hmin hmax,
    fun min max hmax => uintExact_iff h hmax, ?_, ?_, ?_, fieldExact_width_iff h (by decide),
    fieldExact_width_iff h (by decide), fun toks index word rest hword hat hrest => ?_⟩,
    fun st L port uid s rest h huid => destroyExact_iff h huid rest⟩
  · exact fieldExact_iff h (by decide) (by decide) fun k => Option.isSome_ite'.trans (by omega)
  · exact fieldExact_iff h (by decide) (by decide) fun k => Option.isSome_ite'.trans (by omega)
  · exact fieldExact_iff h (by decide) (by decide) fun k => Option.isSome_ite'.trans (by omega)
  · have hs : s ≠ [] := by
      rintro rfl
      cases h
    rw [AttrExact, parseFlowAttr_number hword hs hat hrest]

/-- A number that fits its type, an attribute in front of the pattern, and the number of one of two
rules. -/
theorem numbersExact_iff_small : UintExact "127" 127 0 127 ∧
    AttrExact ["group", "127", "pattern"] 0 127 ∧
    DestroyExact Flow.twoRules Flow.twoLists 0 "phy:0" "1" [] := by
  have h : CString.value 0 "127" = some (127, []) := by decide +kernel
  obtain ⟨hnumbers, hdestroy⟩ := numbersExact_iff (R := Unit)
  obtain ⟨-, huint, -, -, -, -, -, hattr⟩ := hnumbers _ _ h
  refine ⟨(huint 0 127 (by decide)).mpr (.inl (by decide)),
    (hattr _ 0 "group" ["pattern"] (.inl rfl) ⟨by decide, rfl⟩ ⟨_, rfl⟩).mpr
      (iff_of_true ⟨127, by decide +kernel⟩ (by decide)),
    (hdestroy _ _ 0 _ _ [] Flow.listed_twoRules (by decide +kernel)).mpr ?_⟩
  decide +kernel

/-- The text `4294967297` is taken for 1 by both functions of the workers, and `65536` for a number
of sixteen bits. -/
theorem not_numbersExact_large :
    (CString.value 0 "4294967297" = some (4294967297, []) ∧
      ¬ UintExact "4294967297" 4294967297 0 127 ∧
      ¬ IntExact "4294967297" 4294967297 0 7) ∧
    CString.value 0 "65536" = some (65536, []) ∧
      ¬ FieldExact strToUint16 "65536" 65536 16 := by
  have h : CString.value 0 "65536" = some (65536, []) := by decide +kernel
  refine ⟨⟨by decide +kernel, fun hexact => ?_, fun hexact => ?_⟩, h, fun hexact => ?_⟩
  · have hone : getUintInRange "4294967297" 0 127 = some 1 := by decide +kernel
    exact absurd (hone.symm.trans hexact) (by decide)
  · have hone : getIntInRange "4294967297" 0 7 = some 1 := by decide +kernel
    exact absurd (hone.symm.trans hexact) (by decide)
  · exact absurd ((fieldExact_width_iff h (by decide)).mp hexact) (by decide)

end TextNumbers
end SoftPatchPanel.Primary
