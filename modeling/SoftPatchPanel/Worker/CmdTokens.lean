import SoftPatchPanel.Shared.JsonHelper
import SoftPatchPanel.Worker.AcceptedRequests

/-!
# What the tokens of a request stand for

The functions of the parser turn one token into one field.  This file says, apart
from the parser, what a token of each kind *denotes*, and then what the parser makes
of a token that may or may not denote anything.

* A number denotes its value, whatever its size.  The parser stores the result of
  `strtol` in an `int`, so it also takes numbers that are out of range by a multiple
  of 2³².
* A resource UID denotes a port: an entry of the interface table and, if it is a
  physical port, one of its queues.  The parser tests the interface number against
  the wrong bound and the queue number not at all (`parseResourceUid_eq`).
* A MAC address is six pairs of hexadecimal digits.  The parser stops reading at the
  first part that is no number and takes what it has got.
-/

namespace SoftPatchPanel.Worker

open Transition CString

variable {P : Platform} {m : MngData} {str uid t arg : CString} {idx : PortIdx} {n : ℤ} {base : ℕ}
  {c : Char} {toks : List CString}

/-! ## Numbers -/

theorem getIntInRange_of_value {lo hi : ℤ}
    (h : value 0 arg = some (n, [])) (hlo : lo ≤ n) (hhi : n ≤ hi)
    (hmin : -2 ^ 31 ≤ lo) (hmax : hi < 2 ^ 31) : getIntInRange arg lo hi = some n := by
  have hread := strtol_of_value h (by omega) (by omega)
  rw [Option.map_eq_some_iff] at hread
  obtain ⟨⟨k, rest⟩, hk, heq⟩ := hread
  obtain ⟨hn, rfl⟩ : intOfLong k = n ∧ rest = [] := Prod.mk.injEq .. ▸ heq
  unfold getIntInRange
  rw [hk]
  simp only [hn]
  rw [if_neg (by omega)]

theorem getUintInRange_of_value {hi n : ℕ}
    (h : value 0 arg = some ((n : ℤ), [])) (hhi : n ≤ hi) (hmax : hi < 2 ^ 32) :
    getUintInRange arg 0 hi = some n := by
  have hread := strtoul_of_value h (by omega)
  have hn : uintOfULong n = n := Nat.mod_eq_of_lt (by omega)
  unfold getUintInRange
  rw [hread]
  simp only [hn]
  rw [if_neg (by omega)]

/-! ## Words -/

/-- A word of a list without repetitions has the meaning that the list gives it. -/
theorem getListIdx_eq_some_iff {α : Type} {list : List (CString × α)}
    (hnodup : (list.map Prod.fst).Nodup) {v : α} :
    getListIdx str list = some v ↔ (str, v) ∈ list := by
  refine ⟨mem_of_getListIdx, fun h => ?_⟩
  induction list with
  | nil => cases h
  | cons p list ih =>
    obtain ⟨key, w⟩ := p
    rw [List.map_cons, List.nodup_cons] at hnodup
    rw [getListIdx, List.lookup_cons]
    rcases List.mem_cons.mp h with heq | hmem
    · obtain ⟨rfl, rfl⟩ := Prod.mk.injEq .. ▸ heq
      simp
    have hne : (str == key) = false := by
      rw [beq_eq_false_iff_ne]
      rintro rfl
      exact hnodup.1 (List.mem_map.mpr ⟨_, hmem, rfl⟩)
    rw [hne]
    exact ih hnodup.2 hmem

/-- The words of a list whose meaning passes a test. -/
theorem getListIdx_filter {α : Type} {list : List (CString × α)} (p : α → Bool)
    (hnodup : (list.map Prod.fst).Nodup) (str : CString) :
    getListIdx str (list.filter fun w => p w.2) = (getListIdx str list).filter p := by
  have hsub : ((list.filter fun w => p w.2).map Prod.fst).Nodup :=
    hnodup.sublist (List.filter_sublist.map _)
  ext v
  rw [getListIdx_eq_some_iff hsub, List.mem_filter, Option.filter_eq_some_iff,
    getListIdx_eq_some_iff hnodup]

theorem cmdActList_nodup : (cmdActList.map Prod.fst).Nodup := by decide

theorem portDirList_nodup : (portDirList.map Prod.fst).Nodup := by decide

theorem portAbilityList_nodup : (portAbilityList.map Prod.fst).Nodup := by decide

theorem clsTypeList_nodup : (clsTypeList.map Prod.fst).Nodup := by decide

/-! ## Resource UIDs -/

/-- A way to read a number at the front of a string. -/
abbrev ReadNumber := CString → Option (ℤ × CString)

/-- `strtol` with base 0, stored in an `int`. -/
def readInt : ReadNumber := fun s =>
  (CString.strtol 0 s).map fun r => (CString.intOfLong r.1, r.2)

/-- The queue number behind `nq` and whether one is given. -/
def queueWith (read : ReadNumber) (ptype : PortType) (str : CString) : Option (ℤ × Bool) :=
  match CString.strstr "nq" str with
  | none => some (defaultQueueId, false)
  | some rest =>
    if ptype = .phy then
      match read (rest.drop 2) with
      | some (q, []) => some (q, true)
      | _ => none
    else none

/-- The interface number, which ends at the end of the string or at `nq`. -/
def noWith (read : ReadNumber) (str : CString) : Option ℤ :=
  match read str with
  | some (no, rest) => if rest = [] ∨ "nq".toList.isPrefixOf rest then some no else none
  | none => none

/-- The type, interface number and queue number of a resource UID, and whether it
gives a queue, with the given way to read numbers. -/
def uidWith (read : ReadNumber) (uid : CString) : Option (PortIdx × Bool) := do
  let (ptype, str) ← resourceType uid
  let (q, multi) ← queueWith read ptype str
  let no ← noWith read str
  some (⟨ptype, no, q⟩, multi)

/-- The number of queues of a physical port, in the direction that has more. -/
def nofQueues (P : Platform) (no : ℤ) : ℕ :=
  max (P.queueInfo no.toNat).rxq (P.queueInfo no.toNat).txq

/-- The numbers of a port are indices into the tables. -/
def PortIdx.InTable (P : Platform) (idx : PortIdx) : Prop :=
  (0 ≤ idx.ifaceNo ∧ idx.ifaceNo < P.maxEthports) ∧
    0 ≤ idx.queueNo ∧ idx.queueNo < P.maxQueuesPerPort

instance (idx : PortIdx) : Decidable (idx.InTable P) :=
  inferInstanceAs (Decidable (_ ∧ _))

/-- The numbers that an entry of the interface table is found by are in range; only
physical ports have queues. -/
def PortIdx.InIfaceTable (P : Platform) (idx : PortIdx) : Prop :=
  (0 ≤ idx.ifaceNo ∧ idx.ifaceNo < P.maxEthports) ∧
    (idx.ifaceType = .phy → 0 ≤ idx.queueNo ∧ idx.queueNo < P.maxQueuesPerPort)

/-- The port has the queue, in one direction at least. -/
def PortIdx.HasQueue (P : Platform) (idx : PortIdx) : Prop :=
  idx.ifaceType = .phy → idx.queueNo < nofQueues P idx.ifaceNo

instance (idx : PortIdx) : Decidable (idx.HasQueue P) :=
  inferInstanceAs (Decidable (_ → _))

/-- **A resource UID names a port**: its numbers are indices into the tables, and a
physical port is given with a queue exactly if it has several, and has that one. -/
def NamesPort (P : Platform) (uid : CString) (idx : PortIdx) : Prop :=
  ∃ multi, uidWith (CString.value 0) uid = some (idx, multi) ∧ idx.InTable P ∧ idx.HasQueue P ∧
    (idx.ifaceType = .phy → multi = decide (1 < nofQueues P idx.ifaceNo))

/-- What `parse_resource_uid` makes of a UID. -/
def uidOutcome (P : Platform) (uid : CString) : Except Fault (Option PortIdx) :=
  match uidWith readInt uid with
  | none => .ok none
  | some (idx, multi) =>
    if idx.ifaceNo > P.maxEthports ∨ idx.ifaceNo < 0 then .ok none
    else if idx.ifaceType = .phy ∧ idx.ifaceNo = P.maxEthports then .error .undefined
    else if idx.ifaceType = .phy ∧ multi ≠ decide (1 < nofQueues P idx.ifaceNo) then .ok none
    else .ok (some idx)

theorem getPortMaxQueues_phy {no : ℤ} (h : ¬ (no > P.maxEthports ∨ no < 0)) :
    getPortMaxQueues P .phy no =
      if no = P.maxEthports then .error .undefined else .ok (some (nofQueues P no)) := by
  have hmax (a b : ℕ) : (if a > b then a else b) = max a b := by
    split <;> omega
  unfold getPortMaxQueues
  rw [if_neg h, if_neg (by simp)]
  split
  · rename_i hlt
    rw [if_neg (by omega)]
    simp only [hmax]
    rfl
  · rename_i hlt
    rw [if_pos (by omega)]

theorem queueWith_readInt (ptype : PortType) (str : CString) :
    queueWith readInt ptype str = resourceQueue ptype str := by
  unfold queueWith resourceQueue readInt
  cases strstr "nq" str with
  | none => rfl
  | some rest =>
    simp only
    split
    · cases strtol 0 (rest.drop 2) with
      | none => rfl
      | some r =>
        obtain ⟨q, tail⟩ := r
        cases tail with
        | nil => rfl
        | cons c tail => rfl
    · rfl

theorem noWith_readInt (str : CString) : noWith readInt str = resourceNo str := by
  unfold noWith resourceNo readInt
  cases strtol 0 str with
  | none => rfl
  | some r => rfl

/-- **`parse_resource_uid`**, in terms of the parts of the UID. -/
theorem parseResourceUid_eq (uid : CString) : parseResourceUid P uid = uidOutcome P uid := by
  unfold parseResourceUid uidOutcome uidWith
  cases hty : resourceType uid with
  | none => rfl
  | some r =>
    obtain ⟨ptype, str⟩ := r
    simp only [queueWith_readInt, noWith_readInt, Option.bind_eq_bind, Option.bind_some]
    cases hq : resourceQueue ptype str with
    | none => rfl
    | some r =>
      obtain ⟨q, multi⟩ := r
      simp only [Option.bind_some]
      cases hno : resourceNo str with
      | none => rfl
      | some no =>
        simp only [Option.bind_some]
        split
        · rfl
        rename_i hrange
        by_cases hphy : ptype = .phy
        · subst hphy
          rw [if_pos rfl, getPortMaxQueues_phy hrange]
          by_cases hmax : no = P.maxEthports
          · rw [if_pos hmax, if_pos ⟨rfl, hmax⟩]
            rfl
          · rw [if_neg hmax, if_neg fun h => hmax h.2]
            simp only [true_and]
            rfl
        · rw [if_neg hphy, if_neg fun h => hphy h.1, if_neg fun h => hphy h.1]

theorem uidOutcome_named (h : uidOutcome P uid = .ok (some idx)) : idx.ifaceType.Named :=
  parseResourceUid_named (parseResourceUid_eq uid ▸ h)

theorem PortIdx.InTable.inIfaceTable (h : idx.InTable P) : idx.InIfaceTable P :=
  ⟨h.1, fun _ => h.2⟩

theorem getSppwkPort_of_inIfaceTable (hnamed : idx.ifaceType.Named) (hin : idx.InIfaceTable P) :
    ∃ r, getSppwkPort P idx.ifaceType idx.ifaceNo idx.queueNo = .ok (some r) := by
  obtain ⟨hno, hq⟩ := hin
  unfold getSppwkPort
  rcases hnamed with hty | hty | hty
  · rw [hty]
    exact ⟨_, if_pos ⟨hno, hq hty⟩⟩
  all_goals
    rw [hty]
    exact ⟨_, if_pos hno⟩

theorem getSppwkPort_of_not_inIfaceTable (hnamed : idx.ifaceType.Named)
    (hout : ¬ idx.InIfaceTable P) :
    getSppwkPort P idx.ifaceType idx.ifaceNo idx.queueNo = .error .undefined := by
  unfold getSppwkPort
  rcases hnamed with hty | hty | hty
  · rw [hty]
    exact if_neg fun h => hout ⟨h.1, fun _ => h.2⟩
  all_goals
    rw [hty]
    exact if_neg fun h => hout ⟨h, fun hphy => by rw [hty] at hphy; cases hphy⟩

/-- The limits of the build fit the types that numbers are stored in. -/
structure Platform.FitsInt (P : Platform) : Prop where
  lcore : P.maxLcore ≤ 2 ^ 32
  ethports : P.maxEthports ≤ 2 ^ 31

theorem sample_fitsInt : (Platform.sample .vf).FitsInt := ⟨by decide, by decide⟩

theorem readInt_of_value {rest : CString} (h : value 0 str = some (n, rest))
    (hlo : -2 ^ 31 ≤ n) (hhi : n < 2 ^ 31) : readInt str = some (n, rest) :=
  strtol_of_value h hlo hhi

/-- Numbers that are indices into the tables are read as they are. -/
theorem uidWith_readInt_of_value (hP : P.FitsInt) {multi : Bool}
    (h : uidWith (value 0) uid = some (idx, multi)) (hin : idx.InTable P) :
    uidWith readInt uid = some (idx, multi) := by
  have hq := P.maxQueuesPerPort_lt
  have he := hP.ethports
  obtain ⟨hno, hqueue⟩ := hin
  simp only [uidWith, Option.bind_eq_bind, Option.bind_eq_some_iff] at h ⊢
  obtain ⟨⟨ptype, str⟩, hty, ⟨q, m'⟩, hqw, no, hnw, heq⟩ := h
  obtain ⟨rfl, rfl⟩ : (⟨ptype, no, q⟩ : PortIdx) = idx ∧ m' = multi := by simpa using heq
  refine ⟨(ptype, str), hty, (q, m'), ?_, no, ?_, rfl⟩
  · unfold queueWith at hqw ⊢
    cases hstr : strstr "nq" str with
    | none =>
      rwa [hstr] at hqw
    | some rest =>
      rw [hstr] at hqw
      simp only at hqw ⊢
      split at hqw
      · rename_i hphy
        rw [if_pos hphy]
        split at hqw
        · rename_i q' hread
          cases hqw
          rw [readInt_of_value hread (by simp only at hqueue; omega) (by simp only at hqueue; omega)]
        · cases hqw
      · cases hqw
  · unfold noWith at hnw ⊢
    split at hnw
    · rename_i no' rest hread
      split at hnw
      · rename_i hrest
        cases hnw
        rw [readInt_of_value hread (by simp only at hno; omega) (by simp only at hno; omega)]
        exact if_pos hrest
      · cases hnw
    · cases hnw

/-- A UID that names a port is read as that port. -/
theorem NamesPort.uidOutcome (hP : P.FitsInt)
    (h : NamesPort P uid idx) : Worker.uidOutcome P uid = .ok (some idx) := by
  obtain ⟨multi, hval, hin, -, hmulti⟩ := h
  have hno := hin.1
  rw [Worker.uidOutcome, uidWith_readInt_of_value hP hval hin]
  simp only
  rw [if_neg (by omega), if_neg (by omega), if_neg fun h => h.2 (hmulti h.1)]

/-! ## MAC addresses -/

/-- Six pairs of hexadecimal digits with a colon between any two. -/
def IsMac (str : CString) : Prop :=
  str.length = 17 ∧ (CString.tokens ':' str).length = 6 ∧
    ∀ t ∈ CString.tokens ':' str, t.length = 2 ∧ t.all (CString.isDigitOf 16)

instance (str : CString) : Decidable (IsMac str) :=
  inferInstanceAs (Decidable (_ ∧ _ ∧ _))

/-- The address that a token denotes: an address, or the word for the default. -/
def MacOf (tok mac : CString) : Prop :=
  (tok = "default" ∧ mac = clsDummyAddrStr) ∨ (IsMac tok ∧ mac = tok)

theorem digitVal_lt_of_isDigitOf (h : isDigitOf base c = true) : (digitVal c).getD 0 < base := by
  unfold isDigitOf at h
  split at h
  · rename_i d hd
    rw [hd]
    exact of_decide_eq_true h
  · cases h

/-- A digit of any base is neither white space nor a sign. -/
theorem toNat_of_isDigitOf (h : isDigitOf base c = true) : 48 ≤ c.toNat ∧ c.toNat < 128 := by
  have hrange {d e : Char} (hd : 48 ≤ d.toNat) (he : e.toNat < 128) (hc : d ≤ c ∧ c ≤ e) :
      48 ≤ c.toNat ∧ c.toNat < 128 :=
    ⟨le_trans hd (UInt32.le_iff_toNat_le.mp hc.1), lt_of_le_of_lt (UInt32.le_iff_toNat_le.mp hc.2) he⟩
  unfold isDigitOf digitVal at h
  by_contra hout
  rw [if_neg fun hc => hout (hrange (by decide) (by decide) hc),
    if_neg fun hc => hout (hrange (by decide) (by decide) hc),
    if_neg fun hc => hout (hrange (by decide) (by decide) hc)] at h
  cases h

/-- One or two hexadecimal digits. -/
def IsHexByte (t : CString) : Prop :=
  (t.length = 1 ∨ t.length = 2) ∧ t.all (CString.isDigitOf 16)

instance (t : CString) : Decidable (IsHexByte t) := inferInstanceAs (Decidable (_ ∧ _))

theorem digitsVal_lt_of_isHexByte (h : IsHexByte t) : digitsVal 16 t < 256 := by
  obtain ⟨hlen | hlen, hhex⟩ := h
  · obtain ⟨a, rfl⟩ := List.length_eq_one_iff.mp hlen
    simp only [List.all_cons, List.all_nil, Bool.and_true] at hhex
    have ha := digitVal_lt_of_isDigitOf hhex
    simp only [digitsVal, List.foldl_cons, List.foldl_nil]
    omega
  obtain ⟨a, b, rfl⟩ := List.length_eq_two.mp hlen
  simp only [List.all_cons, List.all_nil, Bool.and_true, Bool.and_eq_true] at hhex
  have ha := digitVal_lt_of_isDigitOf hhex.1
  have hb := digitVal_lt_of_isDigitOf hhex.2
  simp only [digitsVal, List.foldl_cons, List.foldl_nil]
  omega

/-- They are read as a numeral, to the end. -/
theorem scanSigned_of_isHexByte (h : IsHexByte t) :
    scanSigned 16 t = some (false, digitsVal 16 t, []) := by
  obtain ⟨hlen, hhex⟩ := h
  obtain ⟨a, t', rfl⟩ : ∃ a t', t = a :: t' :=
    List.exists_cons_of_ne_nil (by rintro rfl; simp at hlen)
  rw [List.all_cons, Bool.and_eq_true] at hhex
  obtain ⟨ha, hall⟩ := hhex
  have hle := (toNat_of_isDigitOf ha).1
  have hspace : isSpace a = false := by
    unfold isSpace
    have hblank : a ≠ ' ' := by
      rintro rfl
      exact absurd hle (by decide)
    simp only [hblank, decide_false, Bool.false_or, Bool.and_eq_false_iff, decide_eq_false_iff_not]
    omega
  have hminus : a ≠ '-' := by
    rintro rfl
    exact absurd hle (by decide)
  have hplus : a ≠ '+' := by
    rintro rfl
    exact absurd hle (by decide)
  have hdigit : ∀ c ∈ a :: t', isDigitOf 16 c = true :=
    List.forall_mem_cons.mpr ⟨ha, fun c hc => List.all_eq_true.mp hall c hc⟩
  have hdigits : scanDigits 16 (a :: t') = some (digitsVal 16 (a :: t'), []) := by
    have htake : (a :: t' ++ []).takeWhile (isDigitOf 16) = a :: t' ++ [] :=
      List.takeWhile_append_of_pos hdigit
    have hdrop : (a :: t' ++ []).dropWhile (isDigitOf 16) = [] :=
      List.dropWhile_append_of_pos hdigit
    rw [List.append_nil] at htake hdrop
    rw [scanDigits, htake, hdrop]
  have hnumeral : scanNumeral 16 (a :: t') =
      some (digitsVal 16 (a :: t'), []) := by
    unfold scanNumeral
    split
    · rename_i heq
      rw [heq] at hlen
      simp only [List.length_cons] at hlen
      omega
    all_goals exact hdigits
  unfold scanSigned
  rw [List.dropWhile_cons_of_neg (by simp [hspace])]
  split
  · rename_i heq
    exact absurd (List.cons.inj heq).1 hminus
  · rename_i heq
    exact absurd (List.cons.inj heq).1 hplus
  · rw [hnumeral]
    rfl

/-- They are a byte. -/
theorem strtol_of_isHexByte (h : IsHexByte t) : strtol 16 t = some ((digitsVal 16 t : ℤ), []) := by
  have hlt := digitsVal_lt_of_isHexByte h
  have hmax : longMax = 2 ^ 63 - 1 := rfl
  rw [strtol, scanSigned_of_isHexByte h]
  simp only [Option.map_some, Bool.false_eq_true, if_false]
  rw [Int.min_eq_right (by omega)]

/-- The number that the groups of a MAC address stand for, the first one lowest. -/
def bytesVal : List CString → ℕ
  | [] => 0
  | t :: toks => CString.digitsVal 16 t + 256 * bytesVal toks

theorem bytesVal_lt (htoks : ∀ t ∈ toks, IsHexByte t) : bytesVal toks < 256 ^ toks.length := by
  induction toks with
  | nil => exact Nat.one_pos
  | cons t toks ih =>
    rw [List.forall_mem_cons] at htoks
    have hlt := digitsVal_lt_of_isHexByte htoks.1
    have hrest := ih htoks.2
    rw [bytesVal, List.length_cons, Nat.pow_succ]
    omega

/-- **The loop over bytes** puts each byte above those that it has seen. -/
theorem convertMacTokens_toNat {cnt : ℕ} {mac : BitVec 64} (htoks : ∀ t ∈ toks, IsHexByte t)
    (hcnt : cnt + toks.length ≤ 6) (hmac : mac.toNat < 2 ^ (cnt * 8)) :
    (convertMacTokens toks cnt mac).toNat = 2 ^ (cnt * 8) * bytesVal toks + mac.toNat := by
  induction toks generalizing cnt mac with
  | nil =>
    rw [convertMacTokens, bytesVal, Nat.mul_zero, Nat.zero_add]
  | cons t toks ih =>
    rw [List.length_cons] at hcnt
    rw [List.forall_mem_cons] at htoks
    have hv := digitsVal_lt_of_isHexByte htoks.1
    have hread := strtol_of_isHexByte htoks.1
    rw [bytesVal]
    generalize digitsVal 16 t = v at hv hread
    have hint : intOfLong (v : ℤ) = v := Int.bmod_eq_of_le (by omega) (by omega)
    have hpow : 2 ^ ((cnt + 1) * 8) = 2 ^ (cnt * 8) * 256 := by
      rw [Nat.succ_mul, Nat.pow_add]
    have hbound : v * 2 ^ (cnt * 8) < 2 ^ 64 := by
      calc v * 2 ^ (cnt * 8) < 256 * 2 ^ (cnt * 8) :=
            Nat.mul_lt_mul_of_pos_right hv (Nat.two_pow_pos _)
        _ = 2 ^ ((cnt + 1) * 8) := by rw [hpow, Nat.mul_comm]
        _ ≤ 2 ^ 64 := Nat.pow_le_pow_right (by omega) (by omega)
    have hshift : (BitVec.ofInt 64 (v : ℤ) <<< (cnt * 8)).toNat = 2 ^ (cnt * 8) * v := by
      rw [BitVec.toNat_shiftLeft, BitVec.ofInt_natCast, BitVec.toNat_ofNat,
        Nat.mod_eq_of_lt (show v < 2 ^ 64 by omega), Nat.shiftLeft_eq, Nat.mod_eq_of_lt hbound,
        Nat.mul_comm]
    have hor : (mac ||| (BitVec.ofInt 64 (v : ℤ) <<< (cnt * 8))).toNat =
        2 ^ (cnt * 8) * v + mac.toNat := by
      rw [BitVec.toNat_or, hshift, Nat.or_comm, Nat.two_pow_add_eq_or_of_lt hmac]
    rw [convertMacTokens, if_neg (by omega), hread]
    simp only [hint]
    have hlt : 2 ^ (cnt * 8) * v + mac.toNat < 2 ^ ((cnt + 1) * 8) := by
      rw [hpow]
      calc 2 ^ (cnt * 8) * v + mac.toNat < 2 ^ (cnt * 8) * v + 2 ^ (cnt * 8) :=
            Nat.add_lt_add_left hmac _
        _ = 2 ^ (cnt * 8) * (v + 1) := (Nat.mul_succ _ _).symm
        _ ≤ 2 ^ (cnt * 8) * 256 := Nat.mul_le_mul_left _ (by omega)
    rw [ih htoks.2 (by omega) (by rw [hor]; exact hlt), hor, hpow, Nat.mul_assoc, Nat.mul_add]
    omega

/-- **A MAC address is converted** to the number of its bytes. -/
theorem convertMac_of_tokens (hlen : str.length < strLenShort)
    (hcount : (tokens ':' str).length = 6) (htoks : ∀ t ∈ tokens ':' str, IsHexByte t) :
    bytesVal (tokens ':' str) < 2 ^ 48 ∧
      sppwkConvertMacStrToInt64 str = .ok (BitVec.ofNat 64 (bytesVal (tokens ':' str))) := by
  have hlt := bytesVal_lt htoks
  rw [hcount] at hlt
  have hval := convertMacTokens_toNat htoks (show 0 + _ ≤ 6 by omega)
    (show (0#64).toNat < 2 ^ (0 * 8) by decide)
  refine ⟨hlt, ?_⟩
  rw [sppwkConvertMacStrToInt64, if_neg (Nat.not_le.mpr hlen)]
  congr 1
  apply BitVec.eq_of_toNat_eq
  have hsmall : bytesVal (tokens ':' str) < 2 ^ 64 := by omega
  rw [hval, BitVec.toNat_ofNat, BitVec.toNat_ofNat, Nat.mod_eq_of_lt hsmall, Nat.zero_mul,
    Nat.pow_zero, Nat.one_mul, Nat.zero_mod, Nat.add_zero]

theorem IsMac.convert_eq (h : IsMac str) :
    bytesVal (tokens ':' str) < 2 ^ 48 ∧
      sppwkConvertMacStrToInt64 str = .ok (BitVec.ofNat 64 (bytesVal (tokens ':' str))) :=
  convertMac_of_tokens (by rw [h.1]; decide) h.2.1 fun t ht =>
    ⟨.inr (h.2.2 t ht).1, (h.2.2 t ht).2⟩

/-- What it is converted to is no error code. -/
theorem IsMac.convert (h : IsMac str) :
    ∃ mac, sppwkConvertMacStrToInt64 str = .ok mac ∧ mac.msb = false := by
  obtain ⟨hlt, heq⟩ := h.convert_eq
  refine ⟨_, heq, ?_⟩
  rw [BitVec.msb_eq_false_iff_two_mul_lt, BitVec.toNat_ofNat, Nat.mod_eq_of_lt (by omega)]
  omega

/-- Six groups of one or two hexadecimal digits, with colons between them. -/
def MacGroups (s : CString) (gs : List CString) : Prop :=
  gs.length = 6 ∧ (∀ g ∈ gs, IsHexByte g) ∧ s = [':'].intercalate gs

section Groups

variable {gs : List CString} (h : MacGroups str gs)

include h

theorem MacGroups.group {g : CString} (hg : g ∈ gs) : g ≠ [] ∧ ':' ∉ g := by
  obtain ⟨hlen, hall⟩ := h.2.1 g hg
  refine ⟨?_, fun hc => absurd (List.all_eq_true.mp hall _ hc) (by decide)⟩
  rintro rfl
  exact absurd hlen (by decide)

theorem MacGroups.tokens : tokens ':' str = gs := by
  rw [h.2.2, tokens_intercalate fun g hg => h.group hg]

theorem MacGroups.length_lt : str.length < 32 := by
  have hle := Shared.length_intercalate_le ':' (k := 3) fun g hg => by
    rcases (h.2.1 g hg).1 with hlen | hlen <;> omega
  rw [← h.2.2, h.1] at hle
  omega

theorem MacGroups.convert :
    bytesVal gs < 2 ^ 48 ∧ sppwkConvertMacStrToInt64 str = .ok (BitVec.ofNat 64 (bytesVal gs)) := by
  have hconvert := convertMac_of_tokens h.length_lt
  rw [h.tokens] at hconvert
  exact hconvert h.1 h.2.1

end Groups

end SoftPatchPanel.Worker
