import SoftPatchPanel.Primary.FlowParser

/-!
# The values of the fields of a flow item

`parse_item_common` reads an item of a pattern: clauses of three words, a field, one of `is`,
`spec`, `last`, `mask` and `prefix`, and a value.  The values are written into three objects, which
are allocated and cleared when a clause first needs them.  `FlowParser` has the loop, for items of
which it is known which objects exist; here the objects are there with their bytes, in the order in
which they stand in memory, and an item that is parsed here is parsed there
(`parseItem_of_parseItemCommon`).

The fields of `eth` do not overlap, and there the clauses mean what they say (`ethItem_of_clauses`).
In `vlan` four fields share the two bytes of the TCI.  `tci` is stored in the byte order of the
host, and the two fields above the VLAN id are put into the low bits of the first byte, where the
VLAN id has its high bits, so only an item without them is right (`vlanTci_iff`).
-/

namespace SoftPatchPanel.Primary
namespace FlowFields

open Worker (Fault)
open FlowParser (wholeNumber Kind DetailOps Conversions ethOpsList vlanOpsList parseCommonLoop
  parseRteFlowItemField parseRteFlowItemField_word valueAt_cons rounds At)

/-! ## Objects -/

/-- A byte. -/
abbrev Byte := BitVec 8

/-- An object in memory: the byte at each offset. -/
abbrev Obj := ℕ → Byte

/-- What `malloc_object` leaves. -/
def Obj.cleared : Obj := fun _ => 0

/-- Write some bytes from an offset on. -/
def Obj.store (o : Obj) (offset : ℕ) (bytes : List Byte) : Obj := fun i =>
  if offset ≤ i ∧ i < offset + bytes.length then bytes.getD (i - offset) 0 else o i

/-- The bytes from an offset on. -/
def Obj.read (o : Obj) (offset size : ℕ) : List Byte :=
  (List.range size).map fun j => o (offset + j)

theorem Obj.store_cons (o : Obj) (offset : ℕ) (b : Byte) (bytes : List Byte) :
    o.store offset (b :: bytes) = Obj.store (Function.update o offset b) (offset + 1) bytes := by
  funext i
  unfold Obj.store
  rw [List.length_cons]
  rcases Nat.lt_trichotomy i offset with hlt | rfl | hgt
  · rw [if_neg (by omega), if_neg (by omega), Function.update_of_ne (by omega)]
  · rw [if_pos (by omega), if_neg (by omega), Nat.sub_self, List.getD_cons_zero,
      Function.update_self]
  obtain ⟨k, rfl⟩ : ∃ k, i = offset + 1 + k := ⟨i - offset - 1, by omega⟩
  have hfst : offset + 1 + k - offset = k + 1 := by omega
  have hsnd : offset + 1 + k - (offset + 1) = k := by omega
  rw [hfst, hsnd, List.getD_cons_succ, Function.update_of_ne (by omega)]
  exact if_congr (by omega) rfl rfl

theorem Obj.store_nil (o : Obj) (offset : ℕ) : o.store offset [] = o := by
  funext i
  rw [Obj.store, if_neg (by rw [List.length_nil]; omega)]

theorem Obj.length_read (o : Obj) (offset size : ℕ) : (o.read offset size).length = size := by
  rw [Obj.read, List.length_map, List.length_range]

/-- What has been written is read. -/
theorem Obj.read_store_self (o : Obj) (offset : ℕ) (bytes : List Byte) :
    (o.store offset bytes).read offset bytes.length = bytes := by
  refine List.ext_getElem (Obj.length_read ..) fun j hj hj' => ?_
  simp only [Obj.read, List.getElem_map, List.getElem_range]
  rw [Obj.store, if_pos (by omega), Nat.add_sub_cancel_left, List.getD_eq_getElem?_getD,
    List.getElem?_eq_getElem hj', Option.getD_some]

variable {bytes : List Byte} {size n : ℕ} {value : CString} {rest : List CString}

/-- What is written elsewhere is not read. -/
theorem Obj.read_store_of_disjoint (o : Obj) {offset offset' : ℕ}
    (h : offset + size ≤ offset' ∨ offset' + bytes.length ≤ offset) :
    (o.store offset' bytes).read offset size = o.read offset size := by
  refine List.map_congr_left fun j hj => ?_
  rw [List.mem_range] at hj
  rw [Obj.store, if_neg (by omega)]

theorem Obj.read_cleared (offset size : ℕ) :
    Obj.cleared.read offset size = List.replicate size 0 := by
  rw [Obj.read]
  refine List.map_const'.trans ?_
  rw [List.length_range]
  rfl

/-! ## Values -/

/-- The byte that a group of an address is cut down to. -/
def groupByte (t : CString) : Option Byte := (wholeNumber 16 t).map (BitVec.ofNat 8)

/-- The loop of `str_to_rte_ether_addr` from the group with index `i` on. -/
def etherAddrLoop (offset : ℕ) : List CString → ℕ → Obj → Option Obj
  | [], _, o => some o
  | t :: ts, i, o =>
    if 6 ≤ i then none
    else
      match groupByte t with
      | none => none
      | some byte => etherAddrLoop offset ts (i + 1) (Function.update o (offset + i) byte)

/-- `str_to_rte_ether_addr`.  An address that does not fit into 32 characters is left without its
end, and `strtok` reads behind the buffer. -/
def strToRteEtherAddr (s : CString) (offset : ℕ) (o : Obj) : Except Fault (Option Obj) :=
  if s.length < 32 then .ok (etherAddrLoop offset (CString.tokens ':' s) 0 o)
  else .error .undefined

/-- A conversion that takes a number, and perhaps refuses it, and writes it. -/
def strToNumber (write : ℕ → Option (ℕ → Obj → Obj)) (s : CString) (offset : ℕ) (o : Obj) :
    Except Fault (Option Obj) :=
  .ok ((wholeNumber 0 s).bind fun n => (write n).map fun w => w offset o)

/-- The bytes of a 16-bit number on a little-endian host. -/
def le16 (n : ℕ) : List Byte := [BitVec.ofNat 8 n, BitVec.ofNat 8 (n / 256)]

/-- The bytes of a 32-bit number on a little-endian host. -/
def le32 (n : ℕ) : List Byte :=
  [BitVec.ofNat 8 n, BitVec.ofNat 8 (n / 256), BitVec.ofNat 8 (n / 65536),
    BitVec.ofNat 8 (n / 16777216)]

/-- The bytes of a 16-bit number in network order. -/
def be16 (n : ℕ) : List Byte := [BitVec.ofNat 8 (n / 256), BitVec.ofNat 8 n]

/-- Set bits of two bytes. -/
def Obj.orBytes (b₀ b₁ : Byte) (offset : ℕ) (o : Obj) : Obj :=
  o.store offset [o offset ||| b₀, o (offset + 1) ||| b₁]

/-- `str_to_tci`. -/
def strToTci := strToNumber fun n => some fun offset o => o.store offset (le16 n)

/-- `str_to_pcp`. -/
def strToPcp := strToNumber fun n =>
  if n % 2 ^ 8 > 0x7 then none else some fun offset o => o.store offset [BitVec.ofNat 8 n]

/-- `set_pcp_in_tci`. -/
def setPcpInTci := strToNumber fun n =>
  if n % 2 ^ 8 > 0x7 then none else some (Obj.orBytes (BitVec.ofNat 8 n <<< 1) 0)

/-- `set_dei_in_tci`. -/
def setDeiInTci := strToNumber fun n =>
  if n % 2 ^ 8 > 0x1 then none else some (Obj.orBytes (BitVec.ofNat 8 n) 0)

/-- `set_vid_in_tci`. -/
def setVidInTci := strToNumber fun n =>
  if n % 2 ^ 16 > 0x0fff then none
  else some (Obj.orBytes (BitVec.ofNat 8 (n % 2 ^ 16 / 256)) (BitVec.ofNat 8 n))

/-- `str_to_rte_be16_t`. -/
def strToRteBe16 := strToNumber fun n => some fun offset o => o.store offset (be16 n)

/-- `str_to_uint16_t`. -/
def strToUint16 := strToNumber fun n => some fun offset o => o.store offset (le16 n)

/-- `str_to_uint32_t`. -/
def strToUint32 := strToNumber fun n => some fun offset o => o.store offset (le32 n)

/-- **The loop over the groups of an address** writes one byte for each, if there are not too many
and each of them is a number. -/
theorem etherAddrLoop_eq (offset : ℕ) (ts : List CString) (i : ℕ) (o : Obj) :
    etherAddrLoop offset ts i o =
      if i + ts.length ≤ 6 ∨ ts = [] then
        (ts.mapM groupByte).map fun bytes => o.store (offset + i) bytes
      else none := by
  induction ts generalizing i o with
  | nil =>
    rw [if_pos (.inr rfl), etherAddrLoop, List.mapM_nil]
    exact congrArg some (Obj.store_nil o _).symm
  | cons t ts ih =>
    rw [etherAddrLoop, List.length_cons, List.mapM_cons]
    by_cases hi : 6 ≤ i
    · rw [if_pos hi, if_neg (by simp; omega)]
    rw [if_neg hi]
    cases groupByte t with
    | none =>
      simp only [bind, Option.bind, Option.map_none, ite_self]
    | some byte =>
      simp only [bind, Option.bind, pure]
      rw [ih]
      have hcond : i + 1 + ts.length ≤ 6 ∨ ts = [] ↔ i + (ts.length + 1) ≤ 6 ∨ t :: ts = [] := by
        rcases ts with _ | ⟨t', ts⟩
        all_goals
          simp
          omega
      refine if_congr hcond ?_ rfl
      cases ts.mapM groupByte with
      | none => rfl
      | some bytes => exact congrArg some (Obj.store_cons o (offset + i) byte bytes).symm

/-! ## Prefixes -/

/-- The inner loop over the bits of a byte: the byte, and what is left of the prefix. -/
def prefixBits : ℕ → Byte → ℕ → Byte → Byte × ℕ
  | 0, _, left, target => (target, left)
  | j + 1, bitmask, left, target =>
    if left = 0 then (target, left)
    else prefixBits j (bitmask >>> 1) (left - 1) (target ||| bitmask)

/-- The outer loop over the bytes of a field, which have been cleared. -/
def prefixBytes : ℕ → ℕ → List Byte
  | 0, _ => []
  | size + 1, left =>
    let r := prefixBits 8 0x80 left 0
    r.1 :: prefixBytes size r.2

/-- Some leading ones, byte by byte. -/
def leadingOnes (size n : ℕ) : List ℕ :=
  (List.range size).map fun i => 256 - 2 ^ (8 - (n - 8 * i))

/-- One byte: as many leading ones as are left. -/
theorem prefixBits_eight (left : ℕ) :
    (prefixBits 8 0x80 left 0).1.toNat = 256 - 2 ^ (8 - left) ∧
      (prefixBits 8 0x80 left 0).2 = left - 8 := by
  rcases Nat.lt_or_ge left 8 with hlt | hge
  · have hall : ∀ n < 8, (prefixBits 8 0x80 n 0).1.toNat = 256 - 2 ^ (8 - n) ∧
        (prefixBits 8 0x80 n 0).2 = n - 8 := by decide
    exact hall left hlt
  obtain ⟨k, rfl⟩ : ∃ k, left = k + 8 := ⟨left - 8, by omega⟩
  have hbits : prefixBits 8 0x80 (k + 8) 0 = (0xff, k) := by
    simp [prefixBits]
  have hzero : 8 - (k + 8) = 0 := by omega
  rw [hbits, hzero]
  exact ⟨rfl, (Nat.add_sub_cancel ..).symm⟩

/-- **A prefix.** -/
theorem toNat_prefixBytes (size left : ℕ) :
    (prefixBytes size left).map BitVec.toNat = leadingOnes size left := by
  induction size generalizing left with
  | zero => rfl
  | succ size ih =>
    obtain ⟨hbits, hleft⟩ := prefixBits_eight left
    rw [prefixBytes, List.map_cons, ih, hbits, hleft, leadingOnes, leadingOnes,
      List.range_succ_eq_map, List.map_cons, List.map_map]
    refine congrArg _ (List.map_congr_left fun i _ => ?_)
    have hi : left - 8 * (i + 1) = left - 8 - 8 * i := by omega
    simp only [Function.comp, hi]

theorem length_leadingOnes (size n : ℕ) : (leadingOnes size n).length = size := by
  rw [leadingOnes, List.length_map, List.length_range]

/-- The first bits are ones, and the others are zeros. -/
theorem testBit_leadingOnes {i j : ℕ} (hi : i < size) (hj : j < 8) :
    ((leadingOnes size n).getD i 0).testBit (7 - j) = decide (8 * i + j < n) := by
  have hall : ∀ m ≤ 8, ∀ j < 8, (256 - 2 ^ (8 - m)).testBit (7 - j) = decide (j < m) := by decide
  have hget : (leadingOnes size n).getD i 0 = 256 - 2 ^ (8 - min 8 (n - 8 * i)) := by
    rw [leadingOnes, List.getD_eq_getElem?_getD, List.getElem?_map, List.getElem?_range hi]
    have hmin : 8 - (n - 8 * i) = 8 - min 8 (n - 8 * i) := by omega
    simp only [Option.map_some, Option.getD_some, hmin]
  rw [hget, hall _ (by omega) j hj, decide_eq_decide]
  omega

/-! ## Items -/

/-- A conversion that writes into an object from an offset on. -/
abbrev Writer := CString → ℕ → Obj → Except Fault (Option Obj)

/-- The conversions with what they write. -/
def writers : Conversions Writer :=
  ⟨strToRteEtherAddr, strToTci, setPcpInTci, setDeiInTci, setVidInTci, strToRteBe16⟩

/-- `struct flow_detail_ops`. -/
abbrev FieldOps := DetailOps Writer

/-- The fields of `eth`. -/
def ethFields : List FieldOps := ethOpsList writers

/-- The fields of `vlan`. -/
def vlanFields : List FieldOps := vlanOpsList writers

/-- `spec`, `last` and `mask`; `none` is a null pointer. -/
structure Objs where
  spec : Option Obj
  last : Option Obj
  mask : Option Obj

/-- The three null pointers. -/
def Objs.null : Objs := ⟨none, none, none⟩

/-- The call of `parse_detail` with a part of an object, which is allocated if need be. -/
def parseInto (d : FieldOps) (value : CString) (o : Option Obj) : Except Fault (Option Obj) :=
  d.parseDetail value d.offset (o.getD .cleared)

/-- `memset` on a part of an object, which is allocated if need be. -/
def fill (d : FieldOps) (bytes : List Byte) (o : Option Obj) : Option Obj :=
  some ((o.getD .cleared).store d.offset bytes)

/-- What `parse_rte_flow_item_field` does with a value; `none` is an error. -/
def store (d : FieldOps) (k : Kind) (value : CString) (o : Objs) : Except Fault (Option Objs) :=
  match k with
  | .isValue => do
    let spec ← parseInto d value o.spec
    .ok (spec.map fun spec => ⟨some spec, o.last, fill d (List.replicate d.size 0xff) o.mask⟩)
  | .specValue => do
    let spec ← parseInto d value o.spec
    .ok (spec.map fun spec => ⟨some spec, o.last, o.mask⟩)
  | .lastValue => do
    let last ← parseInto d value o.last
    .ok (last.map fun last => ⟨o.spec, some last, o.mask⟩)
  | .maskValue => do
    let mask ← parseInto d value o.mask
    .ok (mask.map fun mask => ⟨o.spec, o.last, some mask⟩)
  | .leading =>
    .ok ((wholeNumber 10 value).bind fun n =>
      if n % 2 ^ 32 > d.size * 8 then none
      else some ⟨o.spec, o.last, fill d (prefixBytes d.size (n % 2 ^ 32)) o.mask⟩)

/-- `parse_item_common`, on the tokens behind the word for the item: what is left in the end, and
the objects. -/
def parseItemCommon (details : List FieldOps) (toks : List CString) :
    Except Fault (Option (List CString × Objs)) := do
  let r ← FlowParser.parseItemCommon toks store details 0 .null
  .ok (r.map fun r => (toks.drop r.1, r.2))

section Clauses

variable {details : List FieldOps} {toks : List CString} {index fuel : ℕ} {o o' : Objs}
  {C : Type} {ops : C → FieldOps} {kind : C → Kind} {text : C → CString} {I : List C → Objs → Prop}
  {cs done : List C}

/-- The loop of `parse_item_common`. -/
def parseItemLoop (toks : List CString) (details : List FieldOps) :
    ℕ → ℕ → Objs → Except Fault (Option (ℕ × Objs)) :=
  parseCommonLoop toks details fun d => parseRteFlowItemField toks (store d)

/-- At the end of an item, or of the tokens, the loop is left. -/
theorem parseItemLoop_end (hrest : rest = [] ∨ rest.head? = some "/".toList)
    (h : At toks index rest) :
    parseItemLoop toks details (fuel + 1) index o = .ok (some (index, o)) := by
  rw [parseItemLoop, parseCommonLoop, h.tokenAt]
  rcases hrest with rfl | hslash
  · rfl
  · rw [hslash]
    rfl

/-- A clause that is accepted is followed by the others. -/
theorem parseItemLoop_clause {d : FieldOps} {k : Kind}
    (hd : details.find? (·.token = d.token) = some d ∧ d.flgValue = true ∧ d.token ≠ "/")
    (h : At toks index (d.token :: k.word :: value :: rest))
    (hstore : store d k value o = .ok (some o')) :
    parseItemLoop toks details (fuel + 1) index o =
      parseItemLoop toks details fuel (index + 3) o' := by
  obtain ⟨hd, hflag, hslash⟩ := hd
  rw [parseItemLoop, parseCommonLoop, h.tokenAt]
  simp only [List.head?_cons, bind, Except.bind, if_neg hslash, hd, if_pos hflag,
    parseRteFlowItemField_word h.next, valueAt_cons h.next.next hstore]
  rfl

/-- **The loop over clauses** that are all accepted keeps what each of them preserves. -/
theorem parseItemLoop_clauses
    (hops : ∀ c ∈ cs, details.find? (·.token = (ops c).token) = some (ops c) ∧
      (ops c).flgValue = true ∧ (ops c).token ≠ "/")
    (hstep : ∀ c ∈ cs, ∀ done o, I done o →
      ∃ o', store (ops c) (kind c) (text c) o = .ok (some o') ∧ I (done ++ [c]) o')
    (hrest : rest = [] ∨ rest.head? = some "/".toList) (ho : I done o)
    (h : At toks index (cs.flatMap (fun c => [(ops c).token, (kind c).word, text c]) ++ rest))
    (hfuel : cs.length < fuel) :
    ∃ r, parseItemLoop toks details fuel index o = .ok (some r) ∧ At toks r.1 rest ∧
      I (done ++ cs) r.2 := by
  obtain ⟨fuel, rfl⟩ : ∃ n, fuel = n + 1 := ⟨fuel - 1, by omega⟩
  induction cs generalizing index o done fuel with
  | nil =>
    rw [List.append_nil]
    exact ⟨(index, o), parseItemLoop_end hrest h, h, ho⟩
  | cons c cs ih =>
    rw [List.forall_mem_cons] at hops hstep
    rw [List.length_cons] at hfuel
    obtain ⟨o', hstore, ho'⟩ := hstep.1 done o ho
    obtain ⟨fuel, rfl⟩ : ∃ n, fuel = n + 1 := ⟨fuel - 1, by omega⟩
    obtain ⟨r, hloop, hat, hr⟩ := ih hops.2 hstep.2 ho' h.next.next.next fuel (by omega)
    refine ⟨r, ?_, hat, ?_⟩
    · rw [← hloop]
      exact parseItemLoop_clause hops.1 h hstore
    · rwa [List.append_assoc] at hr

theorem parseItemCommon_clauses (details : List FieldOps) (ops : C → FieldOps) (kind : C → Kind)
    (text : C → CString) (I : List C → Objs → Prop)
    (hops : ∀ c ∈ cs, details.find? (·.token = (ops c).token) = some (ops c) ∧
      (ops c).flgValue = true ∧ (ops c).token ≠ "/")
    (hstep : ∀ c ∈ cs, ∀ done o, I done o →
      ∃ o', store (ops c) (kind c) (text c) o = .ok (some o') ∧ I (done ++ [c]) o')
    (hrest : rest = [] ∨ rest.head? = some "/".toList) (hnull : I [] .null) :
    ∃ o, parseItemCommon details
        (cs.flatMap (fun c => [(ops c).token, (kind c).word, text c]) ++ rest) =
      .ok (some (rest, o)) ∧ I cs o := by
  have hlen (l : List C) :
      l.length ≤ (l.flatMap fun c => [(ops c).token, (kind c).word, text c]).length := by
    induction l with
    | nil => exact Nat.le_refl _
    | cons c l ih =>
      simp only [List.flatMap_cons, List.length_append, List.length_cons, List.length_nil]
      omega
  have hfuel : cs.length <
      rounds (cs.flatMap (fun c => [(ops c).token, (kind c).word, text c]) ++ rest) := by
    rw [rounds, List.length_append]
    have := hlen cs
    omega
  obtain ⟨⟨index, o⟩, hloop, hat, ho⟩ :=
    parseItemLoop_clauses hops hstep hrest hnull ⟨Nat.zero_le _, rfl⟩ hfuel
  refine ⟨o, ?_, ho⟩
  rw [parseItemCommon, FlowParser.parseItemCommon, ← parseItemLoop, hloop]
  exact congrArg (fun left => Except.ok (some (left, o))) hat.2

end Clauses

/-! ## Objects and pointers -/

section Pointers

variable {σ τ : Type} {φ : σ → τ} {s : σ} {toks : List CString} {index fuel : ℕ}

theorem valueAt_map {put : CString → σ → Except Fault (Option σ)}
    {put' : CString → τ → Except Fault (Option τ)} {r : Option (ℕ × σ)}
    (hput : ∀ v r, put v s = .ok r → put' v (φ s) = .ok (r.map φ))
    (h : FlowParser.valueAt toks put index s = .ok r) :
    FlowParser.valueAt toks put' index (φ s) = .ok (r.map (Prod.map id φ)) := by
  obtain ⟨token, htoken, h⟩ := Transition.bind_eq_ok.mp h
  rw [FlowParser.valueAt, htoken]
  cases token with
  | none => cases h
  | some v =>
    obtain ⟨o, ho, h⟩ := Transition.bind_eq_ok.mp h
    cases h
    simp only [bind, Except.bind, hput v o ho]
    cases o <;> rfl

theorem parseRteFlowItemField_map {put : Kind → CString → σ → Except Fault (Option σ)}
    {put' : Kind → CString → τ → Except Fault (Option τ)} {r : Option (ℕ × σ)}
    (hput : ∀ k v r, put k v s = .ok r → put' k v (φ s) = .ok (r.map φ))
    (h : parseRteFlowItemField toks put index s = .ok r) :
    parseRteFlowItemField toks put' index (φ s) = .ok (r.map (Prod.map id φ)) := by
  unfold parseRteFlowItemField at h ⊢
  obtain ⟨token, htoken, h⟩ := Transition.bind_eq_ok.mp h
  rw [htoken]
  cases token with
  | none => cases h
  | some word =>
    simp only [FlowParser.strcmp, bind, Except.bind, decide_eq_true_eq] at h ⊢
    split_ifs at h ⊢
    all_goals first | exact valueAt_map (hput _) h | (cases h; rfl)

/-- Two tables with entries that do the same to what they are given. -/
theorem parseCommonLoop_map {V W : Type} {details : List (DetailOps V)}
    {details' : List (DetailOps W)} {value : DetailOps V → ℕ → σ → Except Fault (Option (ℕ × σ))}
    {value' : DetailOps W → ℕ → τ → Except Fault (Option (ℕ × τ))} {r : Option (ℕ × σ)}
    (hdetails : List.Forall₂ (fun d e => d.token = e.token ∧ d.flgValue = e.flgValue ∧
      ∀ i s r, value d i s = .ok r → value' e i (φ s) = .ok (r.map (Prod.map id φ))) details details')
    (h : parseCommonLoop toks details value fuel index s = .ok r) :
    parseCommonLoop toks details' value' fuel index (φ s) = .ok (r.map (Prod.map id φ)) := by
  have hfind (token : CString) :
      (details.find? (·.token = token) = none ∧ details'.find? (·.token = token) = none) ∨
      ∃ d e, details.find? (·.token = token) = some d ∧
        details'.find? (·.token = token) = some e ∧ d.flgValue = e.flgValue ∧
        ∀ i s r, value d i s = .ok r → value' e i (φ s) = .ok (r.map (Prod.map id φ)) := by
    clear h
    induction hdetails with
    | nil => exact .inl ⟨rfl, rfl⟩
    | cons hde _ ih =>
      obtain ⟨htoken, hrest⟩ := hde
      simp only [List.find?_cons, ← htoken]
      split
      · exact .inr ⟨_, _, rfl, rfl, hrest⟩
      · exact ih
  induction fuel generalizing index s with
  | zero => cases h
  | succ fuel ih =>
    unfold parseCommonLoop at h ⊢
    obtain ⟨token, htoken, h⟩ := Transition.bind_eq_ok.mp h
    rw [htoken]
    cases token with
    | none =>
      cases h
      rfl
    | some token =>
      simp only [bind, Except.bind] at h ⊢
      split_ifs at h ⊢
      · cases h
        rfl
      rcases hfind token with ⟨hd, he⟩ | ⟨d, e, hd, he, hflag, hvalue⟩
      · rw [hd] at h
        cases h
        rw [he]
        rfl
      rw [hd] at h
      rw [he]
      simp only [← hflag] at h ⊢
      split_ifs at h ⊢
      · cases hr : value d (index + 1) s with
        | error f =>
          rw [hr] at h
          cases h
        | ok o =>
          rw [hr] at h
          rw [hvalue _ _ _ hr]
          cases o with
          | none =>
            cases h
            rfl
          | some b => exact ih h
      · exact ih h

end Pointers

/-- The pointers of an item with the given objects. -/
def Objs.pointers (type : FlowParser.ItemType) (o : Objs) : FlowParser.FlowItem :=
  ⟨type, o.spec.isSome, o.last.isSome, o.mask.isSome⟩

/-- A conversion writes something exactly if the check accepts the value. -/
def Accepts (env : FlowParser.Env) (write : Writer) (check : FlowParser.Check) : Prop :=
  ∀ value offset o r, write value offset o = .ok r → check env value = r.isSome

variable {env : FlowParser.Env}

theorem accepts_strToNumber {write : ℕ → Option (ℕ → Obj → Obj)} {bits bound : ℕ}
    (h : ∀ n, (write n).isSome = decide (n % 2 ^ bits ≤ bound)) :
    Accepts env (strToNumber write) (FlowParser.strToBounded bits bound) := by
  rintro value offset o r hr
  cases hr
  rw [FlowParser.strToBounded]
  cases wholeNumber 0 value with
  | none => rfl
  | some n => exact (h n).symm.trans (Option.isSome_map ..).symm

theorem accepts_strToRteEtherAddr : Accepts env strToRteEtherAddr FlowParser.strToRteEtherAddr := by
  rintro value offset o r hr
  unfold strToRteEtherAddr at hr
  split at hr
  · rename_i hlen
    cases hr
    have hall (ts : List CString) :
        (ts.mapM groupByte).isSome = ts.all fun t => (wholeNumber 16 t).isSome := by
      induction ts with
      | nil => rfl
      | cons t ts ih =>
        rw [List.mapM_cons, List.all_cons, ← ih, groupByte]
        cases wholeNumber 16 t with
        | none => rfl
        | some n => cases ts.mapM groupByte <;> rfl
    rw [FlowParser.strToRteEtherAddr, if_pos hlen, etherAddrLoop_eq, ← hall, Nat.zero_add]
    split
    · rename_i hsix
      have hle : (CString.tokens ':' value).length ≤ 6 :=
        hsix.elim id fun hnil => by rw [hnil]; decide
      rw [decide_eq_true hle, Bool.true_and, Option.isSome_map]
    · rename_i hsix
      rw [decide_eq_false fun hle => hsix (.inl hle)]
      rfl
  · cases hr

/-- An entry stores a value exactly if the entry with the check allocates for it. -/
theorem allocate_of_store {d : FieldOps} {e : DetailOps FlowParser.Check} (hsize : d.size = e.size)
    (h : Accepts env d.parseDetail e.parseDetail) (type : FlowParser.ItemType) (k : Kind)
    (v : CString) (o : Objs) (r : Option Objs) (hr : store d k v o = .ok r) :
    e.allocate env k v (o.pointers type) = .ok (r.map (Objs.pointers type)) := by
  cases k with
  | leading =>
    cases hr
    simp only [DetailOps.allocate, FlowParser.prefixFits, ← hsize, if_true]
    cases wholeNumber 10 v with
    | none => rfl
    | some n =>
      rw [Option.any_some, Option.bind_some]
      by_cases hle : n % 2 ^ 32 ≤ d.size * 8
      · rw [decide_eq_true hle, if_neg (Nat.not_lt.mpr hle)]
        rfl
      · rw [decide_eq_false hle, if_pos (Nat.not_le.mp hle)]
        rfl
  | isValue | specValue | lastValue | maskValue =>
    obtain ⟨obj, hobj, hr⟩ := Transition.bind_eq_ok.mp hr
    cases hr
    have hcheck := h _ _ _ _ hobj
    simp only [DetailOps.allocate, reduceCtorEq, if_false, hcheck]
    cases obj <;> rfl

/-- **Both models** parse the same items: if the objects are known in the end, then their pointers
are what the model with pointers has. -/
theorem parseItem_of_parseItemCommon (type : FlowParser.ItemType) (toks : List CString) (index : ℕ)
    (o : Objs) (r : Option (ℕ × Objs)) :
    (FlowParser.parseItemCommon toks store ethFields index o = .ok r →
      FlowParser.parseItemCommon toks (DetailOps.allocate env) (ethOpsList FlowParser.checks) index
        (o.pointers type) = .ok (r.map (Prod.map id (Objs.pointers type)))) ∧
    (FlowParser.parseItemCommon toks store vlanFields index o = .ok r →
      FlowParser.parseItemCommon toks (DetailOps.allocate env) (vlanOpsList FlowParser.checks) index
        (o.pointers type) = .ok (r.map (Prod.map id (Objs.pointers type)))) := by
  have hrow (token : CString) (offset size : ℕ) {write : Writer} {check : FlowParser.Check}
      (h : Accepts env write check) (i : ℕ) (s : Objs) (r : Option (ℕ × Objs))
      (hr : parseRteFlowItemField toks (store ⟨token, offset, size, true, write⟩) i s = .ok r) :
      parseRteFlowItemField toks (DetailOps.allocate env ⟨token, offset, size, true, check⟩) i
        (s.pointers type) = .ok (r.map (Prod.map id (Objs.pointers type))) :=
    parseRteFlowItemField_map (fun k v r => allocate_of_store rfl h type k v s r) hr
  have hbe16 : Accepts env strToRteBe16 FlowParser.strToRteBe16 :=
    accepts_strToNumber fun n => by simp; omega
  refine ⟨parseCommonLoop_map ?_, parseCommonLoop_map ?_⟩
  · exact .cons ⟨rfl, rfl, hrow _ _ _ accepts_strToRteEtherAddr⟩
      (.cons ⟨rfl, rfl, hrow _ _ _ accepts_strToRteEtherAddr⟩ (.cons ⟨rfl, rfl, hrow _ _ _ hbe16⟩ .nil))
  · refine .cons ⟨rfl, rfl, hrow _ _ _ (accepts_strToNumber fun n => ?_)⟩
      (.cons ⟨rfl, rfl, hrow _ _ _ (accepts_strToNumber fun n => ?_)⟩
        (.cons ⟨rfl, rfl, hrow _ _ _ (accepts_strToNumber fun n => ?_)⟩
          (.cons ⟨rfl, rfl, hrow _ _ _ (accepts_strToNumber fun n => ?_)⟩
            (.cons ⟨rfl, rfl, hrow _ _ _ hbe16⟩ .nil))))
    all_goals
      simp only [apply_ite Option.isSome, Option.isSome_some, Option.isSome_none]
    · exact (decide_eq_true (by omega)).symm
    all_goals
      split
      · exact (decide_eq_false (by omega)).symm
      · exact (decide_eq_true (by omega)).symm

/-! ## The clauses of an item -/

/-- The fields of `struct rte_flow_item_eth`. -/
inductive EthField where
  | dst | src | type
  deriving DecidableEq

/-- Their entries in the table. -/
def EthField.ops : EthField → FieldOps
  | .dst => ⟨"dst", 0, 6, true, strToRteEtherAddr⟩
  | .src => ⟨"src", 6, 6, true, strToRteEtherAddr⟩
  | .type => ⟨"type", 12, 2, true, strToRteBe16⟩

/-- A clause of an item `eth`. -/
structure Clause where
  field : EthField
  kind : Kind
  value : CString

/-- The tokens of a clause. -/
def Clause.tokens (c : Clause) : List CString := [c.field.ops.token, c.kind.word, c.value]

/-- The number that a whole text stands for, if an `unsigned long` can hold its magnitude. -/
def number (base : ℕ) (t : CString) : Option ℤ :=
  match CString.value base t with
  | some (n, []) => if n.natAbs < 2 ^ 64 then some n else none
  | _ => none

/-- The bytes that a value stands for: the number of each group of an address, and the two bytes of
a number with the upper one first. -/
def fieldBytes (f : EthField) (value : CString) : Option (List ℕ) :=
  match f with
  | .dst | .src =>
    if value.length < 32 ∧ (CString.tokens ':' value).length = 6 then
      ((CString.tokens ':' value).mapM (number 16)).map fun ns => ns.map fun n => (n % 256).toNat
    else none
  | .type => (number 0 value).map fun n => [(n / 256 % 256).toNat, (n % 256).toNat]

/-- The number of leading ones that a text stands for, if the field has so many bits. -/
def prefixLength (f : EthField) (value : CString) : Option ℕ :=
  match CString.value 10 value with
  | some (n, []) => if 0 ≤ n ∧ n ≤ 8 * f.ops.size then some n.toNat else none
  | _ => none

/-- The value of the clause can be parsed: an address has six groups, and a prefix is not longer
than the field. -/
def Clause.Parseable (c : Clause) : Prop :=
  match c.kind with
  | .leading => (prefixLength c.field c.value).isSome
  | _ => (fieldBytes c.field c.value).isSome

/-- The field of an object, with the bytes of the last clause that writes it, or cleared. -/
def lastWritten (writes : Clause → Option (List ℕ)) (cs : List Clause) (f : EthField) : List ℕ :=
  ((cs.filter (·.field = f)).filterMap writes).getLast?.getD (List.replicate f.ops.size 0)

/-- What a clause writes into `spec`. -/
def Clause.specBytes (c : Clause) : Option (List ℕ) :=
  match c.kind with
  | .isValue | .specValue => fieldBytes c.field c.value
  | _ => none

/-- What a clause writes into `last`. -/
def Clause.lastBytes (c : Clause) : Option (List ℕ) :=
  match c.kind with
  | .lastValue => fieldBytes c.field c.value
  | _ => none

/-- What a clause writes into `mask`. -/
def Clause.maskBytes (c : Clause) : Option (List ℕ) :=
  match c.kind with
  | .isValue => some (List.replicate c.field.ops.size 255)
  | .maskValue => fieldBytes c.field c.value
  | .leading => (prefixLength c.field c.value).map (leadingOnes c.field.ops.size)
  | _ => none

/-- An object holds what some clauses have written: it is null if none of them writes it, and
otherwise each field has the bytes of the last clause that does. -/
def Written (writes : Clause → Option (List ℕ)) (cs : List Clause) (o : Option Obj) : Prop :=
  (o = none ↔ cs.filterMap writes = []) ∧ ∀ obj, o = some obj → ∀ f : EthField,
    (obj.read f.ops.offset f.ops.size).map BitVec.toNat = lastWritten writes cs f

/-- Write a field of an object if there is something to write. -/
def EthField.write (f : EthField) (bytes : Option (List ℕ)) (o : Option Obj) : Option Obj :=
  match bytes with
  | none => o
  | some bytes => fill f.ops (bytes.map (BitVec.ofNat 8)) o

/-- Numbers that fill a field. -/
def EthField.Fills (f : EthField) (ns : List ℕ) : Prop :=
  ns.length = f.ops.size ∧ ∀ n ∈ ns, n < 256

theorem map_toNat_ofNat {ns : List ℕ} (h : ∀ n ∈ ns, n < 256) :
    (ns.map (BitVec.ofNat 8)).map BitVec.toNat = ns := by
  rw [List.map_map]
  refine (List.map_congr_left fun n hn => ?_).trans (List.map_id ns)
  exact (BitVec.toNat_ofNat n 8).trans (Nat.mod_eq_of_lt (h n hn))

/-! ### Values and their bytes -/

theorem wholeNumber_of_number {base : ℕ} {n : ℤ} (h : number base value = some n) :
    ∃ k : ℕ, wholeNumber base value = some k ∧ (k : ℤ) = n % 2 ^ 64 := by
  have hmax : CString.ulongMax = 2 ^ 64 - 1 := rfl
  unfold number at h
  split at h
  · rename_i m hval
    split at h
    · rename_i hlt
      obtain rfl := Option.some.inj h
      refine ⟨CString.ulongOfValue m, ?_, ?_⟩
      · rw [wholeNumber, CString.strtoul_eq_value, hval]
        rfl
      · rw [CString.ulongOfValue, if_neg (by omega)]
        omega
    · cases h
  · cases h

theorem groupByte_of_number {n : ℤ} (h : number 16 value = some n) :
    groupByte value = some (BitVec.ofNat 8 (n % 256).toNat) := by
  obtain ⟨k, hk, hmod⟩ := wholeNumber_of_number h
  rw [groupByte, hk]
  refine congrArg some (BitVec.eq_of_toNat_eq ?_)
  rw [BitVec.toNat_ofNat, BitVec.toNat_ofNat]
  omega

/-- The groups of an address, converted one by one. -/
theorem mapM_groupByte {ts : List CString} {ns : List ℤ} (h : ts.mapM (number 16) = some ns) :
    ns.length = ts.length ∧
      ts.mapM groupByte = some (ns.map fun n => BitVec.ofNat 8 (n % 256).toNat) := by
  induction ts generalizing ns with
  | nil =>
    cases h
    exact ⟨rfl, rfl⟩
  | cons t ts ih =>
    rw [List.mapM_cons] at h
    obtain ⟨n, hn, h⟩ := Option.bind_eq_some_iff.mp h
    obtain ⟨ns', hns, h⟩ := Option.bind_eq_some_iff.mp h
    cases h
    obtain ⟨hlen, hbytes⟩ := ih hns
    rw [List.length_cons, List.length_cons, hlen, List.mapM_cons, groupByte_of_number hn, hbytes]
    exact ⟨rfl, rfl⟩

theorem be16_of_number {n : ℤ} (h : number 0 value = some n) :
    ∃ k, wholeNumber 0 value = some k ∧
      be16 k = [(n / 256 % 256).toNat, (n % 256).toNat].map (BitVec.ofNat 8) := by
  obtain ⟨k, hk, hmod⟩ := wholeNumber_of_number h
  refine ⟨k, hk, ?_⟩
  have hhigh : BitVec.ofNat 8 (k / 256) = BitVec.ofNat 8 (n / 256 % 256).toNat := by
    apply BitVec.eq_of_toNat_eq
    rw [BitVec.toNat_ofNat, BitVec.toNat_ofNat]
    omega
  have hlow : BitVec.ofNat 8 k = BitVec.ofNat 8 (n % 256).toNat := by
    apply BitVec.eq_of_toNat_eq
    rw [BitVec.toNat_ofNat, BitVec.toNat_ofNat]
    omega
  rw [be16, hhigh, hlow]
  rfl

variable {f : EthField} {ns : List ℕ}

/-- **A value that can be parsed** is stored in its field. -/
theorem parseInto_of_fieldBytes (h : fieldBytes f value = some ns) (o : Option Obj) :
    f.Fills ns ∧ parseInto f.ops value o = .ok (fill f.ops (ns.map (BitVec.ofNat 8)) o) := by
  have haddr (offset : ℕ) (hb : fieldBytes .dst value = some ns) :
      EthField.dst.Fills ns ∧ strToRteEtherAddr value offset (o.getD .cleared) =
        .ok (some ((o.getD .cleared).store offset (ns.map (BitVec.ofNat 8)))) := by
    simp only [fieldBytes] at hb
    split at hb
    · rename_i hsix
      obtain ⟨zs, hzs, rfl⟩ := Option.map_eq_some_iff.mp hb
      obtain ⟨hlen, hbytes⟩ := mapM_groupByte hzs
      refine ⟨⟨by rw [List.length_map, hlen, hsix.2]; rfl, fun n hn => ?_⟩, ?_⟩
      · obtain ⟨z, -, rfl⟩ := List.mem_map.mp hn
        omega
      · rw [strToRteEtherAddr, if_pos hsix.1, etherAddrLoop_eq, if_pos (.inl (by omega)), hbytes,
          List.map_map]
        rfl
    · cases hb
  cases f with
  | dst => exact haddr 0 h
  | src => exact haddr 6 h
  | type =>
    obtain ⟨n, hn, rfl⟩ := Option.map_eq_some_iff.mp h
    obtain ⟨k, hk, hbytes⟩ := be16_of_number hn
    refine ⟨⟨rfl, fun b hb => ?_⟩, ?_⟩
    · simp only [List.mem_cons, List.not_mem_nil, or_false] at hb
      omega
    · show strToNumber _ value 12 (o.getD .cleared) = _
      rw [strToNumber, hk, Option.bind_some, Option.map_some, hbytes]
      rfl

theorem wholeNumber_of_prefixLength (h : prefixLength f value = some n) :
    wholeNumber 10 value = some n ∧ n ≤ 8 * f.ops.size := by
  unfold prefixLength at h
  split at h
  · rename_i k hk
    split at h
    · rename_i hrange
      obtain rfl := Option.some.inj h
      have hsize : f.ops.size ≤ 6 := by cases f <;> decide
      have hcast : ((k.toNat : ℕ) : ℤ) = k := Int.toNat_of_nonneg hrange.1
      rw [← hcast] at hk
      have hread := CString.strtoul_of_value hk (by omega)
      refine ⟨?_, by omega⟩
      rw [wholeNumber, hread]
    · cases h
  · cases h

variable {c : Clause}

/-- **One clause** writes its field into the objects that it is for. -/
theorem store_of_parseable (hc : c.Parseable) (o : Objs) :
    store c.field.ops c.kind c.value o =
      .ok (some ⟨c.field.write c.specBytes o.spec, c.field.write c.lastBytes o.last,
        c.field.write c.maskBytes o.mask⟩) := by
  obtain ⟨f, kind, value⟩ := c
  cases kind with
  | leading =>
    obtain ⟨n, hn⟩ := Option.isSome_iff_exists.mp hc
    have hn : prefixLength f value = some n := hn
    obtain ⟨hread, hle⟩ := wholeNumber_of_prefixLength hn
    have hsize : f.ops.size ≤ 6 := by cases f <;> decide
    have hmod : n % 2 ^ 32 = n := Nat.mod_eq_of_lt (by omega)
    have hbytes : (leadingOnes f.ops.size n).map (BitVec.ofNat 8) = prefixBytes f.ops.size n := by
      rw [← toNat_prefixBytes, List.map_map]
      exact (List.map_congr_left fun b _ => by simp).trans (List.map_id _)
    simp only [store, Clause.specBytes, Clause.lastBytes, Clause.maskBytes, EthField.write, hn,
      Option.map_some, hbytes]
    rw [hread, Option.bind_some, hmod, if_neg (by omega)]
  | isValue | specValue | lastValue | maskValue =>
    obtain ⟨ns, hns⟩ := Option.isSome_iff_exists.mp hc
    simp only [store, Clause.specBytes, Clause.lastBytes, Clause.maskBytes, EthField.write, hns,
      (parseInto_of_fieldBytes hns _).2, List.map_replicate]
    rfl

theorem fills_leadingOnes (f : EthField) (n : ℕ) : f.Fills (leadingOnes f.ops.size n) := by
  refine ⟨length_leadingOnes _ n, fun b hb => ?_⟩
  obtain ⟨i, -, rfl⟩ := List.mem_map.mp hb
  have hpos := Nat.two_pow_pos (8 - (n - 8 * i))
  omega

/-- What a clause writes fills its field. -/
theorem Clause.fills (h : c.specBytes = some ns ∨ c.lastBytes = some ns ∨ c.maskBytes = some ns) :
    c.field.Fills ns := by
  obtain ⟨f, kind, value⟩ := c
  have hbytes (hb : fieldBytes f value = some ns) : f.Fills ns :=
    (parseInto_of_fieldBytes hb none).1
  cases kind with
  | isValue =>
    rcases h with h | h | h
    · exact hbytes h
    · cases h
    · obtain rfl := Option.some.inj h
      refine ⟨List.length_replicate, fun n hn => ?_⟩
      rw [List.eq_of_mem_replicate hn]
      decide
  | specValue | lastValue | maskValue =>
    rcases h with h | h | h
    all_goals first | exact hbytes h | cases h
  | leading =>
    rcases h with h | h | h
    · cases h
    · cases h
    · obtain ⟨n, -, rfl⟩ := Option.map_eq_some_iff.mp h
      exact fills_leadingOnes f n

/-- The fields do not overlap. -/
theorem EthField.disjoint {g : EthField} (h : f ≠ g) :
    f.ops.offset + f.ops.size ≤ g.ops.offset ∨ g.ops.offset + g.ops.size ≤ f.ops.offset := by
  cases f <;> cases g <;> first | exact absurd rfl h | decide

section Written

variable {writes : Clause → Option (List ℕ)} {cs : List Clause} {c : Clause} {o : Option Obj}

theorem lastWritten_append (f : EthField) :
    lastWritten writes (cs ++ [c]) f =
      if c.field = f then (writes c).getD (lastWritten writes cs f) else lastWritten writes cs f := by
  unfold lastWritten
  rw [List.filter_append, List.filterMap_append]
  by_cases hf : c.field = f
  · have hone : [c].filter (·.field = f) = [c] := by simp [hf]
    rw [hone, if_pos hf]
    cases hw : writes c with
    | none =>
      rw [List.filterMap_cons_none hw, List.filterMap_nil, List.append_nil]
      rfl
    | some bytes =>
      rw [List.filterMap_cons_some hw, List.filterMap_nil, List.getLast?_concat]
      rfl
  · have hno : [c].filter (·.field = f) = [] := by simp [hf]
    rw [hno, List.filterMap_nil, List.append_nil, if_neg hf]

/-- **One more clause.** -/
theorem Written.snoc (h : Written writes cs o)
    (hfills : ∀ {ns}, writes c = some ns → c.field.Fills ns) :
    Written writes (cs ++ [c]) (c.field.write (writes c) o) := by
  cases hw : writes c with
  | none =>
    refine ⟨?_, fun obj hobj f => ?_⟩
    · rw [List.filterMap_append, List.filterMap_cons_none hw, List.filterMap_nil, List.append_nil]
      exact h.1
    · rw [lastWritten_append, hw, Option.getD_none, ite_self]
      exact h.2 obj hobj f
  | some bytes =>
    obtain ⟨hsize, hlt⟩ := hfills hw
    rw [← List.length_map (BitVec.ofNat 8)] at hsize
    refine ⟨?_, fun obj hobj f => ?_⟩
    · rw [List.filterMap_append, List.filterMap_cons_some hw]
      constructor
      · intro hnone
        cases hnone
      · intro hnil
        simp at hnil
    obtain rfl := Option.some.inj hobj
    rw [lastWritten_append, hw, Option.getD_some]
    by_cases hf : c.field = f
    · rw [if_pos hf, ← hf, ← hsize, Obj.read_store_self, map_toNat_ofNat hlt]
    rw [if_neg hf, Obj.read_store_of_disjoint _ (by
      rw [hsize]
      exact EthField.disjoint (Ne.symm hf))]
    cases o with
    | some obj => exact h.2 obj rfl f
    | none =>
      -- nothing has been written yet
      have hnil := h.1.mp rfl
      have hempty : (cs.filter (·.field = f)).filterMap writes = [] := by
        rw [List.filterMap_eq_nil_iff] at hnil ⊢
        exact fun c' hc' => hnil c' (List.mem_of_mem_filter hc')
      rw [lastWritten, hempty]
      exact (congrArg _ (Obj.read_cleared ..)).trans List.map_replicate

end Written

theorem written_nil (writes : Clause → Option (List ℕ)) : Written writes [] none :=
  ⟨⟨fun _ => rfl, fun _ => rfl⟩, fun _ h => by cases h⟩

theorem find?_ethFields (f : EthField) : ethFields.find? (·.token = f.ops.token) = some f.ops := by
  cases f <;> rfl

/-- The objects hold what some clauses have written. -/
structure Objs.Hold (o : Objs) (cs : List Clause) : Prop where
  spec : Written Clause.specBytes cs o.spec
  last : Written Clause.lastBytes cs o.last
  mask : Written Clause.maskBytes cs o.mask

/-- The fields that are put into the TCI. -/
inductive TciField where
  | pcp | dei | vid
  deriving DecidableEq

/-- Their entries in the table. -/
def TciField.ops : TciField → FieldOps
  | .pcp => ⟨"pcp", 0, 2, true, setPcpInTci⟩
  | .dei => ⟨"dei", 0, 2, true, setDeiInTci⟩
  | .vid => ⟨"vid", 0, 2, true, setVidInTci⟩

/-- How many values a field has. -/
def TciField.bound : TciField → ℕ
  | .pcp => 8
  | .dei => 2
  | .vid => 4096

/-- The bits that the code sets for a value, in the two bytes of the TCI. -/
def TciField.bits : TciField → ℕ → Byte × Byte
  | .pcp, n => (BitVec.ofNat 8 n <<< 1, 0)
  | .dei, n => (BitVec.ofNat 8 n, 0)
  | .vid, n => (BitVec.ofNat 8 (n / 256), BitVec.ofNat 8 n)

/-- A clause `pcp is P`, `dei is D` or `vid is V`: the text, and the number that it denotes. -/
structure TciClause where
  field : TciField
  value : CString
  number : ℕ

/-- The tokens of a clause. -/
def TciClause.tokens (c : TciClause) : List CString := [c.field.ops.token, "is", c.value]

/-- The text denotes the number, which is one of the values of the field. -/
def TciClause.Denotes (c : TciClause) : Prop :=
  CString.value 0 c.value = some ((c.number : ℤ), []) ∧ c.number < c.field.bound

/-- The value of a field that some clauses give, and zero if none does. -/
def numberOf (cs : List TciClause) (f : TciField) : ℕ :=
  ((cs.find? (·.field = f)).map TciClause.number).getD 0

/-- The TCI that the clauses stand for. -/
def tciOf (cs : List TciClause) : ℕ :=
  numberOf cs .pcp * 8192 + numberOf cs .dei * 4096 + numberOf cs .vid

/-- The TCI in an object, read in network order. -/
def readTci (o : Obj) : ℕ := (o 0).toNat * 256 + (o 1).toNat

/-- An object with two bytes of TCI. -/
def tciObj (b : Byte × Byte) : Obj := Obj.cleared.store 0 [b.1, b.2]

theorem tciObj_zero : tciObj (0, 0) = Obj.cleared := by
  funext i
  unfold tciObj Obj.store Obj.cleared
  split
  · rename_i h
    have hlt : i < 2 := h.2
    obtain rfl | rfl : i = 0 ∨ i = 1 := by omega
    · rfl
    · rfl
  · rfl

theorem orBytes_tciObj (b : Byte × Byte) (b₀ b₁ : Byte) :
    Obj.orBytes b₀ b₁ 0 (tciObj b) = tciObj (b.1 ||| b₀, b.2 ||| b₁) := by
  funext i
  unfold Obj.orBytes tciObj Obj.store Obj.cleared
  simp only [List.length_cons, List.length_nil]
  split <;> rfl

theorem wholeNumber_of_value (h : CString.value 0 value = some ((n : ℤ), [])) (hn : n < 2 ^ 64) :
    wholeNumber 0 value = some n := by
  rw [wholeNumber, CString.strtoul_of_value h hn]

/-- One field is put into the TCI. -/
theorem parseDetail_of_denotes {c : TciClause} (hc : c.Denotes) (b : Byte × Byte) :
    c.field.ops.parseDetail c.value 0 (tciObj b) =
      .ok (some (tciObj (b.1 ||| (c.field.bits c.number).1, b.2 ||| (c.field.bits c.number).2))) := by
  obtain ⟨f, value, n⟩ := c
  obtain ⟨hval, hlt⟩ := hc
  dsimp only at hval hlt ⊢
  have hbound : f.bound ≤ 4096 := by cases f <;> decide
  have hread := wholeNumber_of_value hval (by omega)
  cases f with
  | pcp =>
    have hn : n < 8 := hlt
    show strToNumber _ value 0 (tciObj b) = _
    rw [strToNumber, hread, Option.bind_some, if_neg (by omega), Option.map_some, orBytes_tciObj]
    rfl
  | dei =>
    have hn : n < 2 := hlt
    show strToNumber _ value 0 (tciObj b) = _
    rw [strToNumber, hread, Option.bind_some, if_neg (by omega), Option.map_some, orBytes_tciObj]
    rfl
  | vid =>
    have hn : n < 4096 := hlt
    show strToNumber _ value 0 (tciObj b) = _
    rw [strToNumber, hread, Option.bind_some, if_neg (by omega), Option.map_some, orBytes_tciObj,
      Nat.mod_eq_of_lt (by omega)]
    rfl

/-- Put together the bits of some clauses. -/
def orBits (b : Byte × Byte) (cs : List TciClause) : Byte × Byte :=
  cs.foldl (fun b c => (b.1 ||| (c.field.bits c.number).1, b.2 ||| (c.field.bits c.number).2)) b

theorem find?_vlanFields (f : TciField) :
    vlanFields.find? (·.token = f.ops.token) = some f.ops := by
  cases f <;> rfl

variable {cs : List TciClause}

theorem orBits_append (b : Byte × Byte) (cs : List TciClause) (c : TciClause) :
    orBits b (cs ++ [c]) = ((orBits b cs).1 ||| (c.field.bits c.number).1,
      (orBits b cs).2 ||| (c.field.bits c.number).2) := by
  rw [orBits, List.foldl_append]
  rfl

/-- An item with at least one of the fields has their bits in its TCI, and nothing else. -/
theorem parseItemCommon_tci (hcs : ∀ c ∈ cs, c.Denotes) (hne : cs ≠ [])
    (hrest : rest = [] ∨ rest.head? = some "/".toList) :
    ∃ o, parseItemCommon vlanFields (cs.flatMap TciClause.tokens ++ rest) = .ok (some (rest, o)) ∧
      o.spec = some (tciObj (orBits (0, 0) cs)) := by
  have hstep : ∀ c ∈ cs, ∀ (done : List TciClause) (o : Objs),
      (o.spec.getD .cleared = tciObj (orBits (0, 0) done) ∧ (done ≠ [] → o.spec.isSome)) →
      ∃ o', store c.field.ops .isValue c.value o = .ok (some o') ∧
        o'.spec.getD .cleared = tciObj (orBits (0, 0) (done ++ [c])) ∧
        (done ++ [c] ≠ [] → o'.spec.isSome) := by
    intro c hc done o ho
    have hoff : c.field.ops.offset = 0 := by cases c.field <;> rfl
    refine ⟨⟨some (tciObj (orBits (0, 0) (done ++ [c]))), o.last,
      fill c.field.ops (List.replicate c.field.ops.size 0xff) o.mask⟩, ?_, rfl, fun _ => rfl⟩
    rw [store, parseInto, hoff, ho.1, parseDetail_of_denotes (hcs c hc), ← orBits_append]
    rfl
  obtain ⟨o, hparse, hspec, hsome⟩ := parseItemCommon_clauses vlanFields
    (fun c : TciClause => c.field.ops) (fun _ => .isValue) (·.value) _ (fun c _ =>
      ⟨find?_vlanFields c.field, by cases c.field <;> rfl, by cases c.field <;> decide⟩) hstep hrest
    ⟨tciObj_zero.symm, absurd rfl⟩
  obtain ⟨obj, hobj⟩ := Option.isSome_iff_exists.mp (hsome hne)
  refine ⟨o, hparse, ?_⟩
  rw [hobj, Option.getD_some] at hspec
  rw [hobj, hspec]

theorem numberOf_cons (c : TciClause) (cs : List TciClause) (f : TciField) :
    numberOf (c :: cs) f = if c.field = f then c.number else numberOf cs f := by
  unfold numberOf
  by_cases h : c.field = f <;> simp [h]

theorem numberOf_of_notMem {f : TciField} (h : f ∉ cs.map TciClause.field) : numberOf cs f = 0 := by
  induction cs with
  | nil => rfl
  | cons c cs ih =>
    rw [List.map_cons, List.mem_cons, not_or] at h
    rw [numberOf_cons, if_neg (Ne.symm h.1), ih h.2]

theorem numberOf_lt (hcs : ∀ c ∈ cs, c.Denotes) (f : TciField) : numberOf cs f < f.bound := by
  induction cs with
  | nil => cases f <;> decide
  | cons c cs ih =>
    rw [List.forall_mem_cons] at hcs
    rw [numberOf_cons]
    split
    · rename_i h
      exact h ▸ hcs.1.2
    · exact ih hcs.2

/-- **The bits of clauses for different fields** do not depend on their order. -/
theorem orBits_eq (hnodup : (cs.map TciClause.field).Nodup) (b : Byte × Byte) :
    orBits b cs =
      (b.1 ||| (TciField.pcp.bits (numberOf cs .pcp)).1 ||| (TciField.dei.bits (numberOf cs .dei)).1
          ||| (TciField.vid.bits (numberOf cs .vid)).1,
        b.2 ||| (TciField.vid.bits (numberOf cs .vid)).2) := by
  induction cs generalizing b with
  | nil => simp [orBits, numberOf, TciField.bits]
  | cons c cs ih =>
    rw [List.map_cons, List.nodup_cons] at hnodup
    have hzero := numberOf_of_notMem hnodup.1
    rw [orBits, List.foldl_cons, ← orBits, ih hnodup.2]
    obtain ⟨f, value, n⟩ := c
    cases f with
    | pcp | dei | vid =>
      simp only [numberOf_cons, reduceCtorEq, if_true, if_false]
      have hzero : numberOf cs _ = 0 := hzero
      rw [hzero]
      simp [TciField.bits]
      try ac_rfl

theorem numberOf_perm {cs' : List TciClause} (hperm : cs.Perm cs')
    (hnodup : (cs.map TciClause.field).Nodup) (f : TciField) : numberOf cs f = numberOf cs' f := by
  induction hperm with
  | nil => rfl
  | cons c _ ih =>
    rw [numberOf_cons, numberOf_cons, ih (List.nodup_cons.mp hnodup).2]
  | swap c d cs =>
    simp only [List.map_cons, List.nodup_cons, List.mem_cons, not_or] at hnodup
    simp only [numberOf_cons]
    split
    · rename_i hd
      rw [if_neg (fun hc => hnodup.1.1 (hd.trans hc.symm))]
    · rfl
  | trans h₁ _ ih₁ ih₂ => exact (ih₁ hnodup).trans (ih₂ ((h₁.map _).nodup_iff.mp hnodup))

/-- The first byte of the TCI: the two upper fields lie over the high bits of the VLAN id. -/
theorem firstByte_eq_iff {p d v : ℕ} (hp : p < 8) (hd : d < 2) (hv : v < 16) :
    ((0 : Byte) ||| BitVec.ofNat 8 p <<< 1 ||| BitVec.ofNat 8 d ||| BitVec.ofNat 8 v).toNat =
      p * 32 + d * 16 + v ↔ p = 0 ∧ d = 0 := by
  have hall : ∀ p < 8, ∀ d < 2, ∀ v < 16,
      (((0 : Byte) ||| BitVec.ofNat 8 p <<< 1 ||| BitVec.ofNat 8 d ||| BitVec.ofNat 8 v).toNat =
        p * 32 + d * 16 + v ↔ p = 0 ∧ d = 0) := by decide +kernel
  exact hall p hp d hd v hv

/-- **The TCI of some fields** is right if and only if the two upper ones are zero. -/
theorem readTci_orBits_iff (hnodup : (cs.map TciClause.field).Nodup) (hcs : ∀ c ∈ cs, c.Denotes) :
    readTci (tciObj (orBits (0, 0) cs)) = tciOf cs ↔
      numberOf cs .pcp = 0 ∧ numberOf cs .dei = 0 := by
  have hp : numberOf cs .pcp < 8 := numberOf_lt hcs .pcp
  have hd : numberOf cs .dei < 2 := numberOf_lt hcs .dei
  have hv : numberOf cs .vid < 4096 := numberOf_lt hcs .vid
  have hread : readTci (tciObj (orBits (0, 0) cs)) =
      (orBits (0, 0) cs).1.toNat * 256 + (orBits (0, 0) cs).2.toNat := rfl
  have hsnd : ((0 : Byte) ||| BitVec.ofNat 8 (numberOf cs .vid)).toNat = numberOf cs .vid % 256 := by
    rw [BitVec.toNat_or, BitVec.toNat_ofNat]
    exact Nat.zero_or _
  rw [← firstByte_eq_iff hp hd (v := numberOf cs .vid / 256) (by omega), hread, orBits_eq hnodup,
    tciOf]
  simp only [TciField.bits]
  rw [hsnd]
  omega

/-- An item with clauses for some fields of the TCI is parsed, the two bytes are those that the
values stand for, and they do not depend on the order of the clauses. -/
def TciExact (cs : List TciClause) (rest : List CString) : Prop :=
  ∃ o spec, parseItemCommon vlanFields (cs.flatMap TciClause.tokens ++ rest) =
      .ok (some (rest, o)) ∧ o.spec = some spec ∧ readTci spec = tciOf cs ∧
    ∀ cs' : List TciClause, cs'.Perm cs → ∃ o', parseItemCommon vlanFields
      (cs'.flatMap TciClause.tokens ++ rest) = .ok (some (rest, o')) ∧ o'.spec = o.spec

/-- An item `tci is T` is parsed, and the two bytes are those of the number. -/
def WholeTciExact (value : CString) (n : ℕ) (rest : List CString) : Prop :=
  ∃ o spec, parseItemCommon vlanFields ("tci" :: "is" :: value :: rest) =
    .ok (some (rest, o)) ∧ o.spec = some spec ∧ readTci spec = n

theorem tciExact_iff (hne : cs ≠ [])
    (hnodup : (cs.map TciClause.field).Nodup) (hcs : ∀ c ∈ cs, c.Denotes)
    (hrest : rest = [] ∨ rest.head? = some "/".toList) :
    TciExact cs rest ↔ numberOf cs .pcp = 0 ∧ numberOf cs .dei = 0 := by
  obtain ⟨o, hparse, hspec⟩ := parseItemCommon_tci hcs hne hrest
  rw [← readTci_orBits_iff hnodup hcs]
  constructor
  · rintro ⟨o', spec, hparse', hspec', hread, -⟩
    rw [hparse] at hparse'
    obtain rfl : o = o' := by injection hparse' with h; injection h with h; injection h
    rw [hspec] at hspec'
    rw [Option.some.inj hspec', hread]
  intro hread
  refine ⟨o, _, hparse, hspec, hread, fun cs' hperm => ?_⟩
  have hne' : cs' ≠ [] := fun h => hne (List.nil_perm.mp (h ▸ hperm))
  obtain ⟨o', hparse', hspec'⟩ :=
    parseItemCommon_tci (fun c hc => hcs c (hperm.mem_iff.mp hc)) hne' hrest
  have hnodup' : (cs'.map TciClause.field).Nodup := (hperm.map _).nodup_iff.mpr hnodup
  refine ⟨o', hparse', ?_⟩
  rw [hspec, hspec', orBits_eq hnodup, orBits_eq hnodup']
  simp only [numberOf_perm hperm hnodup']

/-- The tokens of `tci is T` put the number into the object in the order of the host. -/
theorem wholeTciExact_iff (hval : CString.value 0 value = some ((n : ℤ), [])) (hn : n < 65536)
    (hrest : rest = [] ∨ rest.head? = some "/".toList) :
    WholeTciExact value n rest ↔ n % 256 = n / 256 := by
  let d : FieldOps := ⟨"tci", 0, 2, true, strToTci⟩
  let o : Objs := ⟨some (Obj.cleared.store 0 (le16 n)), none,
    fill d (List.replicate 2 0xff) none⟩
  have hdetail : strToTci value 0 .cleared = .ok (some (Obj.cleared.store 0 (le16 n))) := by
    rw [strToTci, strToNumber, wholeNumber_of_value hval (by omega)]
    rfl
  have hstore : store d .isValue value .null = .ok (some o) := by
    rw [store]
    simp only [parseInto, Objs.null, Option.getD_none, d, hdetail]
    rfl
  have hparse : parseItemCommon vlanFields ("tci" :: "is" :: value :: rest) =
      .ok (some (rest, o)) := by
    have hat : At (d.token :: Kind.isValue.word :: value :: rest) 0 _ := ⟨Nat.zero_le _, rfl⟩
    have hloop : parseItemLoop ("tci" :: "is" :: value :: rest) vlanFields (rest.length + 4) 0
        .null = .ok (some (3, o)) :=
      (parseItemLoop_clause ⟨rfl, rfl, by decide⟩ hat hstore).trans
        (parseItemLoop_end hrest hat.next.next.next)
    show (parseItemLoop _ vlanFields (rest.length + 4) 0 .null >>= _) = _
    rw [hloop]
    rfl
  have hread : readTci (Obj.cleared.store 0 (le16 n)) = n % 256 * 256 + n / 256 := by
    show (BitVec.ofNat 8 n).toNat * 256 + (BitVec.ofNat 8 (n / 256)).toNat = _
    rw [BitVec.toNat_ofNat, BitVec.toNat_ofNat]
    omega
  constructor
  · rintro ⟨o', spec, hparse', hspec, hn'⟩
    rw [hparse] at hparse'
    obtain rfl : o = o' := by injection hparse' with h; injection h with h; injection h
    obtain rfl : Obj.cleared.store 0 (le16 n) = spec := Option.some.inj hspec
    rw [hread] at hn'
    omega
  · intro h
    exact ⟨o, _, hparse, rfl, by rw [hread]; omega⟩

/-- **When the TCI of an item is right.**  For the fields the values of `pcp` and `dei` have to be
zero, and for a whole TCI its two bytes have to be equal. -/
theorem vlanTci_iff {rest : List CString} (hrest : rest = [] ∨ rest.head? = some "/".toList) :
    (∀ cs : List TciClause, cs ≠ [] → (cs.map TciClause.field).Nodup → (∀ c ∈ cs, c.Denotes) →
      (TciExact cs rest ↔ numberOf cs .pcp = 0 ∧ numberOf cs .dei = 0)) ∧
    ∀ (value : CString) (n : ℕ), CString.value 0 value = some ((n : ℤ), []) → n < 65536 →
      (WholeTciExact value n rest ↔ n % 256 = n / 256) :=
  ⟨fun _ hne hnodup hcs => tciExact_iff hne hnodup hcs hrest,
    fun _ _ hval hn => wholeTciExact_iff hval hn hrest⟩

/-- An item with a VLAN id and zeros is right, and so is one with the TCI 257. -/
theorem vlanTci_iff_zeros :
    TciExact [⟨.vid, "100", 100⟩, ⟨.pcp, "0", 0⟩, ⟨.dei, "0", 0⟩] ["/"] ∧
      WholeTciExact "257" 257 ["/"] := by
  obtain ⟨hfields, hwhole⟩ := @vlanTci_iff ["/"] (.inr rfl)
  have hzero : CString.value 0 "0" = some (((0 : ℕ) : ℤ), []) := by decide +kernel
  refine ⟨(hfields _ (by simp) (by simp) ?_).mpr ⟨rfl, rfl⟩,
    (hwhole _ 257 (by decide +kernel) (by decide)).mpr (by decide)⟩
  simp only [List.forall_mem_cons, List.not_mem_nil, false_imp_iff, implies_true, and_true]
  exact ⟨⟨by decide +kernel, by decide⟩, ⟨hzero, by decide⟩, hzero, by decide⟩

/-- The item `pcp is 1` has the TCI 512, and `tci is 1` has the TCI 256. -/
theorem not_tciExact_pcp : ¬ TciExact [⟨.pcp, "1", 1⟩] ["/"] ∧
    ¬ WholeTciExact "1" 1 ["/"] := by
  have hone : CString.value 0 "1" = some (((1 : ℕ) : ℤ), []) := by decide +kernel
  constructor
  · rw [tciExact_iff (by simp) (by simp) (fun c hc => ?_) (.inr rfl)]
    · exact fun h => absurd h.1 (by decide)
    · obtain rfl : c = ⟨.pcp, "1", 1⟩ := List.mem_singleton.mp hc
      exact ⟨hone, by decide⟩
  · rw [wholeTciExact_iff hone (by decide) (.inr rfl)]
    decide

end FlowFields
end SoftPatchPanel.Primary
