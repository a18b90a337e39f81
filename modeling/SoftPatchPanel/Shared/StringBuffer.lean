import SoftPatchPanel.Foundation.Memory
import SoftPatchPanel.Shared.JsonHelper
import SoftPatchPanel.Worker.DataTypes

/-!
# `string_buffer.c`: texts that grow

A buffer is a piece of memory with its capacity in front of it.  `spp_strbuf_append` copies
bytes behind the text and moves everything to a larger piece when there is no room.  The
functions of `json_helper.c` first append as many bytes as they are going to need, from an
empty literal, and then print over them: what lies behind the literal is copied as well, and
never seen.

Here the buffer is memory, a write outside it is `Fault.undefined`, and a `size_t` has 64
bits.  `Holds` says that a buffer holds a text; the texts that `JsonHelper` computes are then
what the buffers hold (`strbuf_exact_iff`), up to a text of `2 ^ 31` characters, whose length
is not an `int`.
-/

namespace SoftPatchPanel.Shared

open Worker (Fault)
open Memory

/-- The character that ends a text. -/
def nul : Char := '\x00'

/-- A text in the memory of a process, which has less than `2 ^ 57` bytes. -/
abbrev Text : Type := { s : CString // nul ∉ s ∧ s.length < 2 ^ 57 }

/-- What the functions find on the heap. -/
structure Heap where
  /-- Whether `malloc` succeeds. -/
  malloc : ℕ → Bool
  /-- The bytes behind the address of the empty literal. -/
  stray : ℕ → Char

/-- Some allocation fails. -/
def Heap.Fails (heap : Heap) : Prop := ∃ n, heap.malloc n = false

/-- A buffer. -/
structure StrBuf where
  capacity : ℕ
  mem : ℕ → Char

namespace StrBuf

/-- The text in a buffer. -/
def content (b : StrBuf) : CString := (load b.mem 0 b.capacity).takeWhile (· ≠ nul)

/-- `strlen`. -/
def strlen (b : StrBuf) : Except Fault ℕ :=
  if b.content.length < b.capacity then .ok b.content.length else .error .undefined

/-- Write bytes at an index. -/
def write (b : StrBuf) (index : ℤ) (bytes : List Char) : Except Fault StrBuf :=
  if 0 ≤ index ∧ index.toNat + bytes.length ≤ b.capacity then
    .ok { b with mem := store index.toNat bytes b.mem }
  else .error .undefined

/-- `spp_strbuf_allocate`; `none` is the null pointer. -/
def allocate (heap : Heap) (capacity : ℕ) : Option StrBuf :=
  if heap.malloc (capacity + 8) then some ⟨capacity, fun _ => nul⟩ else none

/-- The loop of `strbuf_reallocate`.  After 64 rounds `new_cap` is 0, and stays it. -/
def growLoop (requiredLen : ℕ) : ℕ → ℕ → Except Fault ℕ
  | 0, _ => .error .blocked
  | rounds + 1, newCap =>
    if newCap ≤ requiredLen then growLoop requiredLen rounds (newCap * 2 % 2 ^ 64)
    else .ok newCap

/-- `strbuf_reallocate`. -/
def reallocate (heap : Heap) (b : StrBuf) (requiredLen : ℕ) : Except Fault (Option StrBuf) := do
  let newCap ← growLoop requiredLen 65 (b.capacity * 2 % 2 ^ 64)
  match allocate heap newCap with
  | none => .ok none
  | some new => some <$> new.write 0 (b.content ++ [nul])

/-- The first half of `spp_strbuf_append`: the buffer that is written to. -/
def makeRoom (heap : Heap) (b : StrBuf) (requiredLen : ℕ) : Except Fault (Option StrBuf) :=
  if b.capacity ≤ requiredLen then reallocate heap b requiredLen else .ok (some b)

/-- `spp_strbuf_append` on the bytes that it is to copy. -/
def append (heap : Heap) (b : StrBuf) (bytes : List Char) : Except Fault (Option StrBuf) := do
  let len ← b.strlen
  match ← makeRoom heap b ((len + bytes.length) % 2 ^ 64) with
  | none => .ok none
  | some new => some <$> new.write len (bytes ++ [nul])

/-! ## The appenders -/

/-- `JSON_APPEND_LEN`. -/
def jsonAppendLen : ℕ := 16

/-- What the appenders share: the buffer is extended, and the element is printed at its old
end, behind a comma if that is not the beginning.  The old length is kept as an `int`. -/
def appendElement (heap : Heap) (output : StrBuf) (reserved : ℕ) (element : CString) :
    Except Fault (Option StrBuf) := do
  let len := CString.intOfLong (← output.strlen)
  match ← output.append heap (load heap.stray 0 reserved) with
  | none => .ok none
  | some output =>
    some <$> output.write len ((if len ≠ 0 then ", ".toList else []) ++ element ++ [nul])

/-- `JSON_APPEND_VALUE`, without the comma. -/
def jsonValue (name val : CString) : CString := quoted name ++ ": " ++ val

variable (heap : Heap) (output : StrBuf) (name val : CString)

/-- `append_json_uint_value`. -/
def appendJsonUintValue (value : UInt32) : Except Fault (Option StrBuf) :=
  appendElement heap output (name.length + jsonAppendLen * 2)
    (jsonValue name (uintText value.toNat))

/-- `append_json_int_value`. -/
def appendJsonIntValue (value : Int32) : Except Fault (Option StrBuf) :=
  appendElement heap output (name.length + jsonAppendLen * 2)
    (jsonValue name (intText value.toInt))

/-- `append_json_str_value`. -/
def appendJsonStrValue : Except Fault (Option StrBuf) :=
  appendElement heap output (name.length + val.length + jsonAppendLen)
    (jsonValue name (quoted val))

/-- `append_json_array_brackets`. -/
def appendJsonArrayBrackets : Except Fault (Option StrBuf) :=
  appendElement heap output (name.length + val.length + jsonAppendLen)
    (jsonValue name ("[ " ++ val ++ " ]"))

/-- `append_json_block_brackets`. -/
def appendJsonBlockBrackets : Except Fault (Option StrBuf) :=
  let block := "\x7b " ++ val ++ " \x7d"
  appendElement heap output (name.length + val.length + jsonAppendLen)
    (if name = [] then name ++ block else jsonValue name block)

end StrBuf

/-- A call of one of the appenders, apart from the name. -/
inductive Member where
  | uint (value : UInt32)
  | int (value : Int32)
  | str (val : Text)
  | array (val : Text)
  | block (val : Text)

/-- The call. -/
def Member.run (heap : Heap) (output : StrBuf) (name : CString) :
    Member → Except Fault (Option StrBuf)
  | .uint value => output.appendJsonUintValue heap name value
  | .int value => output.appendJsonIntValue heap name value
  | .str val => output.appendJsonStrValue heap name val
  | .array val => output.appendJsonArrayBrackets heap name val
  | .block val => output.appendJsonBlockBrackets heap name val

/-- The text that is to come of it. -/
def Member.text (output name : CString) : Member → CString
  | .uint value => appendJsonUintValue output name value.toNat
  | .int value => appendJsonIntValue output name value.toInt
  | .str val => appendJsonStrValue output name val
  | .array val => appendJsonArrayBrackets output name val
  | .block val => appendJsonBlockBrackets output name val

namespace StrBuf

/-- The buffer holds the text, and its capacity is greater than the length. -/
structure Holds (b : StrBuf) (s : CString) : Prop where
  room : s.length < b.capacity
  nul_notMem : nul ∉ s
  bytes : load b.mem 0 (s.length + 1) = s ++ [nul]

/-- The call succeeds, and leaves a buffer with the text. -/
def Leaves (r : Except Fault (Option StrBuf)) (s : CString) : Prop :=
  ∃ b, r = .ok (some b) ∧ b.Holds s

variable {heap : Heap} {b : StrBuf} {s t element : CString} {requiredLen reserved : ℕ}

theorem takeWhile_append_nul (bytes rest : List Char) :
    (bytes ++ nul :: rest).takeWhile (· ≠ nul) = bytes.takeWhile (· ≠ nul) := by
  induction bytes with
  | nil => rfl
  | cons c bytes ih =>
    by_cases hc : c = nul
    · simp [hc]
    · simpa [hc] using ih

/-- The text is what stands before the first NUL. -/
theorem content_eq {bytes : List Char} (hroom : bytes.length < b.capacity)
    (h : load b.mem 0 (bytes.length + 1) = bytes ++ [nul]) :
    b.content = bytes.takeWhile (· ≠ nul) := by
  obtain ⟨k, hk⟩ : ∃ k, b.capacity = bytes.length + 1 + k := ⟨_, (Nat.add_sub_of_le hroom).symm⟩
  rw [content, hk, load_add, h, List.append_assoc]
  exact takeWhile_append_nul bytes _

theorem Holds.content (h : b.Holds s) : b.content = s := by
  rw [content_eq h.room h.bytes, List.takeWhile_eq_self_iff]
  intro c hc
  exact decide_eq_true fun hnul => h.nul_notMem (hnul ▸ hc)

theorem Holds.strlen (h : b.Holds s) : b.strlen = .ok s.length := by
  rw [StrBuf.strlen, h.content, if_pos h.room]

theorem Holds.start (h : b.Holds s) : load b.mem 0 s.length = s := by
  rw [← take_load b.mem 0 s.length 1, h.bytes, List.take_left]

/-- Bytes that are written behind a text are read behind it. -/
theorem load_write {start : List Char} (bytes : List Char) (h : load b.mem 0 start.length = start) :
    load (store start.length bytes b.mem) 0 (start.length + bytes.length) = start ++ bytes := by
  rw [load_add, load_store_of_disjoint _ _ (.inl (by omega)), h, Nat.zero_add,
    load_store_self _ _ _ rfl]

theorem write_ok (start bytes : List Char) (h : load b.mem 0 start.length = start)
    (hroom : start.length + bytes.length < b.capacity) :
    ∃ b', b.write start.length (bytes ++ [nul]) = .ok b' ∧ b'.capacity = b.capacity ∧
      load b'.mem 0 (start.length + bytes.length + 1) = start ++ bytes ++ [nul] := by
  have hfits : (0 : ℤ) ≤ start.length ∧
      (start.length : ℤ).toNat + (bytes ++ [nul]).length ≤ b.capacity := by
    rw [Int.toNat_natCast, List.length_append, List.length_singleton]
    omega
  have hload := load_write (bytes ++ [nul]) h
  rw [List.length_append, ← Nat.add_assoc, ← List.append_assoc] at hload
  exact ⟨_, if_pos hfits, rfl, hload⟩

/-- The loop ends: with enough rounds the capacity passes what is required. -/
theorem growLoop_ok (rounds newCap : ℕ) (hlen : requiredLen < 2 ^ 63)
    (hrounds : requiredLen < newCap * 2 ^ rounds) :
    ∃ cap, growLoop requiredLen (rounds + 1) newCap = .ok cap ∧ requiredLen < cap := by
  induction rounds generalizing newCap with
  | zero => exact ⟨newCap, if_neg (by omega), by omega⟩
  | succ rounds ih =>
    by_cases hsmall : newCap ≤ requiredLen
    · rw [growLoop, if_pos hsmall, Nat.mod_eq_of_lt (by omega)]
      exact ih _ (by rwa [Nat.mul_assoc, ← Nat.pow_succ'])
    · exact ⟨newCap, if_neg hsmall, by omega⟩

/-- If no allocation fails, there is room for what is required behind the text. -/
theorem makeRoom_ok (heap : Heap) (h : b.Holds s) (hlen : requiredLen < 2 ^ 63)
    (hle : s.length ≤ requiredLen) : heap.Fails ∧ makeRoom heap b requiredLen = .ok none ∨
      ∃ b', makeRoom heap b requiredLen = .ok (some b') ∧ requiredLen < b'.capacity ∧
        load b'.mem 0 s.length = s := by
  have hroom := h.room
  rw [makeRoom]
  by_cases hfull : b.capacity ≤ requiredLen
  · obtain ⟨cap, hcap, hlt⟩ := growLoop_ok 64 (b.capacity * 2) hlen (by omega)
    rw [if_pos hfull, reallocate, Nat.mod_eq_of_lt (by omega), hcap, h.content]
    simp only [bind, Except.bind, allocate]
    cases hmalloc : heap.malloc (cap + 8) with
    | false => exact .inl ⟨⟨_, hmalloc⟩, rfl⟩
    | true =>
      obtain ⟨b', hwrite, hcapacity, hbytes⟩ := write_ok (b := ⟨cap, fun _ => nul⟩) [] s rfl
        (by simpa using Nat.lt_of_le_of_lt hle hlt)
      refine .inr ⟨b', congrArg (Except.map some) hwrite, hcapacity ▸ hlt, ?_⟩
      rw [List.length_nil, Nat.zero_add] at hbytes
      rw [← take_load b'.mem 0 s.length 1, hbytes, List.nil_append, List.take_left]
  · exact .inr ⟨b, if_neg hfull, by omega, h.start⟩

/-- **What `spp_strbuf_append` leaves**, whatever the bytes are. -/
theorem append_ok (heap : Heap) (h : b.Holds s) (bytes : List Char)
    (hlen : s.length + bytes.length < 2 ^ 63) : heap.Fails ∧ b.append heap bytes = .ok none ∨
      ∃ b', b.append heap bytes = .ok (some b') ∧ s.length + bytes.length < b'.capacity ∧
        load b'.mem 0 (s.length + bytes.length + 1) = s ++ bytes ++ [nul] := by
  have hmod : (s.length + bytes.length) % 2 ^ 64 = s.length + bytes.length :=
    Nat.mod_eq_of_lt (by omega)
  rw [append, h.strlen]
  simp only [bind, Except.bind, hmod]
  rcases makeRoom_ok heap h hlen (by omega) with ⟨hfails, hnone⟩ | ⟨new, hnew, hroom, hstart⟩
  · rw [hnone]
    exact .inl ⟨hfails, rfl⟩
  · obtain ⟨b', hwrite, hcap, hbytes⟩ := write_ok s bytes hstart hroom
    rw [hnew]
    exact .inr ⟨b', congrArg (Except.map some) hwrite, hcap ▸ hroom, hbytes⟩

theorem leaves_append (hheap : ¬ heap.Fails) (h : b.Holds s)
    (ht : nul ∉ t) (hlen : s.length + t.length < 2 ^ 63) : Leaves (b.append heap t) (s ++ t) := by
  obtain ⟨b', hb', hroom, hbytes⟩ := (append_ok heap h t hlen).resolve_left fun hf => hheap hf.1
  refine ⟨b', hb', by rwa [List.length_append], ?_, by rwa [List.length_append]⟩
  rw [List.mem_append, not_or]
  exact ⟨h.nul_notMem, ht⟩

/-- A text is not longer than the place of a NUL. -/
theorem Holds.length_le (h : b.Holds s) {k : ℕ} (hk : b.mem k = nul) : s.length ≤ k := by
  by_contra hlt
  have hget := congrArg (·[k]?) h.start
  rw [List.getElem?_eq_getElem (by rw [length_load]; omega)] at hget
  have hmem : nul ∈ s := List.mem_of_getElem? (hget.symm.trans (by simp [load, hk]))
  exact h.nul_notMem hmem

theorem jsonAppendComma_eq (s : CString) :
    jsonAppendComma s = if (s.length : ℤ) ≠ 0 then ", ".toList else [] := by
  simp [jsonAppendComma]

/-- Behind a text whose length is an `int` the element is printed. -/
theorem leaves_write (hstart : load b.mem 0 s.length = s) (hs : nul ∉ s)
    (hnul : nul ∉ element) (hroom : s.length + (element.length + 2) < b.capacity) :
    Leaves (some <$> b.write s.length
      ((if (s.length : ℤ) ≠ 0 then ", ".toList else []) ++ element ++ [nul]))
      (s ++ jsonAppendComma s ++ element) := by
  rw [← jsonAppendComma_eq, List.append_assoc s]
  have hcomma : (jsonAppendComma s).length ≤ 2 ∧ nul ∉ jsonAppendComma s := by
    unfold jsonAppendComma
    split <;> decide
  have hlen : (jsonAppendComma s ++ element).length ≤ element.length + 2 := by
    rw [List.length_append]
    omega
  obtain ⟨b', hwrite, hcap, hload⟩ :=
    write_ok s (jsonAppendComma s ++ element) hstart (by omega)
  refine ⟨b', congrArg (Except.map some) hwrite, ?_, ?_, by rwa [List.length_append]⟩
  · rw [hcap, List.length_append]
    omega
  · simp only [List.mem_append, not_or]
    exact ⟨hs, hcomma.2, hnul⟩

/-- A print at an index leaves a text that ends with it. -/
theorem length_le_of_write {index : ℤ} {bytes : CString}
    (h : Leaves (some <$> b.write index (bytes ++ [nul])) t) :
    t.length ≤ index.toNat + bytes.length := by
  obtain ⟨b', hb', hholds⟩ := h
  unfold write at hb'
  split at hb'
  · cases hb'
    exact hholds.length_le (by simp [store])
  · cases hb'

/-- **An element is appended** as long as the length of the text is an `int`. -/
theorem leaves_appendElement_iff (hheap : ¬ heap.Fails) (h : b.Holds s) (hnul : nul ∉ element)
    (hfits : element.length + 2 ≤ reserved) (hlen : s.length + reserved < 2 ^ 63) :
    Leaves (b.appendElement heap reserved element) (s ++ jsonAppendComma s ++ element) ↔
      s.length < 2 ^ 31 := by
  obtain ⟨b₁, hb₁, hroom, hbytes⟩ := (append_ok heap h
    (load heap.stray 0 reserved) (by rwa [length_load])).resolve_left fun hf => hheap hf.1
  rw [length_load] at hroom
  have hstart : load b₁.mem 0 s.length = s := by
    rw [← take_load b₁.mem 0 s.length (_ + 1), ← Nat.add_assoc, hbytes, List.append_assoc,
      List.take_left]
  rw [appendElement, h.strlen]
  simp only [bind, Except.bind, hb₁]
  constructor
  · -- otherwise the text ends too early
    intro hleaves
    by_contra hint
    have hle := length_le_of_write hleaves
    have hindex : CString.intOfLong s.length < 2 ^ 31 := Int.bmod_lt (by decide)
    have hne : s ≠ [] := by
      rintro rfl
      exact hint (by decide)
    rw [jsonAppendComma, if_neg hne] at hle
    simp only [List.length_append] at hle
    have hcomma : (", ".toList).length = 2 := rfl
    split at hle
    · omega
    · simp only [List.length_nil] at hle
      omega
  · intro hint
    rw [show CString.intOfLong s.length = s.length from Int.bmod_eq_of_le (by omega) (by omega)]
    exact leaves_write hstart h.nul_notMem hnul (by omega)

/-! ## Every appender -/

theorem nul_notMem_uintText (n : ℕ) : nul ∉ uintText n := fun h =>
  absurd (CString.isDigit_of_mem_toDigits h) (by decide)

theorem nul_notMem_intText (z : ℤ) : nul ∉ intText z := by
  unfold intText
  split
  · exact List.not_mem_cons_of_ne_of_not_mem (by decide) (nul_notMem_uintText _)
  · exact nul_notMem_uintText _

/-- A value with its name, if it is short enough. -/
theorem leaves_jsonValue_iff (hheap : ¬ heap.Fails) (h : b.Holds s)
    (name : Text) {val : CString} (hnul : nul ∉ val)
    (hfits : name.1.length + val.length + 6 ≤ reserved) (hlen : s.length + reserved < 2 ^ 63) :
    Leaves (b.appendElement heap reserved (jsonValue name val)) (appendJsonValue s name val) ↔
      s.length < 2 ^ 31 := by
  have htext : appendJsonValue s name val = s ++ jsonAppendComma s ++ jsonValue name val := by
    simp only [appendJsonValue, jsonValue, List.append_assoc]
  rw [htext]
  refine leaves_appendElement_iff hheap h ?_ ?_ hlen
  · simp only [jsonValue, quoted, List.mem_append, not_or]
    exact ⟨⟨⟨⟨by decide, name.2.1⟩, by decide⟩, by decide⟩, hnul⟩
  · simp only [jsonValue, quoted, List.length_append, String.reduceToList, List.length_cons,
      List.length_nil]
    omega

/-- Up to four characters around a value. -/
theorem enclosed_ok (left right : CString) (val : Text) (hlen : left.length + right.length ≤ 4)
    (hnul : nul ∉ left ∧ nul ∉ right) : nul ∉ left ++ val ++ right ∧
      (left ++ val ++ right).length ≤ val.1.length + 4 := by
  simp only [List.mem_append, not_or, List.length_append]
  exact ⟨⟨⟨hnul.1, val.2.1⟩, hnul.2⟩, by omega⟩

end StrBuf

open StrBuf

/-- **The string buffer.**  When no allocation fails, a text is appended to a text; and an
element is appended to a text exactly if the length of the text is an `int`. -/
theorem strbuf_exact_iff (heap : Heap) (hheap : ¬ heap.Fails) (b : StrBuf)
    (s : Text) (h : b.Holds s) :
    (∀ t : Text, Leaves (b.append heap t) (s ++ t)) ∧
      ∀ (name : Text) (m : Member),
        Leaves (m.run heap b name) (m.text s name) ↔ s.1.length < 2 ^ 31 := by
  have hs := s.2.2
  refine ⟨fun t => leaves_append hheap h t.2.1 (by have := t.2.2; omega), fun name m => ?_⟩
  have hname := name.2.2
  have hreserved : jsonAppendLen = 16 := rfl
  cases m with
  | uint value =>
    have hval : (uintText value.toNat).length ≤ 10 :=
      length_uintText_le (by decide) (value.toNat_lt.trans (by decide))
    exact leaves_jsonValue_iff hheap h name (nul_notMem_uintText _) (by omega) (by omega)
  | int value =>
    have hval := length_intText_int value.le_toInt value.toInt_lt
    exact leaves_jsonValue_iff hheap h name (nul_notMem_intText _) (by omega) (by omega)
  | str val =>
    obtain ⟨hnul, hlen⟩ := enclosed_ok "\"" "\"" val (by decide) (by decide)
    have hlen : (quoted val).length ≤ _ := hlen
    have hval := val.2.2
    exact leaves_jsonValue_iff hheap h name hnul (by omega) (by omega)
  | array val =>
    obtain ⟨hnul, hlen⟩ := enclosed_ok "[ " " ]" val (by decide) (by decide)
    have hval := val.2.2
    exact leaves_jsonValue_iff hheap h name hnul (by omega) (by omega)
  | block val =>
    obtain ⟨hnul, hlen⟩ := enclosed_ok "\x7b " " \x7d" val (by decide) (by decide)
    have hval := val.2.2
    simp only [Member.run, Member.text, StrBuf.appendJsonBlockBrackets, appendJsonBlockBrackets]
    by_cases hempty : name.1 = []
    · rw [if_pos hempty, if_pos hempty, hempty, List.nil_append]
      exact leaves_appendElement_iff hheap h hnul (by omega) (by simp only [List.length_nil]; omega)
    · rw [if_neg hempty, if_neg hempty]
      exact leaves_jsonValue_iff hheap h name hnul (by omega) (by omega)

/-- A buffer that is filled up with a text. -/
def StrBuf.ofText (s : CString) : StrBuf := ⟨s.length + 1, fun i => s.getD i nul⟩

theorem StrBuf.holds_ofText {s : CString} (hs : nul ∉ s) : (ofText s).Holds s where
  room := Nat.lt_succ_self _
  nul_notMem := hs
  bytes := by
    refine List.ext_getElem (by simp) fun i hi hi' => ?_
    simp only [load, ofText, List.getElem_map, List.getElem_range, List.getElem_append, Nat.zero_add]
    split
    · simp [*]
    · rename_i hlast
      simp [Nat.le_of_not_lt hlast]

/-- A heap with memory. -/
def Heap.sample : Heap := ⟨fun _ => true, fun _ => nul⟩

theorem Heap.not_fails_sample : ¬ Heap.sample.Fails := fun h => by
  obtain ⟨n, hn⟩ := h
  cases hn

/-- A short text. -/
def Text.sample : Text := ⟨"\"id\": 1", by decide⟩

theorem strbuf_exact_iff_sample : (StrBuf.ofText Text.sample).Holds Text.sample ∧
    Leaves ((StrBuf.ofText Text.sample).append .sample Text.sample) (Text.sample ++ Text.sample) :=
  ⟨holds_ofText (by decide), (strbuf_exact_iff .sample Heap.not_fails_sample _ Text.sample
    (holds_ofText (by decide))).1 Text.sample⟩

/-- **A text that is too long.**  Behind `2 ^ 31` characters no number is appended. -/
theorem not_leaves_long : (StrBuf.ofText (List.replicate (2 ^ 31) 'a')).Holds
      (List.replicate (2 ^ 31) 'a') ∧
    ¬ Leaves ((Member.uint 1).run .sample (StrBuf.ofText (List.replicate (2 ^ 31) 'a')) "n")
      ((Member.uint 1).text (List.replicate (2 ^ 31) 'a') "n") := by
  have hholds (n : ℕ) : (StrBuf.ofText (List.replicate n 'a')).Holds (List.replicate n 'a') :=
    holds_ofText fun h => absurd (List.eq_of_mem_replicate h) (by decide)
  refine ⟨hholds _, fun h => ?_⟩
  have hlen := (leaves_jsonValue_iff Heap.not_fails_sample (hholds _) ⟨"n", by decide⟩
    (nul_notMem_uintText 1) (by decide) (by rw [List.length_replicate]; decide)).mp h
  rw [List.length_replicate] at hlen
  omega

end SoftPatchPanel.Shared
