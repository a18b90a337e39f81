import Mathlib.Data.List.Basic
import Mathlib.Data.List.Range

/-!
# Bytes in memory

A memory is a function on addresses.  `load` reads a piece of it and `store` overwrites
one; `move` is `memmove`, which reads the whole of the source before it writes.  A load
through a store is the stored bytes or the bytes that were there before, by where it lies;
a longer load is cut into pieces first (`load_add`).
-/

namespace SoftPatchPanel.Memory

variable {β : Type} {mem : ℕ → β} {addr n k : ℕ} {bytes : List β}

/-- The bytes from an address on. -/
def load (mem : ℕ → β) (addr n : ℕ) : List β := (List.range n).map fun i => mem (addr + i)

/-- Overwrite the bytes from an address on. -/
def store (addr : ℕ) (bytes : List β) (mem : ℕ → β) : ℕ → β := fun a =>
  if addr ≤ a then (bytes[a - addr]?).getD (mem a) else mem a

/-- `memmove`. -/
def move (dst src n : ℕ) (mem : ℕ → β) : ℕ → β := store dst (load mem src n) mem

@[simp]
theorem length_load (mem : ℕ → β) (addr n : ℕ) : (load mem addr n).length = n := by
  simp [load]

theorem load_congr {mem' : ℕ → β} (h : ∀ i < n, mem' (addr + i) = mem (addr + i)) :
    load mem' addr n = load mem addr n :=
  List.map_congr_left fun i hi => h i (List.mem_range.mp hi)

section

variable (mem : ℕ → β)

/-- A load in two pieces. -/
theorem load_add (addr n k : ℕ) :
    load mem addr (n + k) = load mem addr n ++ load mem (addr + n) k := by
  simp [load, List.range_add, Function.comp_def, Nat.add_assoc]

theorem take_load (addr n k : ℕ) : (load mem addr (n + k)).take n = load mem addr n := by
  rw [load_add, List.take_append_of_le_length (by simp), List.take_of_length_le (by simp)]

theorem drop_load (addr n k : ℕ) : (load mem addr (n + k)).drop n = load mem (addr + n) k := by
  rw [load_add, List.drop_append_of_le_length (by simp), List.drop_of_length_le (by simp),
    List.nil_append]

/-- What has been stored is read back. -/
theorem load_store_self (addr : ℕ) (bytes : List β) (h : bytes.length = n) :
    load (store addr bytes mem) addr n = bytes := by
  refine List.ext_getElem (by simp [h]) fun i hi hi' => ?_
  simp [load, store, List.getElem?_eq_getElem hi']

/-- Other bytes are as they were. -/
theorem load_store_of_disjoint {at_ : ℕ} (bytes : List β)
    (h : addr + n ≤ at_ ∨ at_ + bytes.length ≤ addr) :
    load (store at_ bytes mem) addr n = load mem addr n := by
  refine load_congr fun i hi => ?_
  unfold store
  split
  · rw [List.getElem?_eq_none (by omega)]
    rfl
  · rfl

/-- What has been moved is read at its new place. -/
theorem load_move (dst src : ℕ) {i n : ℕ} (h : i + k ≤ n) :
    load (move dst src n mem) (dst + i) k = load mem (src + i) k := by
  refine List.map_congr_left fun t ht => ?_
  have hlt : i + t < n := by
    have := List.mem_range.mp ht
    omega
  have hsub : dst + i + t - dst = i + t := by omega
  simp only [move, store]
  rw [if_pos (by omega), hsub, List.getElem?_eq_getElem (by simpa using hlt)]
  simp [load, Nat.add_assoc]

theorem load_move_self (dst src n : ℕ) : load (move dst src n mem) dst n = load mem src n :=
  load_store_self mem dst _ (length_load ..)

theorem load_move_of_disjoint {dst : ℕ} (src : ℕ) (h : addr + n ≤ dst ∨ dst + k ≤ addr) :
    load (move dst src k mem) addr n = load mem addr n :=
  load_store_of_disjoint mem _ (by rwa [length_load])

end

end SoftPatchPanel.Memory
