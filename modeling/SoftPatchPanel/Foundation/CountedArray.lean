import Mathlib.Data.List.Basic
import Mathlib.Data.List.Nodup
import Mathlib.Data.List.Range
import Mathlib.Logic.Function.Basic

/-!
# Arrays with a counter beside them

A C program that keeps a set in an array keeps two things: the array, which is
memory and has a value at every index, and a counter of how many of its entries
are in use.  Here the array is a function on indices and `slice n a` is the list
of its first `n` entries, the part the counter makes visible.

The three loops such programs are made of are written as loops:

* `lastIdx` scans the visible part for a value and keeps the last hit;
* `shiftDown` closes the gap left by a deleted entry;
* storing behind the last entry needs no loop, it is `Function.update`.

The lemmas say what each does to the slice, so that a proof about the program
can speak of lists: storing appends (`slice_update_succ`), the scan finds a
member (`lastIdx_eq_none_iff`, `lastIdx_eq_some`), and closing the gap erases one
position (`slice_shiftDown`), which in a list without repetitions is `List.erase`
(`slice_delete_of_nodup`).
-/

namespace SoftPatchPanel.CountedArray

open Function (update update_self update_of_ne)

variable {α : Type*} {n i : ℕ} {a : ℕ → α} {t : α}

/-- The first `n` entries of an array. -/
def slice (n : ℕ) (a : ℕ → α) : List α := (List.range n).map a

@[simp] theorem slice_zero (a : ℕ → α) : slice 0 a = [] := rfl

@[simp] theorem length_slice (n : ℕ) (a : ℕ → α) : (slice n a).length = n := by
  simp [slice]

theorem slice_succ (n : ℕ) (a : ℕ → α) : slice (n + 1) a = slice n a ++ [a n] := by
  simp [slice, List.range_succ]

theorem mem_slice {x : α} : x ∈ slice n a ↔ ∃ i < n, a i = x := by
  simp [slice]

@[simp] theorem getElem_slice (hi : i < (slice n a).length) : (slice n a)[i] = a i := by
  simp [slice]

/-- The slice only depends on the entries it shows. -/
theorem slice_congr {b : ℕ → α} (h : ∀ i < n, a i = b i) : slice n a = slice n b := by
  apply List.map_congr_left
  intro i hi
  exact h i (List.mem_range.mp hi)

/-- Storing behind the last visible entry and counting it appends. -/
theorem slice_update_succ (n : ℕ) (a : ℕ → α) (x : α) :
    slice (n + 1) (update a n x) = slice n a ++ [x] := by
  rw [slice_succ, update_self]
  congr 1
  apply slice_congr
  intro i hi
  exact update_of_ne (by omega) _ _

/-! ## The scan -/

/-- The scan `for (cnt = 0; cnt < n; cnt++) if (a[cnt] == t) idx = cnt`: the last
hit wins. -/
def lastIdx [DecidableEq α] (t : α) (n : ℕ) (a : ℕ → α) : Option ℕ :=
  (List.range n).foldl (fun idx cnt => if a cnt = t then some cnt else idx) none

variable [DecidableEq α]

theorem lastIdx_succ (t : α) (n : ℕ) (a : ℕ → α) :
    lastIdx t (n + 1) a = if a n = t then some n else lastIdx t n a := by
  simp [lastIdx, List.range_succ]

/-- A hit is a visible index that holds the value, and the last such. -/
theorem lastIdx_eq_some (h : lastIdx t n a = some i) :
    i < n ∧ a i = t ∧ ∀ j, i < j → j < n → a j ≠ t := by
  induction n with
  | zero => exact absurd h (by simp [lastIdx])
  | succ n ih =>
    rw [lastIdx_succ] at h
    split at h
    · rename_i hn
      obtain rfl : n = i := Option.some.inj h
      exact ⟨Nat.lt_succ_self n, hn, fun j hj hj' => absurd hj' (by omega)⟩
    rename_i hn
    obtain ⟨hi, hit, hlast⟩ := ih h
    refine ⟨by omega, hit, fun j hj hj' => ?_⟩
    rcases Nat.lt_succ_iff_lt_or_eq.mp hj' with hjn | rfl
    · exact hlast j hj hjn
    · exact hn

/-- The scan misses exactly when the value is not visible. -/
theorem lastIdx_eq_none_iff : lastIdx t n a = none ↔ t ∉ slice n a := by
  induction n with
  | zero => simp [lastIdx]
  | succ n ih =>
    rw [lastIdx_succ, slice_succ, List.mem_append, List.mem_singleton, not_or, ← ih]
    split
    · rename_i hn
      simp [hn]
    · rename_i hn
      exact ⟨fun h => ⟨h, fun h' => hn h'.symm⟩, fun h => h.1⟩

theorem exists_lastIdx_of_mem (h : t ∈ slice n a) : ∃ i, lastIdx t n a = some i := by
  cases hl : lastIdx t n a with
  | none => exact absurd h (lastIdx_eq_none_iff.mp hl)
  | some i => exact ⟨i, rfl⟩

omit [DecidableEq α]

/-! ## Closing a gap -/

/-- The loop `for (cnt = i; cnt < n; cnt++) a[cnt] = a[cnt + 1]`. -/
def shiftDown (a : ℕ → α) (i n : ℕ) : ℕ → α :=
  (List.range' i (n - i)).foldl (fun b cnt => Function.update b cnt (b (cnt + 1))) a

theorem foldl_shift_apply (a : ℕ → α) (i k j : ℕ) :
    (List.range' i k).foldl (fun b cnt => update b cnt (b (cnt + 1))) a j =
      if i ≤ j ∧ j < i + k then a (j + 1) else a j := by
  induction k generalizing j with
  | zero => rw [List.range'_zero, List.foldl_nil, if_neg (by omega)]
  | succ k ih =>
    -- the entry the last round reads has not been written yet
    have hnext := ih (i + k + 1)
    rw [if_neg (by omega)] at hnext
    rw [List.range'_1_concat, List.foldl_append, List.foldl_cons, List.foldl_nil, hnext]
    rcases eq_or_ne j (i + k) with rfl | hj
    · rw [update_self, if_pos (by omega)]
    rw [update_of_ne hj, ih]
    by_cases h : i ≤ j ∧ j < i + k
    · rw [if_pos h, if_pos (by omega)]
    · rw [if_neg h, if_neg (by omega)]

/-- What the gap-closing loop leaves at each index. -/
theorem shiftDown_apply (a : ℕ → α) (i n j : ℕ) :
    shiftDown a i n j = if i ≤ j ∧ j < n then a (j + 1) else a j := by
  rw [shiftDown, foldl_shift_apply]
  by_cases h : i ≤ j ∧ j < n
  · rw [if_pos h, if_pos (by omega)]
  · rw [if_neg h, if_neg (by omega)]

/-- Closing the gap erases one position of the slice, whatever is then stored
behind it. -/
theorem slice_shiftDown (hi : i ≤ n) (z : α) :
    slice n (update (shiftDown a i n) n z) = (slice (n + 1) a).eraseIdx i := by
  apply List.ext_getElem
  · rw [length_slice, List.length_eraseIdx, length_slice, if_pos (by omega)]
    rfl
  intro j h₁ h₂
  have hj : j < n := by simpa using h₁
  rw [getElem_slice, update_of_ne (by omega), shiftDown_apply, List.getElem_eraseIdx]
  by_cases hij : j < i
  · rw [dif_pos hij, if_neg (by omega), getElem_slice]
  · rw [dif_neg hij, if_pos (by omega), getElem_slice]

/-- In a slice without repetitions, closing the gap of the last hit is erasing
the value. -/
theorem slice_delete_of_nodup [DecidableEq α]
    (hnd : (slice (n + 1) a).Nodup) (hi : lastIdx t (n + 1) a = some i) (z : α) :
    slice n (update (shiftDown a i n) n z) = (slice (n + 1) a).erase t := by
  obtain ⟨hin, hit, -⟩ := lastIdx_eq_some hi
  have hlen : i < (slice (n + 1) a).length := by simpa using hin
  rw [slice_shiftDown (by omega) z, ← hnd.erase_getElem i hlen, getElem_slice, hit]

end SoftPatchPanel.CountedArray
