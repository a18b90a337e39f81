import Mathlib.Data.List.Basic

/-!
# Reading a list part by part

A parser of a list of tokens is often a loop: it reads one part from the front, and goes on
behind it until a part ends the loop.  `Step` is what reading one part comes to, and `scan`
the loop.  A part may be refused, the list may be too short for it, it may be the last one,
or there may be more.

If every part takes a token at least, the loop comes to an end, and `scan_eq` is its
equation.
-/

namespace SoftPatchPanel.Scan

/-- What reading one part from the front of a list comes to. -/
inductive Step (α : Type) where
  /-- The part is refused. -/
  | refused
  /-- The list ends within the part. -/
  | cut
  /-- The part is the last one. -/
  | done (rest : List α)
  /-- The part is read, and others follow. -/
  | more (rest : List α)
  deriving DecidableEq

/-- What reading all parts comes to. -/
inductive Outcome (α : Type) where
  | refused
  | cut
  | done (rest : List α)
  deriving DecidableEq

variable {α : Type} {part : List α → Step α} {l rest : List α}

/-- The parts that follow one another, `fuel` of them at most. -/
def scanN (part : List α → Step α) : ℕ → List α → Outcome α
  | 0, _ => .cut
  | fuel + 1, l =>
    match part l with
    | .refused => .refused
    | .cut => .cut
    | .done rest => .done rest
    | .more rest => scanN part fuel rest

/-- **The loop over the parts.** -/
def scan (part : List α → Step α) (l : List α) : Outcome α := scanN part (l.length + 1) l

/-- What follows a part that is read. -/
def Step.rest? : Step α → Option (List α)
  | .refused | .cut => none
  | .done rest | .more rest => some rest

/-- Every part that is read takes a token at least. -/
def Shrinks (part : List α → Step α) : Prop :=
  ∀ l rest, (part l).rest? = some rest → rest.length < l.length

section

variable (h : Shrinks part)
include h

theorem scanN_eq_scanN {n k : ℕ} (hn : l.length < n)
    (hk : l.length < k) : scanN part n l = scanN part k l := by
  induction n generalizing k l with
  | zero => exact absurd hn (Nat.not_lt_zero _)
  | succ n ih =>
    cases k with
    | zero => exact absurd hk (Nat.not_lt_zero _)
    | succ k =>
      rw [scanN, scanN]
      cases hpart : part l with
      | refused | cut => rfl
      | done rest => rfl
      | more rest =>
        have hlt := h l rest (by rw [hpart]; rfl)
        exact ih (by omega) (by omega)

theorem scan_eq (l : List α) : scan part l =
    match part l with
    | .refused => .refused
    | .cut => .cut
    | .done rest => .done rest
    | .more rest => scan part rest := by
  rw [scan, scanN]
  cases hpart : part l with
  | refused | cut => rfl
  | done rest => rfl
  | more rest =>
    have hlt := h l rest (by rw [hpart]; rfl)
    exact scanN_eq_scanN h hlt (Nat.lt_succ_self _)

theorem scan_of_refused (hl : part l = .refused) : scan part l = .refused := by
  rw [scan_eq h, hl]

theorem scan_of_cut (hl : part l = .cut) : scan part l = .cut := by
  rw [scan_eq h, hl]

theorem scan_of_done (hl : part l = .done rest) : scan part l = .done rest := by
  rw [scan_eq h, hl]

theorem scan_of_more (hl : part l = .more rest) : scan part l = scan part rest := by
  rw [scan_eq h, hl]

/-- What is left behind the last part is a part of the list. -/
theorem length_of_scan (hl : scan part l = .done rest) : rest.length < l.length := by
  induction hlen : l.length using Nat.strongRecOn generalizing l with
  | _ n ih =>
    subst hlen
    cases hpart : part l with
    | refused =>
      rw [scan_of_refused h hpart] at hl
      cases hl
    | cut =>
      rw [scan_of_cut h hpart] at hl
      cases hl
    | done rest' =>
      rw [scan_of_done h hpart] at hl
      cases hl
      exact h l rest (by rw [hpart]; rfl)
    | more rest' =>
      rw [scan_of_more h hpart] at hl
      have hlt := h l rest' (by rw [hpart]; rfl)
      exact Nat.lt_trans (ih _ hlt hl rfl) hlt

end

end SoftPatchPanel.Scan
