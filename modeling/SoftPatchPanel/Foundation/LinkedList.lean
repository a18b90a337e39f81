import Mathlib.Data.List.Nodup
import Mathlib.Logic.Function.Basic

/-!
# Linked lists in a heap

A program keeps several singly linked lists.  Each starts at an *anchor*, a variable that
points to the first cell or is null; a cell holds data and a pointer to the next cell.  The
usual operations are here as programs do them: a cell is put in front of a list, a list is
searched with a pointer to the place where the pointer to the current cell stands, the cell
that has been found is unlinked by a write to that place and freed, and a list is freed as
a whole.  A list is also built by appending, with a pointer to the place where it ends, and
handed from one anchor to another.

The loops take a bound on the number of rounds, and `none` is a loop that does not end
within the bound or follows a pointer that points to no cell.

`Represents S L` says which lists the heap holds: from each anchor the cells of one list
are found in order, no cell is met twice, and there are no other cells.  For each operation
there is one theorem about what it does to the lists.
-/

namespace SoftPatchPanel.LinkedList

open Function (update update_self update_of_ne update_eq_self update_idem update_apply)

variable {I A D : Type} {cell : A → Option (D × Option A)} {p q : Option A} {l₁ l₂ l : List (A × D)}
  {a : A} {d : D} {fuel : ℕ} {i j : I} {x : A × D}

/-- The anchors and the cells. -/
structure Store (I A D : Type) where
  anchor : I → Option A
  cell : A → Option (D × Option A)

/-- A place where a pointer to a cell stands. -/
inductive Link (I A : Type) where
  | anchor (i : I)
  | next (a : A)
  deriving DecidableEq, Repr

/-! ## Segments -/

/-- From `p` on, the cells of the list are found in order; the last one points to `q`. -/
def Seg (cell : A → Option (D × Option A)) : Option A → List (A × D) → Option A → Prop
  | p, [], q => p = q
  | p, (a, d) :: l, q => p = some a ∧ ∃ n, cell a = some (d, n) ∧ Seg cell n l q

theorem seg_append : Seg cell p (l₁ ++ l₂) q ↔ ∃ r, Seg cell p l₁ r ∧ Seg cell r l₂ q := by
  induction l₁ generalizing p with
  | nil =>
    constructor
    · intro h
      exact ⟨p, rfl, h⟩
    · rintro ⟨r, rfl, h⟩
      exact h
  | cons x l₁ ih =>
    constructor
    · rintro ⟨hp, n, hcell, hseg⟩
      obtain ⟨r, hr, hrest⟩ := ih.mp hseg
      exact ⟨r, ⟨hp, n, hcell, hr⟩, hrest⟩
    · rintro ⟨r, ⟨hp, n, hcell, hr⟩, hrest⟩
      exact ⟨hp, n, hcell, ih.mpr ⟨r, hr, hrest⟩⟩

theorem Seg.congr {cell' : A → Option (D × Option A)}
    (h : Seg cell p l q) (hsame : ∀ x ∈ l, cell' x.1 = cell x.1) : Seg cell' p l q := by
  induction l generalizing p with
  | nil => exact h
  | cons x l ih =>
    obtain ⟨hp, n, hcell, hseg⟩ := h
    obtain ⟨hx, hl⟩ := List.forall_mem_cons.mp hsame
    exact ⟨hp, n, hx.trans hcell, ih hseg hl⟩

theorem Seg.cell_of_mem (h : Seg cell p l q) (hmem : (a, d) ∈ l) : ∃ n, cell a = some (d, n) := by
  induction l generalizing p with
  | nil => exact absurd hmem List.not_mem_nil
  | cons x l ih =>
    obtain ⟨-, n, hcell, hseg⟩ := h
    rcases List.mem_cons.mp hmem with rfl | hmem
    · exact ⟨n, hcell⟩
    · exact ih hseg hmem

/-! ## Searching -/

/-- The search for a cell, from the pointer `p`, which stands at `k`: the place where the
pointer to the cell stands, and the cell. -/
def Store.find (S : Store I A D) (test : D → Bool) :
    ℕ → Link I A → Option A → Option (Option (Link I A × A × D))
  | 0, _, _ => none
  | _ + 1, _, none => some none
  | fuel + 1, k, some a =>
    match S.cell a with
    | none => none
    | some (d, n) => if test d then some (some (k, a, d)) else S.find test fuel (.next a) n

/-- The place where the pointer to what follows the list stands. -/
def lastLink (k : Link I A) (l : List (A × D)) : Link I A :=
  match l.getLast? with
  | none => k
  | some x => .next x.1

variable {k : Link I A}

theorem lastLink_ne (hk : k ≠ .next a) (ha : a ∉ l.map Prod.fst) : lastLink k l ≠ .next a := by
  unfold lastLink
  split
  · exact hk
  · rename_i x hx
    intro heq
    exact ha (Link.next.inj heq ▸ List.mem_map_of_mem (List.mem_of_getLast? hx))

/-- **The search** gets to the end, or stops at the first cell that passes the test. -/
theorem Store.find_spec {S : Store I A D} (test : D → Bool)
    (h : Seg S.cell p l none) (hfuel : l.length < fuel) :
    ((∀ x ∈ l, test x.2 = false) ∧ S.find test fuel k p = some none) ∨
    ∃ l₁ a d l₂, l = l₁ ++ (a, d) :: l₂ ∧ (∀ x ∈ l₁, test x.2 = false) ∧ test d = true ∧
      S.find test fuel k p = some (some (lastLink k l₁, a, d)) := by
  induction l generalizing fuel k p with
  | nil =>
    obtain ⟨fuel, rfl⟩ := Nat.exists_eq_succ_of_ne_zero (Nat.ne_zero_of_lt hfuel)
    obtain rfl : p = none := h
    exact .inl ⟨fun x hx => absurd hx List.not_mem_nil, rfl⟩
  | cons x l ih =>
    obtain ⟨a, d⟩ := x
    obtain ⟨fuel, rfl⟩ := Nat.exists_eq_succ_of_ne_zero (Nat.ne_zero_of_lt hfuel)
    obtain ⟨rfl, n, hcell, hseg⟩ := h
    have hstep : S.find test (fuel + 1) k (some a) =
        if test d then some (some (k, a, d)) else S.find test fuel (.next a) n := by
      rw [Store.find, hcell]
    by_cases hd : test d = true
    · refine .inr ⟨[], a, d, l, rfl, fun x hx => absurd hx List.not_mem_nil, hd, ?_⟩
      rw [hstep, if_pos hd]
      rfl
    have hd' : test d = false := by simpa using hd
    rw [hstep, if_neg hd]
    rcases ih (k := .next a) hseg (Nat.lt_of_succ_lt_succ hfuel) with
      ⟨hall, hfind⟩ | ⟨l₁, b, e, l₂, rfl, hall, he, hfind⟩
    · exact .inl ⟨List.forall_mem_cons.mpr ⟨hd', hall⟩, hfind⟩
    refine .inr ⟨(a, d) :: l₁, b, e, l₂, rfl, List.forall_mem_cons.mpr ⟨hd', hall⟩, he, ?_⟩
    rw [hfind, lastLink, lastLink, List.getLast?_cons]
    cases l₁.getLast? with
    | none => rfl
    | some y => rfl

/-! ## Lists -/

/-- The heap holds these lists. -/
structure Represents (S : Store I A D) (L : I → List (A × D)) : Prop where
  chain : ∀ i, Seg S.cell (S.anchor i) (L i) none
  nodup : ∀ i, ((L i).map Prod.fst).Nodup
  disjoint : ∀ i j, i ≠ j → ∀ x ∈ L i, ∀ y ∈ L j, x.1 ≠ y.1
  exhaustive : ∀ a, S.cell a ≠ none → ∃ i, a ∈ (L i).map Prod.fst

theorem represents_empty :
    Represents (⟨fun _ => none, fun _ => none⟩ : Store I A D) fun _ => [] where
  chain _ := rfl
  nodup _ := List.nodup_nil
  disjoint _ _ _ _ hx := absurd hx List.not_mem_nil
  exhaustive _ h := absurd rfl h

variable {S S' : Store I A D} {L : I → List (A × D)}

theorem Represents.cell_ne_none (h : Represents S L) (hx : x ∈ L i) : S.cell x.1 ≠ none := by
  obtain ⟨n, hcell⟩ := (h.chain i).cell_of_mem (a := x.1) (d := x.2) hx
  rw [hcell]
  exact Option.some_ne_none _

theorem Represents.anchor_eq_none (h : Represents S L) : S.anchor i = none ↔ L i = [] := by
  have hchain := h.chain i
  rcases hl : L i with _ | ⟨x, l⟩
  · rw [hl] at hchain
    exact iff_of_true hchain rfl
  · rw [hl] at hchain
    rw [hchain.1]
    simp

theorem Represents.not_mem_of_ne (h : Represents S L) (hij : j ≠ i)
    (hx : x ∈ L j) : x.1 ∉ (L i).map Prod.fst := by
  intro hin
  obtain ⟨y, hy, heq⟩ := List.mem_map.mp hin
  exact h.disjoint j i hij x hx y hy heq.symm

variable [DecidableEq I] [DecidableEq A]

omit [DecidableEq A] in
/-- Where cells have been taken out of one list, those are free. -/
theorem Represents.cell_eq_none_iff (h : Represents S L)
    (h' : Represents S' (update L i l)) (hsub : l ⊆ L i) (hx : x ∈ L i) :
    S'.cell x.1 = none ↔ x ∉ l := by
  constructor
  · intro hcell hl
    refine h'.cell_ne_none (i := i) ?_ hcell
    rwa [update_self]
  intro hl
  by_contra hcell
  obtain ⟨j, hj⟩ := h'.exhaustive x.1 hcell
  obtain ⟨y, hy, hfst⟩ := List.mem_map.mp hj
  rcases eq_or_ne j i with rfl | hne
  · rw [update_self] at hy
    exact hl (List.inj_on_of_nodup_map (h.nodup j) (hsub hy) hx hfst ▸ hy)
  · rw [update_of_ne hne] at hy
    exact h.disjoint j i hne y hy x hx hfst

/-- One list is replaced, the others are left alone. -/
theorem Represents.replace (h : Represents S L)
    (hchain : Seg S'.cell (S'.anchor i) l none) (hnodup : (l.map Prod.fst).Nodup)
    (hanchor : ∀ j, j ≠ i → S'.anchor j = S.anchor j)
    (hcell : ∀ a, a ∉ (L i).map Prod.fst → S.cell a ≠ none → S'.cell a = S.cell a)
    (hnew : ∀ x ∈ l, x.1 ∈ (L i).map Prod.fst ∨ S.cell x.1 = none)
    (hfreed : ∀ a, S'.cell a ≠ none → a ∉ l.map Prod.fst →
      S.cell a ≠ none ∧ a ∉ (L i).map Prod.fst) :
    Represents S' (update L i l) := by
  have hapart {j : I} (hj : j ≠ i) : ∀ x ∈ L j, ∀ y ∈ l, x.1 ≠ y.1 := by
    intro x hx y hy heq
    rcases hnew y hy with hold | hfree
    · exact h.not_mem_of_ne hj hx (heq ▸ hold)
    · exact h.cell_ne_none hx (heq ▸ hfree)
  refine ⟨fun j => ?_, fun j => ?_, fun j k hjk => ?_, fun a ha => ?_⟩
  · rcases eq_or_ne j i with rfl | hne
    · rwa [update_self]
    · rw [update_of_ne hne, hanchor j hne]
      exact (h.chain j).congr fun x hx =>
        hcell x.1 (h.not_mem_of_ne hne hx) (h.cell_ne_none hx)
  · rcases eq_or_ne j i with rfl | hne
    · rwa [update_self]
    · rw [update_of_ne hne]
      exact h.nodup j
  · rcases eq_or_ne j i with rfl | hj
    · rw [update_self, update_of_ne hjk.symm]
      exact fun x hx y hy heq => hapart hjk.symm y hy x hx heq.symm
    rw [update_of_ne hj]
    rcases eq_or_ne k i with rfl | hk
    · rw [update_self]
      exact hapart hj
    · rw [update_of_ne hk]
      exact h.disjoint j k hjk
  · by_cases hin : a ∈ l.map Prod.fst
    · exact ⟨i, by rwa [update_self]⟩
    obtain ⟨hold, hnot⟩ := hfreed a ha hin
    obtain ⟨j, hj⟩ := h.exhaustive a hold
    have hne : j ≠ i := by
      rintro rfl
      exact hnot hj
    exact ⟨j, by rwa [update_of_ne hne]⟩

/-! ## A new cell -/

/-- A cell is put in front of a list. -/
def Store.push (S : Store I A D) (i : I) (a : A) (d : D) : Store I A D where
  anchor := Function.update S.anchor i (some a)
  cell := Function.update S.cell a (some (d, S.anchor i))

/-- **The new cell is the first of its list.** -/
theorem Represents.push (h : Represents S L) (i : I) (ha : S.cell a = none) (d : D) :
    Represents (S.push i a d) (update L i ((a, d) :: L i)) := by
  have hne {b : A} (hb : S.cell b ≠ none) : b ≠ a := by
    rintro rfl
    exact hb ha
  refine h.replace ?_ ?_ (fun j hj => update_of_ne hj _ _)
    (fun b _ hb => update_of_ne (hne hb) _ _) ?_ fun b hb hnot => ?_
  · refine ⟨update_self _ _ _, S.anchor i, update_self _ _ _, ?_⟩
    exact (h.chain i).congr fun x hx => update_of_ne (hne (h.cell_ne_none hx)) _ _
  · rw [List.map_cons, List.nodup_cons]
    refine ⟨fun hin => ?_, h.nodup i⟩
    obtain ⟨x, hx, hxa⟩ := List.mem_map.mp hin
    exact hne (h.cell_ne_none hx) hxa
  · intro x hx
    rcases List.mem_cons.mp hx with rfl | hx
    · exact .inr ha
    · exact .inl (List.mem_map_of_mem hx)
  · rw [List.map_cons, List.mem_cons, not_or] at hnot
    have hold : (S.push i a d).cell b = S.cell b := update_of_ne hnot.1 _ _
    exact ⟨hold ▸ hb, hnot.2⟩

/-! ## Unlinking -/

/-- A write to the place of a pointer. -/
def Store.write (S : Store I A D) (k : Link I A) (p : Option A) : Store I A D :=
  match k with
  | .anchor i => { S with anchor := Function.update S.anchor i p }
  | .next a => { S with cell := Function.update S.cell a ((S.cell a).map fun c => (c.1, p)) }

/-- A cell is given back. -/
def Store.free (S : Store I A D) (a : A) : Store I A D :=
  { S with cell := Function.update S.cell a none }

/-- The cell to which the pointer at `k` points is taken out of its list and freed. -/
def Store.unlink (S : Store I A D) (k : Link I A) (a : A) : Option (Store I A D) :=
  match S.cell a with
  | none => none
  | some (_, n) => some ((S.write k n).free a)

omit [DecidableEq I] in
/-- The pointer at the end of a segment is written. -/
theorem Seg.redirect {b : A} {e : D} (h : Seg cell p (l ++ [(b, e)]) q) (hb : b ∉ l.map Prod.fst)
    (n : Option A) : Seg (update cell b (some (e, n))) p (l ++ [(b, e)]) n := by
  obtain ⟨r, hl, hr, -⟩ := seg_append.mp h
  refine seg_append.mpr ⟨r, hl.congr fun x hx => ?_, hr, n, update_self _ _ _, rfl⟩
  refine update_of_ne ?_ _ _
  rintro rfl
  exact hb (List.mem_map_of_mem hx)

theorem Store.write_cell (S : Store I A D) (k : Link I A) (p : Option A)
    (ha : k ≠ .next a) : (S.write k p).cell a = S.cell a := by
  cases k with
  | anchor i => rfl
  | next b => exact update_of_ne (fun heq : a = b => ha (congrArg Link.next heq.symm)) _ _

theorem Store.write_cell_eq_none (S : Store I A D) (k : Link I A) (p : Option A) (a : A) :
    (S.write k p).cell a = none ↔ S.cell a = none := by
  cases k with
  | anchor i => exact Iff.rfl
  | next b =>
    show update S.cell b _ a = none ↔ _
    rcases eq_or_ne a b with rfl | hne
    · rw [update_self, Option.map_eq_none_iff]
    · rw [update_of_ne hne]

/-- After the write, the first part of the list ends where the pointer now points. -/
theorem Seg.write
    (h : Seg S.cell (S.anchor i) l q) (hnodup : (l.map Prod.fst).Nodup) (n : Option A) :
    Seg (S.write (lastLink (.anchor i) l) n).cell
      ((S.write (lastLink (.anchor i) l) n).anchor i) l n := by
  rcases List.eq_nil_or_concat' l with rfl | ⟨m, ⟨b, e⟩, rfl⟩
  · exact update_self _ _ _
  have hlink : lastLink (.anchor i) (m ++ [(b, e)]) = (.next b : Link I A) := by
    rw [lastLink, List.getLast?_concat]
  obtain ⟨r, -, -, n', hcell, -⟩ := seg_append.mp h
  have hb : b ∉ m.map Prod.fst := by
    rw [List.map_append] at hnodup
    intro hin
    exact (List.nodup_append.mp hnodup).2.2 b hin b List.mem_cons_self rfl
  have hwrite : (S.write (.next b) n).cell = update S.cell b (some (e, n)) := by
    show update S.cell b ((S.cell b).map _) = _
    rw [hcell]
    rfl
  rw [hlink, hwrite]
  exact h.redirect hb n

/-- **The cell that is unlinked** is gone, and the order of the others is as before. -/
theorem Represents.unlink (h : Represents S L) (hl : L i = l₁ ++ (a, d) :: l₂) :
    ∃ S', S.unlink (lastLink (.anchor i) l₁) a = some S' ∧
      Represents S' (update L i (l₁ ++ l₂)) := by
  obtain ⟨p, hseg₁, rfl, n, hcell, hseg₂⟩ := seg_append.mp (hl ▸ h.chain i)
  have hnodup := h.nodup i
  rw [hl, List.map_append, List.map_cons] at hnodup
  obtain ⟨hn₁, hn₂, hdis⟩ := List.nodup_append.mp hnodup
  obtain ⟨ha₂, hn₂⟩ := List.nodup_cons.mp hn₂
  have ha₁ : a ∉ l₁.map Prod.fst := fun hin => hdis a hin a List.mem_cons_self rfl
  have hmem (x : A) : x ∈ (L i).map Prod.fst ↔
      x ∈ (l₁ ++ l₂).map Prod.fst ∨ x = a := by
    rw [hl]
    simp only [List.map_append, List.map_cons, List.mem_append, List.mem_cons]
    tauto
  have hother {x : A} (hxa : x ≠ a) (hx : x ∉ l₁.map Prod.fst) :
      ((S.write (lastLink (.anchor i) l₁) n).free a).cell x = S.cell x :=
    (update_of_ne hxa _ _).trans
      (S.write_cell _ n (lastLink_ne (fun heq => by cases heq) hx))
  refine ⟨(S.write (lastLink (.anchor i) l₁) n).free a, ?_, h.replace ?_ ?_ ?_ ?_ ?_ ?_⟩
  · rw [Store.unlink, hcell]
  · refine seg_append.mpr ⟨n, (hseg₁.write hn₁ n).congr fun x hx => ?_, hseg₂.congr fun x hx => ?_⟩
    · refine update_of_ne ?_ _ _
      rintro rfl
      exact ha₁ (List.mem_map_of_mem hx)
    · have hx₂ : x.1 ∈ l₂.map Prod.fst := List.mem_map_of_mem hx
      refine hother ?_ fun hx₁ => hdis x.1 hx₁ x.1 (List.mem_cons_of_mem _ hx₂) rfl
      rintro rfl
      exact ha₂ hx₂
  · rw [List.map_append]
    refine List.nodup_append.mpr ⟨hn₁, hn₂, fun x hx y hy => ?_⟩
    exact hdis x hx y (List.mem_cons_of_mem _ hy)
  · intro j hj
    show (S.write (lastLink (.anchor i) l₁) n).anchor j = _
    unfold lastLink
    split
    · exact update_of_ne hj _ _
    · rfl
  · intro x hx _
    rw [hmem, not_or, List.map_append, List.mem_append, not_or] at hx
    exact hother hx.2 hx.1.1
  · intro x hx
    exact .inl ((hmem x.1).mpr (.inl (List.mem_map_of_mem hx)))
  intro x hx hnot
  have hxa : x ≠ a := by
    rintro rfl
    exact hx (update_self _ _ _)
  have hold : ((S.write (lastLink (.anchor i) l₁) n).free a).cell x =
      (S.write (lastLink (.anchor i) l₁) n).cell x := update_of_ne hxa _ _
  rw [hold, ne_eq, Store.write_cell_eq_none] at hx
  exact ⟨hx, fun hin => ((hmem x).mp hin).elim hnot hxa⟩

/-! ## Freeing a list -/

/-- The cells of a list are freed, from the first to the last. -/
def Store.clear (i : I) : ℕ → Store I A D → Option (Store I A D)
  | 0, _ => none
  | fuel + 1, S =>
    match S.anchor i with
    | none => some S
    | some a =>
      match S.cell a with
      | none => none
      | some (_, n) => Store.clear i fuel ((S.free a).write (.anchor i) n)

/-- **The list that is freed** is empty afterwards. -/
theorem Represents.clear (h : Represents S L) (i : I) (hfuel : (L i).length < fuel) :
    ∃ S', Store.clear i fuel S = some S' ∧ Represents S' (update L i []) := by
  induction fuel generalizing S L with
  | zero => exact absurd hfuel (Nat.not_lt_zero _)
  | succ fuel ih =>
    have hchain := h.chain i
    cases hl : L i with
    | nil =>
      rw [hl] at hchain
      have hnone : S.anchor i = none := hchain
      refine ⟨S, by rw [Store.clear, hnone], ?_⟩
      rwa [← hl, update_eq_self]
    | cons x l =>
      obtain ⟨a, d⟩ := x
      rw [hl] at hchain hfuel
      obtain ⟨hanchor, n, hcell, -⟩ := hchain
      obtain ⟨S₁, hunlink, hS₁⟩ := h.unlink (hl.trans (List.nil_append _).symm)
      rw [Store.unlink, hcell] at hunlink
      have hS : (S.free a).write (.anchor i) n = S₁ := Option.some.inj hunlink
      obtain ⟨S', hclear, hS'⟩ := ih hS₁ (by
        rw [update_self, List.nil_append]
        exact Nat.lt_of_succ_lt_succ hfuel)
      refine ⟨S', ?_, ?_⟩
      · rw [Store.clear, hanchor]
        show (match S.cell a with
          | none => none
          | some (_, n) => Store.clear i fuel ((S.free a).write (.anchor i) n)) = _
        rw [hcell]
        show Store.clear i fuel ((S.free a).write (.anchor i) n) = some S'
        rwa [hS]
      · rwa [update_idem] at hS'

/-! ## Appending, and changing the anchor -/

/-- A new cell that points nowhere. -/
def Store.put (S : Store I A D) (a : A) (d : D) : Store I A D :=
  { S with cell := Function.update S.cell a (some (d, none)) }

/-- **A new cell is appended**, by a write to the place where the list ends. -/
theorem Represents.append (h : Represents S L) (i : I) (ha : S.cell a = none) (d : D) :
    Represents ((S.put a d).write (lastLink (.anchor i) (L i)) (some a))
      (update L i (L i ++ [(a, d)])) := by
  have hne {b : A} (hb : S.cell b ≠ none) : b ≠ a := by
    rintro rfl
    exact hb ha
  have hnot : a ∉ (L i).map Prod.fst := by
    intro hin
    obtain ⟨x, hx, hxa⟩ := List.mem_map.mp hin
    exact hne (h.cell_ne_none hx) hxa
  have hput {b : A} (hb : b ≠ a) : (S.put a d).cell b = S.cell b := update_of_ne hb _ _
  have hseg : Seg (S.put a d).cell ((S.put a d).anchor i) (L i) none :=
    (h.chain i).congr fun x hx => hput (hne (h.cell_ne_none hx))
  have hcell (b : A) (hb : b ∉ (L i).map Prod.fst) :
      ((S.put a d).write (lastLink (.anchor i) (L i)) (some a)).cell b = (S.put a d).cell b :=
    (S.put a d).write_cell _ _ (lastLink_ne nofun hb)
  refine h.replace ?_ ?_ (fun j hj => ?_) (fun b hb hlive => ?_) ?_ fun b hb hin => ?_
  · refine seg_append.mpr ⟨some a, hseg.write (h.nodup i) (some a), rfl, none, ?_, rfl⟩
    rw [hcell a hnot]
    exact update_self _ _ _
  · rw [List.map_append]
    refine List.nodup_append.mpr ⟨h.nodup i, List.nodup_singleton a, fun x hx y hy heq => ?_⟩
    obtain rfl : x = a := heq.trans (List.mem_singleton.mp hy)
    exact hnot hx
  · unfold lastLink
    split
    · exact update_of_ne hj _ _
    · rfl
  · rw [hcell b hb, hput (hne hlive)]
  · intro x hx
    rcases List.mem_append.mp hx with hx | hx
    · exact .inl (List.mem_map_of_mem hx)
    · rw [List.mem_singleton.mp hx]
      exact .inr ha
  · rw [List.map_append, List.mem_append, not_or] at hin
    obtain ⟨hin, hba⟩ := hin
    rw [hcell b hin, hput fun heq => hba (List.mem_singleton.mpr heq)] at hb
    exact ⟨hb, hin⟩

/-- A list changes its anchor. -/
def Store.rename (S : Store I A D) (i j : I) : Store I A D :=
  { S with anchor := Function.update (Function.update S.anchor j (S.anchor i)) i none }

omit [DecidableEq A] in
/-- **The list is found at its new anchor.** -/
theorem Represents.rename (h : Represents S L) (hij : j ≠ i) (hj : L j = []) :
    Represents (S.rename i j) (update (update L j (L i)) i []) := by
  -- where the lists stand now
  have hlist (k : I) : update (update L j (L i)) i [] k =
      if k = i then [] else if k = j then L i else L k := by
    simp only [update_apply]
  have hanchor (k : I) : (S.rename i j).anchor k =
      if k = i then none else if k = j then S.anchor i else S.anchor k := by
    simp only [Store.rename, update_apply]
  refine ⟨fun k => ?_, fun k => ?_, fun k k' hkk => ?_, fun a ha => ?_⟩
  · rw [hlist, hanchor]
    split
    · rfl
    · split
      · exact h.chain i
      · exact h.chain k
  · rw [hlist]
    split
    · exact List.nodup_nil
    · split
      · exact h.nodup i
      · exact h.nodup k
  · rw [hlist, hlist]
    intro x hx y hy
    split at hx
    · cases hx
    rename_i hki
    split at hy
    · cases hy
    rename_i hki'
    split at hx
    · rename_i hkj
      split at hy
      · rename_i hkj'
        exact absurd (hkj.trans hkj'.symm) hkk
      · exact h.disjoint i k' (Ne.symm hki') x hx y hy
    · split at hy
      · exact h.disjoint k i hki x hx y hy
      · exact h.disjoint k k' hkk x hx y hy
  · obtain ⟨k, hk⟩ := h.exhaustive a ha
    have hkj : k ≠ j := by
      rintro rfl
      rw [hj] at hk
      cases hk
    rcases eq_or_ne k i with rfl | hki
    · exact ⟨j, by rw [hlist, if_neg hij, if_pos rfl]; exact hk⟩
    · exact ⟨k, by rw [hlist, if_neg hki, if_neg hkj]; exact hk⟩

end SoftPatchPanel.LinkedList
