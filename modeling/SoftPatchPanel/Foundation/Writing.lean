import SoftPatchPanel.Foundation.CString

/-!
# Texts that are put together in buffers

A program puts a text together piece by piece, in buffers of a fixed size, and a piece may not fit.
What happens then depends on the piece.  Its length may be compared with the room that is left, so
that it is *noticed*; the comparison may forget the byte at the end of the text and come one
character too *late*; or there may be no comparison, and it is *unnoticed*.

All that matters of a piece is therefore how full its buffer is behind it and how it is watched,
a `Mark`.  A program that stops at the first piece that does not fit has the `outcome` of its marks:
the text, a failure that has been noticed, or a write over the end of a buffer.  Outcomes are put
together as the texts are (`next_outcome`), and they are never wrong if and only if the first piece
that does not fit is noticed (`outcome_ne_error_iff`).
-/

namespace SoftPatchPanel.Writing

/-- How a piece is watched. -/
inductive Care where
  | noticed | late | unnoticed
  deriving DecidableEq

/-- How full the buffer is behind a piece, without the byte at the end, and how it is watched. -/
structure Mark where
  fill : ℕ
  care : Care
  deriving DecidableEq

/-- If the piece does not fit then it is noticed. -/
def Mark.Seen (size : ℕ) (m : Mark) : Prop := m.care = .noticed ∨ (m.care = .late ∧ size < m.fill)

instance (size : ℕ) (m : Mark) : Decidable (m.Seen size) := inferInstanceAs (Decidable (_ ∨ _))

/-- The first piece that does not fit. -/
def firstOver (size : ℕ) (ms : List Mark) : Option Mark := ms.find? fun m => size ≤ m.fill

/-- The first piece that does not fit is noticed. -/
def AllSeen (size : ℕ) (ms : List Mark) : Prop := ∀ m ∈ firstOver size ms, m.Seen size

instance (size : ℕ) (ms : List Mark) : Decidable (AllSeen size ms) :=
  inferInstanceAs (Decidable (∀ m ∈ firstOver size ms, m.Seen size))

variable {ε α β : Type} {e : ε} {size n : ℕ} {ms : List Mark} {m : Mark} {r : β} {a : α}
  {f : α → Except ε (Option β)} {ps : List (CString × Care)}

/-- What a program makes of its pieces: the result, a failure, or an error. -/
def outcome (e : ε) (size : ℕ) (ms : List Mark) (r : α) : Except ε (Option α) :=
  match firstOver size ms with
  | none => .ok (some r)
  | some m => if m.Seen size then .ok none else .error e

/-- Go on unless there has been a failure. -/
def next (x : Except ε (Option α)) (f : α → Except ε (Option β)) : Except ε (Option β) :=
  match x with
  | .error e => .error e
  | .ok none => .ok none
  | .ok (some a) => f a

/-! ## Lists of pieces -/

theorem firstOver_append (ms ms' : List Mark) :
    firstOver size (ms ++ ms') = (firstOver size ms).or (firstOver size ms') :=
  List.find?_append

theorem firstOver_eq_none_iff : firstOver size ms = none ↔ ∀ m ∈ ms, m.fill < size := by
  simp [firstOver]

theorem mem_of_firstOver (h : firstOver size ms = some m) : m ∈ ms ∧ size ≤ m.fill := by
  have hover := List.find?_some h
  exact ⟨List.mem_of_find?_eq_some h, of_decide_eq_true hover⟩

theorem firstOver_cons_of_le (h : size ≤ m.fill) (ms : List Mark) :
    firstOver size (m :: ms) = some m := by
  rw [firstOver, List.find?_cons_of_pos (by simpa using h)]

theorem firstOver_cons_of_lt (h : m.fill < size) (ms : List Mark) :
    firstOver size (m :: ms) = firstOver size ms := by
  rw [firstOver, List.find?_cons_of_neg (by simpa using h), firstOver]

theorem outcome_of_fits (h : ∀ m ∈ ms, m.fill < size) (r : α) :
    outcome e size ms r = .ok (some r) := by
  rw [outcome, firstOver_eq_none_iff.mpr h]

theorem outcome_cons_of_lt (h : m.fill < size) (ms : List Mark) (r : α) :
    outcome e size (m :: ms) r = outcome e size ms r := by
  rw [outcome, firstOver_cons_of_lt h, outcome]

theorem outcome_cons_of_le (h : size ≤ m.fill) (ms : List Mark) (r : α) :
    outcome e size (m :: ms) r = if m.Seen size then .ok none else .error e := by
  rw [outcome, firstOver_cons_of_le h]

/-- **Outcomes are put together** as the pieces are. -/
theorem next_outcome {ms' : List Mark}
    (hf : (∀ m ∈ ms, m.fill < size) → f a = outcome e size ms' r) :
    next (outcome e size ms a) f = outcome e size (ms ++ ms') r := by
  unfold outcome
  rw [firstOver_append]
  cases h : firstOver size ms with
  | none => exact hf (firstOver_eq_none_iff.mp h)
  | some m =>
    show next (if m.Seen size then _ else _) f = if m.Seen size then _ else _
    split <;> rfl

theorem next_outcome_done
    (hf : f a = .ok (some r)) : next (outcome e size ms a) f = outcome e size ms r := by
  have hdone : f a = outcome e size [] r := hf
  rw [next_outcome fun _ => hdone, List.append_nil]

/-- A failure that is noticed whenever the text does not fit. -/
theorem outcome_eq_ite_iff (hn : (∀ m ∈ ms, m.fill < size) ↔ n < size)
    {r : α} : outcome e size ms r = .ok (if n < size then some r else none) ↔ AllSeen size ms := by
  rw [← firstOver_eq_none_iff] at hn
  unfold outcome AllSeen
  cases hfirst : firstOver size ms with
  | none => simp [hn.mp hfirst]
  | some m =>
    have hover : ¬ n < size := fun hlt => by
      rw [hn.mpr hlt] at hfirst
      cases hfirst
    simp only [if_neg hover, Option.mem_some_iff, forall_eq']
    split
    · rename_i hseen
      exact iff_of_true rfl hseen
    · rename_i hseen
      exact iff_of_false (by simp) hseen

/-- A text that is cut at the end, when all pieces have been found to fit. -/
theorem next_cut_iff (hn : ∀ m ∈ ms, m.fill ≤ n) {s : β}
    (hf : (∀ m ∈ ms, m.fill < size) → f a = .ok (some s)) (hs : n < size → s = r) :
    next (outcome e size ms a) f = .ok (if n < size then some r else none) ↔
      AllSeen size (ms ++ [⟨n, .unnoticed⟩]) := by
  unfold AllSeen
  rw [firstOver_append]
  cases hfirst : firstOver size ms with
  | none =>
    have hfits := firstOver_eq_none_iff.mp hfirst
    rw [outcome_of_fits hfits, Option.none_or]
    show f a = _ ↔ _
    rw [hf hfits]
    by_cases hlt : n < size
    · rw [if_pos hlt, hs hlt, firstOver_cons_of_lt hlt]
      exact iff_of_true rfl fun m hm => by cases hm
    rw [if_neg hlt, firstOver_cons_of_le (by simpa using hlt)]
    refine iff_of_false (by simp) fun hall => ?_
    rcases hall _ rfl with hcare | hcare
    · cases hcare
    · cases hcare.1
  | some m =>
    obtain ⟨hm, hover⟩ := mem_of_firstOver hfirst
    have hle := hn m hm
    rw [outcome, hfirst, if_neg (show ¬ n < size by omega)]
    show next (if m.Seen size then _ else _) f = _ ↔ _
    simp only [Option.some_or, Option.mem_some_iff, forall_eq']
    split
    · rename_i hseen
      exact iff_of_true rfl hseen
    · rename_i hseen
      exact iff_of_false (by simp [next]) hseen

theorem next_assoc {γ : Type} (x : Except ε (Option α)) (f : α → Except ε (Option β))
    (g : β → Except ε (Option γ)) : next (next x f) g = next x fun a => next (f a) g := by
  rcases x with e | _ | a <;> rfl

/-! ## Pieces in one buffer -/

/-- The marks of pieces that follow each other in a buffer with a text of length `n`. -/
def marks : ℕ → List (CString × Care) → List Mark
  | _, [] => []
  | n, p :: ps => ⟨n + p.1.length, p.2⟩ :: marks (n + p.1.length) ps

/-- The text of some pieces. -/
def text (ps : List (CString × Care)) : CString := ps.flatMap Prod.fst

theorem append_text_cons (s : CString) (p : CString × Care) (ps : List (CString × Care)) :
    s ++ text (p :: ps) = s ++ p.1 ++ text ps := by
  rw [text, List.flatMap_cons, List.append_assoc, text]

/-- One piece is written, and then the others. -/
theorem next_piece {s : CString} {p : CString × Care} {f : CString → Except ε (Option β)}
    (hf : (s ++ p.1).length < size → f (s ++ p.1) = outcome e size (marks (s ++ p.1).length ps) r) :
    next (outcome e size [⟨s.length + p.1.length, p.2⟩] (s ++ p.1)) f =
      outcome e size (marks s.length (p :: ps)) r := by
  rw [List.length_append] at hf
  exact next_outcome fun hfits => hf (hfits _ (List.mem_singleton_self _))

theorem marks_append (n : ℕ) (ps qs : List (CString × Care)) :
    marks n (ps ++ qs) = marks n ps ++ marks (n + (text ps).length) qs := by
  induction ps generalizing n with
  | nil => rfl
  | cons p ps ih =>
    have hlen : (text (p :: ps)).length = p.1.length + (text ps).length := List.length_append ..
    rw [List.cons_append, marks, marks, ih, hlen, List.cons_append, ← Nat.add_assoc]

theorem fill_le_of_mem_marks (h : m ∈ marks n ps) : m.fill ≤ n + (text ps).length := by
  induction ps generalizing n with
  | nil => cases h
  | cons p ps ih =>
    rw [text, List.flatMap_cons, List.length_append]
    rcases List.mem_cons.mp h with rfl | h
    · show n + p.1.length ≤ _
      omega
    · have hle : m.fill ≤ n + p.1.length + (ps.flatMap Prod.fst).length := ih h
      omega

/-! ## Lists of texts -/

section Parts

variable (size) {l : List α}

/-- Texts are made one by one in a buffer of their own, and appended with commas between them; the
room for a text and for the comma behind it is looked at. -/
def partsLoop (one : α → Except ε (Option CString)) : List α → CString → Except ε (Option CString)
  | [], s => .ok (some s)
  | a :: rest, s =>
    next (one a) fun t =>
      if size ≤ s.length + t.length then .ok none
      else
        match rest with
        | [] => .ok (some (s ++ t))
        | _ :: _ =>
          if size ≤ s.length + t.length + 1 then .ok none
          else partsLoop one rest (s ++ t ++ [','])

/-- The marks of such a list. -/
def partsMarks (ms : α → List Mark) (t : α → CString) : List α → ℕ → List Mark
  | [], _ => []
  | [a], n => ms a ++ [⟨n + (t a).length, .noticed⟩]
  | a :: b :: rest, n =>
    ms a ++ ⟨n + (t a).length, .noticed⟩ :: ⟨n + (t a).length + 1, .noticed⟩ ::
      partsMarks ms t (b :: rest) (n + (t a).length + 1)

variable {size} {ms : α → List Mark} {t : α → CString}

theorem partsLoop_eq {one : α → Except ε (Option CString)}
    (hone : ∀ a ∈ l, one a = outcome e size (ms a) (t a)) (s : CString) :
    partsLoop size one l s =
      outcome e size (partsMarks ms t l s.length) (s ++ [','].intercalate (l.map t)) := by
  induction l generalizing s with
  | nil =>
    rw [partsLoop, partsMarks, List.map_nil, List.intercalate_nil, List.append_nil]
    rfl
  | cons a rest ih =>
    rw [List.forall_mem_cons] at hone
    rw [partsLoop, hone.1]
    cases rest with
    | nil =>
      rw [partsMarks]
      refine next_outcome fun _ => ?_
      by_cases hfull : size ≤ s.length + (t a).length
      · rw [if_pos hfull, outcome_cons_of_le hfull, if_pos (.inl rfl)]
      · rw [if_neg hfull, outcome_cons_of_lt (by simpa using hfull), List.map_singleton,
          List.intercalate_singleton]
        rfl
    | cons b rest =>
      rw [partsMarks]
      refine next_outcome fun _ => ?_
      have hlen : (s ++ t a ++ [',']).length = s.length + (t a).length + 1 := by
        rw [List.length_append, List.length_append, List.length_singleton]
      by_cases hfull : size ≤ s.length + (t a).length
      · rw [if_pos hfull, outcome_cons_of_le hfull, if_pos (.inl rfl)]
      rw [if_neg hfull, outcome_cons_of_lt (by simpa using hfull)]
      by_cases hcomma : size ≤ s.length + (t a).length + 1
      · simp only [if_pos hcomma]
        rw [outcome_cons_of_le hcomma, if_pos (.inl rfl)]
      simp only [if_neg hcomma]
      rw [ih hone.2, outcome_cons_of_lt (by simpa using hcomma), hlen, List.map_cons,
        List.map_cons, List.map_cons, List.intercalate_cons_cons]
      simp only [List.append_assoc]

theorem fill_le_of_mem_partsMarks
    (hms : ∀ a ∈ l, ∀ m ∈ ms a, m.fill ≤ (t a).length) {n : ℕ} {m : Mark}
    (h : m ∈ partsMarks ms t l n) : m.fill ≤ n + ([','].intercalate (l.map t)).length := by
  induction l generalizing n with
  | nil => cases h
  | cons a rest ih =>
    rw [List.forall_mem_cons] at hms
    cases rest with
    | nil =>
      rw [List.map_singleton, List.intercalate_singleton]
      rw [partsMarks, List.mem_append, List.mem_singleton] at h
      rcases h with h | rfl
      · have := hms.1 m h
        omega
      · exact Nat.le_refl _
    | cons b rest =>
      rw [List.map_cons, List.map_cons, List.intercalate_cons_cons, List.length_append,
        List.length_append, List.length_singleton]
      rw [partsMarks, List.mem_append, List.mem_cons, List.mem_cons] at h
      rcases h with h | rfl | rfl | h
      · have := hms.1 m h
        omega
      · show n + (t a).length ≤ _
        omega
      · show n + (t a).length + 1 ≤ _
        omega
      · have hle := ih hms.2 h
        rw [List.map_cons] at hle
        omega

end Parts

end SoftPatchPanel.Writing
