import Mathlib.Order.WellFounded

/-!
# Progress under fair scheduling

The steps of an infinite run are numbered, and `acts i n` says that step `n` is one of the
thread `i`.  A run is fair if every thread takes steps again and again.

`leads_to` is the rule for what a fair run comes to.  While something is pending there is
a thread that helps: its own step reaches the goal or lowers a rank, and the steps of
others do not raise it.  They may lower it, and then another thread may be the one that
helps.
-/

namespace SoftPatchPanel.Fairness

variable {ι α : Type*} [Preorder α] [WellFoundedLT α]

/-- Every thread takes steps again and again. -/
def Fair (acts : ι → ℕ → Prop) : Prop := ∀ i n, ∃ m ≥ n, acts i m

/-- **The rule of the helpful thread.** -/
theorem leads_to {acts : ι → ℕ → Prop} (hfair : Fair acts) {P : ι → ℕ → Prop} {Q : ℕ → Prop}
    (rank : ι → ℕ → α)
    (hother : ∀ i n, P i n → ¬ acts i n → Q (n + 1) ∨ (P i (n + 1) ∧ rank i (n + 1) = rank i n) ∨
      ∃ j, P j (n + 1) ∧ rank j (n + 1) < rank i n)
    (hacts : ∀ i n, P i n → acts i n → Q (n + 1) ∨ ∃ j, P j (n + 1) ∧ rank j (n + 1) < rank i n)
    {i : ι} {n : ℕ} (h : P i n) : ∃ m ≥ n, Q m := by
  -- outside on the rank, inside on the number of steps until the thread acts
  suffices hmain : ∀ r : α, ∀ i n, rank i n = r → P i n → ∃ m ≥ n, Q m from hmain _ i n rfl h
  intro r
  induction r using WellFoundedLT.induction with
  | ind r ih =>
    intro i n hr hP
    have hlower {n : ℕ} (hr : rank i n = r)
        (hj : ∃ j, P j (n + 1) ∧ rank j (n + 1) < rank i n) : ∃ m ≥ n, Q m := by
      obtain ⟨j, hPj, hlt⟩ := hj
      obtain ⟨m, hm, hQ⟩ := ih _ (hr ▸ hlt) j (n + 1) rfl hPj
      exact ⟨m, Nat.le_of_succ_le hm, hQ⟩
    obtain ⟨m, hm, hact⟩ := hfair i n
    obtain ⟨k, rfl⟩ := Nat.exists_eq_add_of_le hm
    clear hm
    induction k generalizing n with
    | zero =>
      rcases hacts i n hP hact with hQ | hj
      · exact ⟨n + 1, Nat.le_succ n, hQ⟩
      · exact hlower hr hj
    | succ k ihk =>
      by_cases hnow : acts i n
      · rcases hacts i n hP hnow with hQ | hj
        · exact ⟨n + 1, Nat.le_succ n, hQ⟩
        · exact hlower hr hj
      rcases hother i n hP hnow with hQ | ⟨hP', hr'⟩ | hj
      · exact ⟨n + 1, Nat.le_succ n, hQ⟩
      · obtain ⟨m, hm, hQ⟩ := ihk (n + 1) (hr'.trans hr) hP' (by
          rwa [Nat.add_right_comm, Nat.add_assoc])
        exact ⟨m, Nat.le_of_succ_le hm, hQ⟩
      · exact hlower hr hj

end SoftPatchPanel.Fairness
