import Mathlib.Data.Set.Insert
import Mathlib.Logic.Function.Basic

/-!
# Patch panels

A *panel* is a set of ports and a partial map that says where each port is patched
to.  Its four operations are the ones of a patch panel: put a port in, take one out
together with every cable that ends in it, put a cable from one port to another in
place of the one that was there, and pull all cables.

An implementation does not have ports but places, each of which may be in use, has a
label, and may lead to another place.  Such a `Layout` *draws* a panel when the labels
of the places in use are its ports and the labels of the two ends of each lead are its
patches.  The four lemmas `Draws.add`, `Draws.del`, `Draws.connect` and
`Draws.disconnectAll` say what has to happen to a layout for the panel it draws to
change by the corresponding operation; labels of places in use are told apart
(`Layout.Distinct`) and leads do not leave the places in use (`Layout.Inside`).
-/

namespace SoftPatchPanel

/-- A set of ports, and where each of them is patched to. -/
@[ext]
structure Panel (α : Type*) where
  ports : Set α
  patch : α → Option α

namespace Panel

variable {α π : Type*} {d : π} {u : α}

/-- Put a port in. -/
def add (A : Panel α) (u : α) : Panel α := { A with ports := insert u A.ports }

/-- Pull all cables. -/
def disconnectAll (A : Panel α) : Panel α := { A with patch := fun _ => none }

/-- No cable ends outside the panel. -/
def Closed (A : Panel α) : Prop :=
  ∀ u v, A.patch u = some v → u ∈ A.ports ∧ v ∈ A.ports

section DecidableEq

variable [DecidableEq α] {A : Panel α} {u w v : α}

/-- Take a port out, with the cables from it and to it. -/
def del (A : Panel α) (u : α) : Panel α where
  ports := A.ports \ {u}
  patch w := if w = u ∨ A.patch w = some u then none else A.patch w

/-- Put a cable from `u` to `v`. -/
def connect (A : Panel α) (u v : α) : Panel α :=
  { A with patch := Function.update A.patch u (some v) }

theorem del_patch_eq_some : (A.del u).patch w = some v ↔ A.patch w = some v ∧ w ≠ u ∧ v ≠ u := by
  show (if w = u ∨ A.patch w = some u then none else A.patch w) = some v ↔ _
  split
  · rename_i h
    refine iff_of_false (fun h => by cases h) ?_
    rintro ⟨hp, hw, hv⟩
    rcases h with h | h
    · exact hw h
    · rw [hp] at h
      exact hv (Option.some.inj h)
  · rename_i h
    rw [not_or] at h
    refine ⟨fun hp => ⟨hp, h.1, ?_⟩, fun hp => hp.1⟩
    rintro rfl
    exact h.2 hp

theorem connect_patch_eq_some {x : α} :
    (A.connect u v).patch w = some x ↔ w = u ∧ x = v ∨ w ≠ u ∧ A.patch w = some x := by
  show Function.update A.patch u (some v) w = some x ↔ _
  by_cases h : w = u
  · subst h
    simp [eq_comm]
  · simp [h]

end DecidableEq

/-! ## Layouts -/

/-- Places that may be in use, are labelled, and may lead somewhere. -/
structure Layout (π α : Type*) where
  present : π → Prop
  label : π → α
  next : π → Option π

namespace Layout

/-- Places in use have different labels. -/
def Distinct (l : Layout π α) : Prop :=
  ∀ p q, l.present p → l.present q → l.label p = l.label q → p = q

/-- What leads somewhere is in use, and so is what it leads to. -/
def Inside (l : Layout π α) : Prop :=
  ∀ p q, l.next p = some q → l.present p ∧ l.present q

end Layout

/-- The labels of the places in use are the ports, and the labels of the ends of the
leads are the patches. -/
structure Draws (l : Layout π α) (A : Panel α) : Prop where
  ports : ∀ u, u ∈ A.ports ↔ ∃ p, l.present p ∧ l.label p = u
  patch : ∀ u v, A.patch u = some v ↔ ∃ p q, l.next p = some q ∧ l.label p = u ∧ l.label q = v

variable {l l' : Layout π α} {A : Panel α}

/-- What a layout draws is closed if its leads are. -/
theorem Draws.closed (h : Draws l A) (hin : l.Inside) : A.Closed := by
  intro u v huv
  obtain ⟨p, q, hpq, rfl, rfl⟩ := (h.patch u v).mp huv
  obtain ⟨hp, hq⟩ := hin p q hpq
  exact ⟨(h.ports _).mpr ⟨p, hp, rfl⟩, (h.ports _).mpr ⟨q, hq, rfl⟩⟩

/-- The leads of two layouts are the same, and so are the labels of what they join. -/
theorem Draws.patch_congr (h : Draws l A) (hin : l.Inside) (hnext : l'.next = l.next)
    (hlabel : ∀ p, l.present p → l'.label p = l.label p) (u v : α) :
    A.patch u = some v ↔
      ∃ p q, l'.next p = some q ∧ l'.label p = u ∧ l'.label q = v := by
  rw [h.patch, hnext]
  refine exists_congr fun p => exists_congr fun q => and_congr_right fun hpq => ?_
  obtain ⟨hp, hq⟩ := hin p q hpq
  rw [hlabel p hp, hlabel q hq]

/-- **A port is added** when one place comes into use, or is in use already. -/
theorem Draws.add (h : Draws l A) (hin : l.Inside)
    (hpresent : ∀ p, l'.present p ↔ l.present p ∨ p = d) (hd : l'.label d = u)
    (hlabel : ∀ p, l.present p → l'.label p = l.label p) (hnext : l'.next = l.next) :
    Draws l' (A.add u) where
  ports w := by
    show w = u ∨ w ∈ A.ports ↔ _
    rw [h.ports]
    constructor
    · rintro (rfl | ⟨p, hp, rfl⟩)
      · exact ⟨d, (hpresent d).mpr (Or.inr rfl), hd⟩
      · exact ⟨p, (hpresent p).mpr (Or.inl hp), hlabel p hp⟩
    · rintro ⟨p, hp, rfl⟩
      rcases (hpresent p).mp hp with hp | rfl
      · exact Or.inr ⟨p, hp, (hlabel p hp).symm⟩
      · exact Or.inl hd
  patch := h.patch_congr hin hnext hlabel

/-- **All cables are pulled** when nothing leads anywhere. -/
theorem Draws.disconnectAll (h : Draws l A) (hpresent : l'.present = l.present)
    (hlabel : l'.label = l.label) (hnext : ∀ p, l'.next p = none) :
    Draws l' A.disconnectAll where
  ports u := by
    rw [hpresent, hlabel]
    exact h.ports u
  patch u v := by
    refine iff_of_false (fun h => by cases h) ?_
    rintro ⟨p, q, hpq, -⟩
    rw [hnext p] at hpq
    cases hpq

variable [DecidableEq α]

/-- **A port is taken out** when its place goes out of use, if there is one, and the
leads from it and to it go with it. -/
theorem Draws.del (h : Draws l A) (hin : l.Inside) (hd : ∀ p, l.present p → (l.label p = u ↔ p = d))
    (hpresent : ∀ p, l'.present p ↔ l.present p ∧ p ≠ d)
    (hlabel : ∀ p, l'.present p → l'.label p = l.label p)
    (hnext : ∀ p q, l'.next p = some q ↔ l.next p = some q ∧ p ≠ d ∧ q ≠ d) :
    Draws l' (A.del u) where
  ports w := by
    show w ∈ A.ports ∧ w ≠ u ↔ _
    rw [h.ports]
    constructor
    · rintro ⟨⟨p, hp, rfl⟩, hne⟩
      have hp' : l'.present p := (hpresent p).mpr ⟨hp, fun heq => hne ((hd p hp).mpr heq)⟩
      exact ⟨p, hp', hlabel p hp'⟩
    · rintro ⟨p, hp', rfl⟩
      obtain ⟨hp, hne⟩ := (hpresent p).mp hp'
      rw [hlabel p hp']
      exact ⟨⟨p, hp, rfl⟩, fun heq => hne ((hd p hp).mp heq)⟩
  patch w v := by
    rw [del_patch_eq_some, h.patch]
    constructor
    · rintro ⟨⟨p, q, hpq, rfl, rfl⟩, hw, hv⟩
      obtain ⟨hp, hq⟩ := hin p q hpq
      have hpd : p ≠ d := fun heq => hw ((hd p hp).mpr heq)
      have hqd : q ≠ d := fun heq => hv ((hd q hq).mpr heq)
      refine ⟨p, q, (hnext p q).mpr ⟨hpq, hpd, hqd⟩, ?_, ?_⟩
      · exact hlabel p ((hpresent p).mpr ⟨hp, hpd⟩)
      · exact hlabel q ((hpresent q).mpr ⟨hq, hqd⟩)
    · rintro ⟨p, q, hpq', rfl, rfl⟩
      obtain ⟨hpq, hpd, hqd⟩ := (hnext p q).mp hpq'
      obtain ⟨hp, hq⟩ := hin p q hpq
      rw [hlabel p ((hpresent p).mpr ⟨hp, hpd⟩), hlabel q ((hpresent q).mpr ⟨hq, hqd⟩)]
      exact ⟨⟨p, q, hpq, rfl, rfl⟩, fun heq => hpd ((hd p hp).mp heq),
        fun heq => hqd ((hd q hq).mp heq)⟩

/-- **A cable is put in** when one place in use gets a new lead. -/
theorem Draws.connect (h : Draws l A) (hdist : l.Distinct) (hin : l.Inside) {p₀ q₀ : π}
    (hp₀ : l.present p₀) (hpresent : l'.present = l.present) (hlabel : l'.label = l.label)
    (hnext : ∀ p q, l'.next p = some q ↔ p = p₀ ∧ q = q₀ ∨ p ≠ p₀ ∧ l.next p = some q) :
    Draws l' (A.connect (l.label p₀) (l.label q₀)) where
  ports u := by
    rw [hpresent, hlabel]
    exact h.ports u
  patch u v := by
    rw [connect_patch_eq_some, h.patch, hlabel]
    constructor
    · rintro (⟨rfl, rfl⟩ | ⟨hne, p, q, hpq, rfl, rfl⟩)
      · exact ⟨p₀, q₀, (hnext p₀ q₀).mpr (Or.inl ⟨rfl, rfl⟩), rfl, rfl⟩
      · exact ⟨p, q, (hnext p q).mpr (Or.inr ⟨fun heq => hne (heq ▸ rfl), hpq⟩), rfl, rfl⟩
    · rintro ⟨p, q, hpq', rfl, rfl⟩
      rcases (hnext p q).mp hpq' with ⟨rfl, rfl⟩ | ⟨hne, hpq⟩
      · exact Or.inl ⟨rfl, rfl⟩
      · exact Or.inr ⟨fun heq => hne (hdist p p₀ (hin p q hpq).1 hp₀ heq), p, q, hpq, rfl, rfl⟩

end Panel
end SoftPatchPanel
