import Mathlib

/-!
# The ancestry of a tree of blocks

`Ancestry H N` is the strict-descendant relation of a tree of blocks named by
`H`, with heights in `N`: `desc a b` holds when `b` descends strictly from
`a`. It is transitive, the ancestors of a block form a chain, and the height
grows along descent, so that no block descends from itself and a name has one
height.

A forest of such blocks keeps siblings `Incomparable`. The lemmas here are the
two an algorithm over such a forest leans on: incomparable blocks have no
common descendant (`Incomparable.not_below_both`), and a descendant of one of
them stays incomparable with the other (`Incomparable.of_desc`).
-/

/-- The strict-descendant relation of a tree of blocks, and their heights. -/
structure Ancestry (H N : Type) [LinearOrder N] where
  desc : H → H → Bool
  height : H → N
  desc_trans : ∀ {a b c}, desc a b = true → desc b c = true → desc a c = true
  ancestors_chain : ∀ {a b c}, desc a c = true → desc b c = true →
    a = b ∨ desc a b = true ∨ desc b a = true
  height_lt : ∀ {a b}, desc a b = true → height a < height b

namespace Ancestry

variable {H N : Type} [LinearOrder N] (A : Ancestry H N)

def Below (a c : H) : Prop := a = c ∨ A.desc a c = true

instance [DecidableEq H] (a c : H) : Decidable (A.Below a c) :=
  inferInstanceAs (Decidable (a = c ∨ A.desc a c = true))

/-- Two distinct blocks, neither of which descends from the other. -/
structure Incomparable (a b : H) : Prop where
  ne : a ≠ b
  not_desc : A.desc a b = false
  not_desc' : A.desc b a = false

variable {A} {a b c : H}

theorem desc_irrefl (a : H) : A.desc a a = false := by
  by_contra h
  exact lt_irrefl _ (A.height_lt (Bool.not_eq_false _ ▸ h))

theorem desc_asymm (h : A.desc a b = true) : A.desc b a = false := by
  by_contra h'
  exact lt_asymm (A.height_lt h) (A.height_lt (Bool.not_eq_false _ ▸ h'))

theorem below_refl (a : H) : A.Below a a := .inl rfl

theorem below_of_desc (h : A.desc a b = true) : A.Below a b := .inr h

theorem Below.trans (hab : A.Below a b) (hbc : A.Below b c) : A.Below a c := by
  rcases hab with rfl | hab
  · exact hbc
  · rcases hbc with rfl | hbc
    · exact .inr hab
    · exact .inr (A.desc_trans hab hbc)

theorem Below.height_le (h : A.Below a b) : A.height a ≤ A.height b := by
  rcases h with rfl | h
  · exact le_rfl
  · exact le_of_lt (A.height_lt h)

theorem desc_of_desc_of_below (hab : A.desc a b = true) (hbc : A.Below b c) :
    A.desc a c = true := by
  rcases hbc with rfl | hbc
  · exact hab
  · exact A.desc_trans hab hbc

/-- Two blocks at or below a third are one block, or one descends from the
other. -/
theorem Below.comparable (ha : A.Below a c) (hb : A.Below b c) :
    a = b ∨ A.desc a b = true ∨ A.desc b a = true := by
  rcases ha with rfl | ha
  · rcases hb with rfl | hb
    · exact .inl rfl
    · exact .inr (.inr hb)
  · rcases hb with rfl | hb
    · exact .inr (.inl ha)
    · exact A.ancestors_chain ha hb

theorem Incomparable.symm (h : A.Incomparable a b) : A.Incomparable b a :=
  ⟨h.ne.symm, h.not_desc', h.not_desc⟩

/-- Incomparable blocks have no common descendant: the ancestors of a block
form a chain. -/
theorem Incomparable.not_below_both (h : A.Incomparable a b) (ha : A.Below a c) :
    ¬ A.Below b c := by
  intro hb
  rcases ha with rfl | ha
  · rcases hb with rfl | hb
    · exact h.ne rfl
    · exact absurd hb (by simp [h.not_desc'])
  · rcases hb with rfl | hb
    · exact absurd ha (by simp [h.not_desc])
    · rcases A.ancestors_chain ha hb with heq | hab | hba
      · exact h.ne heq
      · exact absurd hab (by simp [h.not_desc])
      · exact absurd hba (by simp [h.not_desc'])

theorem Incomparable.of_desc (h : A.Incomparable a b) (hac : A.desc a c = true) :
    A.Incomparable c b := by
  refine ⟨?_, ?_, ?_⟩
  · rintro rfl
    exact absurd hac (by simp [h.not_desc])
  · -- `b` below `c` would put it below `a`
    by_contra hcb
    have hab := A.desc_trans hac (Bool.not_eq_false _ ▸ hcb)
    exact absurd hab (by simp [h.not_desc])
  · by_contra hbc
    exact h.not_below_both (.inr hac) (.inr (Bool.not_eq_false _ ▸ hbc))

end Ancestry
