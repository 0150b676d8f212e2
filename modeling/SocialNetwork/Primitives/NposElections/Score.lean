import SocialNetwork.Primitives.Arithmetic.PerThing
import SocialNetwork.Primitives.Arithmetic.ThresholdOrd

/-!
# `sp_npos_elections::is_score_better`

A solution's score is `[min_support, sum, sum_squared]`: the first two are
to be maximised, the third minimised. `is_score_better(this, that, epsilon)`
compares them component by component, each with `tcmp` and the threshold
`epsilon * that` rounded up, and accepts `this` when it is clearly better in
the first component, or not worse there and clearly better in the second, or
not worse in both and clearly smaller in the third.

A component called greater is strictly above and one called less strictly
below (`lt_of_tcmp_eq_gt`), so no score beats itself and no two scores beat
each other, whatever `epsilon` (`WeakBetter`). With `epsilon` zero every
threshold is zero and the comparison is the lexicographic order (`Lex`).
-/

namespace SocialNetwork.NposElections

open Arithmetic

/-- `ElectionScore`: `[min_support, sum, sum_squared]`, each an
`ExtendedBalance` (`u128`). -/
structure ElectionScore where
  minSupport : ℕ
  sum : ℕ
  sumSquared : ℕ
  minSupport_le : minSupport ≤ Unsigned.maxValue 128
  sum_le : sum ≤ Unsigned.maxValue 128
  sumSquared_le : sumSquared ≤ Unsigned.maxValue 128

variable {accuracy : ℕ}

/-- One component of the comparison: `thi.ge(&tha)` and
`thi.tcmp(&tha, epsilon.mul_ceil(tha))`. -/
def componentCmp (epsilon : PerThing accuracy) (thi tha : ℕ) : Bool × Ordering :=
  (decide (thi ≥ tha), tcmp 128 thi tha (epsilon.mulCeil tha))

def scoreMatch : Bool × Ordering → Bool × Ordering → Bool × Ordering → Bool
  | (_, .gt), _, _ => true
  | (true, .eq), (_, .gt), _ => true
  | (true, .eq), (true, .eq), (_, .lt) => true
  | _, _, _ => false

/-- `is_score_better`. -/
def isScoreBetter (this that : ElectionScore) (epsilon : PerThing accuracy) : Bool :=
  scoreMatch (componentCmp epsilon this.minSupport that.minSupport)
    (componentCmp epsilon this.sum that.sum) (componentCmp epsilon this.sumSquared that.sumSquared)

theorem scoreMatch_iff (c0 c1 c2 : Bool × Ordering) :
    scoreMatch c0 c1 c2 = true ↔
      c0.2 = .gt ∨ (c0 = (true, .eq) ∧ c1.2 = .gt) ∨
        (c0 = (true, .eq) ∧ c1 = (true, .eq) ∧ c2.2 = .lt) := by
  revert c0 c1 c2
  decide

/-! ## Any `epsilon`: a strict order -/

/-- What an accepted comparison says of the values, whatever the thresholds:
strictly above in the first component, or not below there and strictly above
in the second, or not below in both and strictly below in the third. -/
def WeakBetter (a b : ElectionScore) : Prop :=
  b.minSupport < a.minSupport ∨ (b.minSupport ≤ a.minSupport ∧ b.sum < a.sum) ∨
    (b.minSupport ≤ a.minSupport ∧ b.sum ≤ a.sum ∧ a.sumSquared < b.sumSquared)

section Component

variable {epsilon : PerThing accuracy} {x y : ℕ}

theorem lt_of_componentCmp_gt (hy : y ≤ Unsigned.maxValue 128)
    (h : (componentCmp epsilon x y).2 = .gt) : y < x :=
  lt_of_tcmp_eq_gt hy h

theorem lt_of_componentCmp_lt (hy : y ≤ Unsigned.maxValue 128)
    (h : (componentCmp epsilon x y).2 = .lt) : x < y :=
  lt_of_tcmp_eq_lt hy h

theorem le_of_componentCmp_eq (h : componentCmp epsilon x y = (true, .eq)) : y ≤ x := by
  have := congrArg Prod.fst h
  simpa [componentCmp] using this

theorem componentCmp_self (hy : y ≤ Unsigned.maxValue 128) :
    componentCmp epsilon y y = (true, .eq) := by
  rw [componentCmp, tcmp_self hy, decide_eq_true le_rfl]

end Component

theorem weakBetter_of_isScoreBetter {a b : ElectionScore} {epsilon : PerThing accuracy}
    (h : isScoreBetter a b epsilon = true) : WeakBetter a b := by
  rcases (scoreMatch_iff _ _ _).1 h with h0 | ⟨h0, h1⟩ | ⟨h0, h1, h2⟩
  · exact .inl (lt_of_componentCmp_gt b.minSupport_le h0)
  · exact .inr (.inl ⟨le_of_componentCmp_eq h0, lt_of_componentCmp_gt b.sum_le h1⟩)
  · exact .inr (.inr ⟨le_of_componentCmp_eq h0, le_of_componentCmp_eq h1,
      lt_of_componentCmp_lt b.sumSquared_le h2⟩)

theorem WeakBetter.asymm {a b : ElectionScore} (hab : WeakBetter a b) : ¬ WeakBetter b a := by
  unfold WeakBetter at *
  omega

theorem isScoreBetter_self (a : ElectionScore) (epsilon : PerThing accuracy) :
    isScoreBetter a a epsilon = false := by
  rw [isScoreBetter, componentCmp_self a.minSupport_le, componentCmp_self a.sum_le,
    componentCmp_self a.sumSquared_le]
  rfl

/-! ## `epsilon` zero: the lexicographic order -/

/-- Greater minimum support, then greater total, then smaller sum of
squares. -/
def Lex (a b : ElectionScore) : Prop :=
  b.minSupport < a.minSupport ∨ (a.minSupport = b.minSupport ∧
    (b.sum < a.sum ∨ (a.sum = b.sum ∧ a.sumSquared < b.sumSquared)))

theorem Lex.trans {a b c : ElectionScore} (hab : Lex a b) (hbc : Lex b c) : Lex a c := by
  unfold Lex at *
  omega

theorem mulCeil_zero (x : ℕ) : (PerThing.zero : PerThing accuracy).mulCeil x = 0 := by
  simp [PerThing.mulCeil, PerThing.overflowPruneMul, PerThing.rationalMulCorrection, PerThing.zero]

theorem componentCmp_zero {x y : ℕ} (hy : y ≤ Unsigned.maxValue 128) :
    componentCmp (PerThing.zero : PerThing accuracy) x y = (decide (y ≤ x), compare x y) := by
  rw [componentCmp, mulCeil_zero, tcmp_eq hy, compare_eq_ite]
  simp [Unsigned.saturatingAdd, Unsigned.saturatingSub, hy]

theorem isScoreBetter_zero_iff (a b : ElectionScore) :
    isScoreBetter a b (PerThing.zero : PerThing accuracy) = true ↔ Lex a b := by
  rw [isScoreBetter, componentCmp_zero b.minSupport_le, componentCmp_zero b.sum_le,
    componentCmp_zero b.sumSquared_le, scoreMatch_iff, Lex]
  simp only [Prod.mk.injEq, decide_eq_true_eq, Nat.compare_eq_gt, Nat.compare_eq_lt,
    Nat.compare_eq_eq]
  omega

/-- `is_score_better` is a strict order for every `epsilon`: no score beats
itself and no two beat each other; with `epsilon` zero it is the
lexicographic order, hence transitive. `tcmp` is greater exactly above the
saturated `y + t`, less exactly below the saturated `y - t`, equal between. -/
theorem is_score_better_strict (epsilon : PerThing accuracy) (a b c : ElectionScore) :
    isScoreBetter a a epsilon = false ∧
    ¬ (isScoreBetter a b epsilon = true ∧ isScoreBetter b a epsilon = true) ∧
    (isScoreBetter a b (PerThing.zero : PerThing accuracy) = true ↔ Lex a b) ∧
    (isScoreBetter a b (PerThing.zero : PerThing accuracy) = true →
      isScoreBetter b c (PerThing.zero : PerThing accuracy) = true →
        isScoreBetter a c (PerThing.zero : PerThing accuracy) = true) ∧
    (∀ w x y t, y ≤ Unsigned.maxValue w →
      (tcmp w x y t = .gt ↔ Unsigned.saturatingAdd w y t < x) ∧
      (tcmp w x y t = .lt ↔ x < Unsigned.saturatingSub y t) ∧
      (tcmp w x y t = .eq ↔
        Unsigned.saturatingSub y t ≤ x ∧ x ≤ Unsigned.saturatingAdd w y t)) := by
  refine ⟨isScoreBetter_self a epsilon, ?_, isScoreBetter_zero_iff a b, ?_, ?_⟩
  · rintro ⟨hab, hba⟩
    exact (weakBetter_of_isScoreBetter hab).asymm (weakBetter_of_isScoreBetter hba)
  · intro hab hbc
    rw [isScoreBetter_zero_iff] at hab hbc ⊢
    exact hab.trans hbc
  · intro w x y t hy
    exact ⟨tcmp_eq_gt_iff hy, tcmp_eq_lt_iff hy, tcmp_eq_eq_iff hy⟩

end SocialNetwork.NposElections
