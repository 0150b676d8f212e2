import SocialNetwork.Primitives.Runtime.Curve

/-!
# `pallet_staking::inflation`

`compute_total_payout` pays the stakers of an era the yearly inflation curve
at the staked fraction of the issuance, times the issuance and the era's
share of a year; the maximum payout takes the curve's maximum in place of its
value. On a curve whose ordinates are at most its maximum, the payout is
always computed and never exceeds the maximum payout (`payout_le_maximum`):
the curve stays within its maximum times the issuance wherever its rounded
abscissas put the staked amount (`PiecewiseLinear.calculate_le_maximum`), and
a `Perbill` product grows with what it multiplies.
-/

namespace SocialNetwork.Staking

open Arithmetic Unsigned SocialNetwork.Runtime

def millisecondsPerYear : ℕ := 1000 * 3600 * 24 * 36525 / 100

/-- `compute_total_payout` for a `w`-bit `N`: the stakers' payout and the
maximum payout of an era of `eraDuration` milliseconds. -/
def computeTotalPayout (w : ℕ) (yearlyInflation : PiecewiseLinear)
    (nposTokenStaked totalTokens eraDuration : ℕ) : Option (ℕ × ℕ) := do
  let portion : Perbill := PerThing.fromRationalApproximation eraDuration millisecondsPerYear
  let value ← yearlyInflation.calculateForFractionTimesDenominator w nposTokenStaked totalTokens
  let payout := portion.mul value
  let maximum := portion.mul (yearlyInflation.maximum.mul totalTokens)
  pure (payout, maximum)

/-- On a curve whose ordinates are at most its maximum, any staked amount and
issuance of `N` and any era length give a payout, at most the maximum
payout. -/
theorem payout_le_maximum (w : ℕ) (yearlyInflation : PiecewiseLinear)
    (hmax : ∀ p ∈ yearlyInflation.points, p.2.parts ≤ yearlyInflation.maximum.parts)
    (nposTokenStaked totalTokens eraDuration : ℕ) (htotal : totalTokens ≤ maxValue w) :
    ∃ payout maximum,
      computeTotalPayout w yearlyInflation nposTokenStaked totalTokens eraDuration =
        some (payout, maximum) ∧ payout ≤ maximum := by
  obtain ⟨value, hvalue, hle⟩ :=
    yearlyInflation.calculate_le_maximum w nposTokenStaked totalTokens htotal hmax
  let portion : Perbill := PerThing.fromRationalApproximation eraDuration millisecondsPerYear
  refine ⟨portion.mul value, portion.mul (yearlyInflation.maximum.mul totalTokens),
    by simp [computeTotalPayout, hvalue, portion], ?_⟩
  exact PerThing.mul_le_mul_of_le _ hle

end SocialNetwork.Staking
