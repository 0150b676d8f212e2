import SocialNetwork.Lib.Unsigned

/-!
# `sp_arithmetic::per_things`

A `PerThing` of accuracy `A` is a fraction `parts / A` with `parts ≤ A`:
`Perbill` has `A = 10⁹`, `Permill` `10⁶`, `PerU16` `65535`. The macro
`implement_per_thing!` gives each the same two operations that the pallets
use.

* `from_rational_approximation(p, q)` reduces `p` and `q` by the same factor
  until `q` fits below `A`, then takes `p * A / q`, rounded down.
* `x * self` (`overflow_prune_mul`) computes `x / A * parts` and adds the
  correction `rational_mul_correction` for the remainder `x % A`, rounded to
  the nearest whole number, an exact half down.

Both are total here: the `expect`s of the source are on values the reduction
keeps in range (`rationalParts_le`). The product is `x * parts / A` rounded
(`mul_eq_div`), so it grows with `x` and never exceeds it.
-/

namespace SocialNetwork.Arithmetic

/-- A fraction `parts / accuracy`, at most one. -/
structure PerThing (accuracy : ℕ) where
  parts : ℕ
  le_accuracy : parts ≤ accuracy
  deriving DecidableEq

/-- `Perbill`: parts per billion. -/
abbrev Perbill := PerThing 1000000000

/-- `Rounding`. -/
inductive Rounding where
  | down
  | up
  | nearest
  deriving DecidableEq, Repr

namespace PerThing

variable {accuracy : ℕ}

/-- `from_parts`: clamped to one. -/
def fromParts (parts : ℕ) : PerThing accuracy := ⟨min parts accuracy, Nat.min_le_right _ _⟩

/-- `zero`. -/
def zero : PerThing accuracy := ⟨0, Nat.zero_le _⟩

/-- `div_ceil` of `from_rational_approximation`. -/
def divCeil (x f : ℕ) : ℕ := if x % f > 0 then x / f + 1 else x / f

/-- The parts `from_rational_approximation(p, q)` builds: `q` at least one,
`p` at most `q`, both divided by `⌈q / accuracy⌉`. -/
def rationalParts (accuracy p q : ℕ) : ℕ :=
  let q := max q 1
  let p := min p q
  let factor := max (divCeil q accuracy) 1
  let qReduce := q / factor
  let pReduce := p / factor
  pReduce * accuracy / qReduce

theorem rationalParts_le (accuracy p q : ℕ) : rationalParts accuracy p q ≤ accuracy := by
  unfold rationalParts
  dsimp only
  have hle : min p (max q 1) / max (divCeil (max q 1) accuracy) 1 ≤
      max q 1 / max (divCeil (max q 1) accuracy) 1 :=
    Nat.div_le_div_right (min_le_right _ _)
  calc min p (max q 1) / max (divCeil (max q 1) accuracy) 1 * accuracy /
        (max q 1 / max (divCeil (max q 1) accuracy) 1)
      ≤ max q 1 / max (divCeil (max q 1) accuracy) 1 * accuracy /
        (max q 1 / max (divCeil (max q 1) accuracy) 1) :=
        Nat.div_le_div_right (Nat.mul_le_mul_right _ hle)
    _ ≤ accuracy := Nat.div_le_of_le_mul le_rfl

/-- `from_rational_approximation(p, q)`: about `p / q`, rounded down. -/
def fromRationalApproximation (p q : ℕ) : PerThing accuracy :=
  ⟨rationalParts accuracy p q, rationalParts_le accuracy p q⟩

/-! ### How `from_rational_approximation` rounds -/

section RationalApproximation

variable (accuracy : ℕ)

theorem le_divCeil_mul {f : ℕ} (hf : 0 < f) (x : ℕ) : x ≤ divCeil x f * f := by
  have hdm := Nat.div_add_mod x f
  have hmod := Nat.mod_lt x hf
  unfold divCeil
  split_ifs with h
  · rw [Nat.add_mul, Nat.one_mul, Nat.mul_comm]
    omega
  · rw [Nat.mul_comm]
    omega

/-- The `expect`s of `from_rational_approximation` hold: `q` divided by the
factor `⌈q / accuracy⌉` is at most the accuracy, and `p ≤ q` with it. -/
theorem reduce_le_accuracy (hA : 0 < accuracy) (q : ℕ) :
    max q 1 / max (divCeil (max q 1) accuracy) 1 ≤ accuracy := by
  apply Nat.div_le_of_le_mul
  calc max q 1 ≤ divCeil (max q 1) accuracy * accuracy := le_divCeil_mul hA _
    _ ≤ max (divCeil (max q 1) accuracy) 1 * accuracy := Nat.mul_le_mul_right _ (le_max_left _ _)

theorem rationalParts_mono {p p' : ℕ} (h : p ≤ p') (q : ℕ) :
    rationalParts accuracy p q ≤ rationalParts accuracy p' q := by
  unfold rationalParts
  dsimp only
  apply Nat.div_le_div_right
  apply Nat.mul_le_mul_right
  exact Nat.div_le_div_right (min_le_min_right _ h)

/-- Up to `accuracy`, `q` needs no reduction: the parts are `p * accuracy / q`,
rounded down. -/
theorem rationalParts_of_le {p q : ℕ} (hq : 0 < q) (hpq : p ≤ q) (hqA : q ≤ accuracy) :
    rationalParts accuracy p q = p * accuracy / q := by
  have hq1 : max q 1 = q := max_eq_left hq
  have hf : divCeil q accuracy ≤ 1 := by
    unfold divCeil
    split_ifs with h
    · have : q / accuracy = 0 := Nat.div_eq_of_lt (lt_of_le_of_ne hqA fun h' => by
        rw [h', Nat.mod_self] at h; exact absurd h (lt_irrefl 0))
      omega
    · exact Nat.div_le_of_le_mul (by omega)
  unfold rationalParts
  dsimp only
  rw [hq1, max_eq_right hf, min_eq_left hpq, Nat.div_one, Nat.div_one]

/-- When the factor divides `q`, the reduced `q` is exact and the parts
round down. -/
theorem rationalParts_mul_le {p q : ℕ} (hq : 0 < q) (hpq : p ≤ q)
    (hdvd : max (divCeil q accuracy) 1 ∣ q) : rationalParts accuracy p q * q ≤ p * accuracy := by
  have hf : 0 < max (divCeil q accuracy) 1 := lt_of_lt_of_le Nat.one_pos (le_max_right _ _)
  unfold rationalParts
  dsimp only
  rw [max_eq_left hq, min_eq_left hpq]
  generalize max (divCeil q accuracy) 1 = f at hf hdvd ⊢
  obtain ⟨k, rfl⟩ := hdvd
  rw [Nat.mul_div_cancel_left _ hf]
  calc p / f * accuracy / k * (f * k) = p / f * accuracy / k * k * f := by ring
    _ ≤ p / f * accuracy * f := Nat.mul_le_mul_right _ (Nat.div_mul_le_self _ _)
    _ = p / f * f * accuracy := by ring
    _ ≤ p * accuracy := Nat.mul_le_mul_right _ (Nat.div_mul_le_self _ _)

/-- `from_rational_approximation(p, q)` for any accuracy: the `expect`s on the
reduced `q` and `p` hold, so it never panics; it is at most one and grows
with `p`; up to the accuracy it is `p / q` rounded down, and beyond it it
still rounds down when the reduction factor `⌈q / accuracy⌉` divides `q`. -/
theorem from_rational_approximation_bounds (hA : 0 < accuracy) (p q : ℕ) :
    max q 1 / max (divCeil (max q 1) accuracy) 1 ≤ accuracy ∧
    min p (max q 1) / max (divCeil (max q 1) accuracy) 1 ≤ accuracy ∧
    (fromRationalApproximation p q : PerThing accuracy).parts ≤ accuracy ∧
    (∀ p', p ≤ p' → (fromRationalApproximation p q : PerThing accuracy).parts ≤
      (fromRationalApproximation p' q : PerThing accuracy).parts) ∧
    (0 < q → p ≤ q → q ≤ accuracy →
      (fromRationalApproximation p q : PerThing accuracy).parts = p * accuracy / q) ∧
    (0 < q → p ≤ q → max (divCeil q accuracy) 1 ∣ q →
      (fromRationalApproximation p q : PerThing accuracy).parts * q ≤ p * accuracy) := by
  have hq := reduce_le_accuracy accuracy hA q
  refine ⟨hq, ?_, rationalParts_le accuracy p q, fun p' h => rationalParts_mono accuracy h q,
    rationalParts_of_le accuracy, rationalParts_mul_le accuracy⟩
  exact le_trans (Nat.div_le_div_right (min_le_right _ _)) hq

theorem from_rational_approximation_bounds_percent :
    0 < 100 ∧
    max 80 1 / max (divCeil (max 80 1) 100) 1 ≤ 100 ∧
    min 50 (max 80 1) / max (divCeil (max 80 1) 100) 1 ≤ 100 ∧
    (fromRationalApproximation 50 80 : PerThing 100).parts ≤ 100 ∧
    (∀ p', 50 ≤ p' → (fromRationalApproximation 50 80 : PerThing 100).parts ≤
      (fromRationalApproximation p' 80 : PerThing 100).parts) ∧
    (0 < 80 → 50 ≤ 80 → 80 ≤ 100 →
      (fromRationalApproximation 50 80 : PerThing 100).parts = 50 * 100 / 80) ∧
    (0 < 80 → 50 ≤ 80 → max (divCeil 80 100) 1 ∣ 80 →
      (fromRationalApproximation 50 80 : PerThing 100).parts * 80 ≤ 50 * 100) :=
  ⟨by decide, from_rational_approximation_bounds 100 (by decide) 50 80⟩

/-- `Percent::from_rational_approximation(198, 199)` is one whole: the factor
`2` floors `199` to `99` and `198` to `99`, so it rounds `198 / 199` up. -/
theorem from_rational_approximation_rounds_up :
    (fromRationalApproximation 198 199 : PerThing 100).parts = 100 ∧ 198 * 100 < 100 * 199 :=
  ⟨rfl, by decide⟩

end RationalApproximation

/-- `from_percent`: `x` percent, at most a hundred. -/
def fromPercent (x : ℕ) : PerThing accuracy := fromRationalApproximation (min x 100) 100

/-- `rational_mul_correction`: what `x / denom * numer` drops of
`x * numer / denom`, rounded as asked. -/
def rationalMulCorrection (x numer denom : ℕ) (rounding : Rounding) : ℕ :=
  let rem := x % denom
  let remMulUpper := rem * numer
  let remMulDivInner := remMulUpper / denom
  match rounding with
  | .down => remMulDivInner
  | .up => if remMulUpper % denom > 0 then remMulDivInner + 1 else remMulDivInner
  | .nearest => if remMulUpper % denom > denom / 2 then remMulDivInner + 1 else remMulDivInner

/-- `overflow_prune_mul`. -/
def overflowPruneMul (accuracy x part : ℕ) (rounding : Rounding) : ℕ :=
  x / accuracy * part + rationalMulCorrection x part accuracy rounding

/-- `self * x`: rounded to the nearest, an exact half down. -/
def mul (self : PerThing accuracy) (x : ℕ) : ℕ := overflowPruneMul accuracy x self.parts .nearest

/-- `mul_floor`. -/
def mulFloor (self : PerThing accuracy) (x : ℕ) : ℕ := overflowPruneMul accuracy x self.parts .down

/-- `mul_ceil`. -/
def mulCeil (self : PerThing accuracy) (x : ℕ) : ℕ := overflowPruneMul accuracy x self.parts .up

/-! ### Bounds of `self * x` -/

/-- `self * x` as one division: `x * parts / accuracy`, rounded to the
nearest with an exact half down. -/
theorem mul_eq_div (self : PerThing accuracy) (x : ℕ) (h : 0 < accuracy) :
    self.mul x = (x * self.parts + (accuracy - 1 - accuracy / 2)) / accuracy := by
  have hx : x * self.parts = accuracy * (x / accuracy * self.parts) + x % accuracy * self.parts := by
    conv_lhs => rw [← Nat.div_add_mod x accuracy]
    ring
  have hy := (Nat.div_add_mod (x % accuracy * self.parts) accuracy).symm
  have hlt : x % accuracy * self.parts % accuracy < accuracy := Nat.mod_lt _ h
  rw [hx, Nat.add_assoc, Nat.mul_add_div h, hy, Nat.add_assoc, Nat.mul_add_div h]
  unfold mul overflowPruneMul rationalMulCorrection
  dsimp only
  split_ifs with hround
  · have : (x % accuracy * self.parts % accuracy + (accuracy - 1 - accuracy / 2)) / accuracy = 1 :=
      Nat.div_eq_of_lt_le (by omega) (by omega)
    omega
  · have : (x % accuracy * self.parts % accuracy + (accuracy - 1 - accuracy / 2)) / accuracy = 0 :=
      Nat.div_eq_of_lt_le (by omega) (by omega)
    omega

theorem mul_le_mul_of_le (self : PerThing accuracy) {x y : ℕ} (hxy : x ≤ y) : self.mul x ≤ self.mul y := by
  rcases Nat.eq_zero_or_pos accuracy with h | h
  · subst h
    have hp : self.parts = 0 := Nat.le_zero.mp self.le_accuracy
    simp [mul, overflowPruneMul, rationalMulCorrection, hp]
  · rw [mul_eq_div self x h, mul_eq_div self y h]
    exact Nat.div_le_div_right (Nat.add_le_add_right (Nat.mul_le_mul_right _ hxy) _)

theorem mul_le_self (self : PerThing accuracy) (x : ℕ) : self.mul x ≤ x := by
  rcases Nat.eq_zero_or_pos accuracy with h | h
  · subst h
    have hp : self.parts = 0 := Nat.le_zero.mp self.le_accuracy
    simp [mul, overflowPruneMul, rationalMulCorrection, hp]
  · rw [mul_eq_div self x h]
    have hle : x * self.parts + (accuracy - 1 - accuracy / 2) < (x + 1) * accuracy := by
      have := Nat.mul_le_mul_left x self.le_accuracy
      rw [Nat.add_mul, Nat.one_mul]
      omega
    exact Nat.lt_succ_iff.mp ((Nat.div_lt_iff_lt_mul h).mpr hle)

/-! ### Products of two fractions -/

section TwoFractions

variable (h : 0 < accuracy) {p q : PerThing accuracy}
include h

/-- Adding `δ` to the product of `p` stays within the product of a larger
`q`, when `δ` is at most the exact difference of the two products. -/
theorem mul_add_le_mul (hpq : p.parts ≤ q.parts) {x δ : ℕ}
    (hδ : accuracy * δ ≤ x * (q.parts - p.parts)) : p.mul x + δ ≤ q.mul x := by
  rw [mul_eq_div p x h, mul_eq_div q x h, ← Nat.add_mul_div_left _ _ h]
  apply Nat.div_le_div_right
  have hsplit : x * q.parts = x * p.parts + x * (q.parts - p.parts) := by
    rw [← Nat.mul_add, Nat.add_sub_cancel' hpq]
  omega

theorem mul_le_mul_of_parts_le (hpq : p.parts ≤ q.parts) (x : ℕ) : p.mul x ≤ q.mul x := by
  simpa using mul_add_le_mul h hpq (x := x) (δ := 0) (Nat.zero_le _)

/-- The products of two fractions differ by less than one more than the
exact products do: each is rounded by at most a half. -/
theorem mul_gap_lt (p q : PerThing accuracy) (x : ℕ) :
    accuracy * q.mul x + x * p.parts < x * q.parts + accuracy * (p.mul x + 1) := by
  rw [mul_eq_div p x h, mul_eq_div q x h]
  have hq := Nat.div_mul_le_self (x * q.parts + (accuracy - 1 - accuracy / 2)) accuracy
  have hp := Nat.lt_mul_div_succ (x * p.parts + (accuracy - 1 - accuracy / 2)) h
  rw [Nat.mul_comm] at hq
  omega

end TwoFractions

end PerThing

/-- `saturating_reciprocal_mul`, the function the three methods share, for a
`w`-bit `N`: `x / part` times the accuracy, saturated, plus the correction for
`x % part`, saturated; `none` where the source panics, since both divide by
`part`. -/
def saturatingReciprocalMul (w accuracy x part : ℕ) (rounding : Rounding) : Option ℕ :=
  if part = 0 then none
  else some (Unsigned.saturatingAdd w (Unsigned.saturatingMul w (x / part) accuracy)
    (PerThing.rationalMulCorrection x accuracy part rounding))

namespace PerThing

variable {accuracy : ℕ}

def saturatingReciprocalMul (self : PerThing accuracy) (w x : ℕ) : Option ℕ :=
  Arithmetic.saturatingReciprocalMul w accuracy x self.parts .nearest

/-- `saturating_reciprocal_mul_floor`. -/
def saturatingReciprocalMulFloor (self : PerThing accuracy) (w x : ℕ) : Option ℕ :=
  Arithmetic.saturatingReciprocalMul w accuracy x self.parts .down

/-- `saturating_reciprocal_mul_ceil`. -/
def saturatingReciprocalMulCeil (self : PerThing accuracy) (w x : ℕ) : Option ℕ :=
  Arithmetic.saturatingReciprocalMul w accuracy x self.parts .up

end PerThing

/-! ### What the roundings mean -/

/-- `n / d` rounded down, up, or to the nearest with an exact half down. -/
def divRound (n d : ℕ) : Rounding → ℕ
  | .down => n / d
  | .up => n / d + if n % d = 0 then 0 else 1
  | .nearest => n / d + if d < 2 * (n % d) then 1 else 0

section DivRound

variable {n d : ℕ}

theorem divRound_mul_add (hd : 0 < d) (q : ℕ) (r : Rounding) :
    divRound (d * q + n) d r = q + divRound n d r := by
  have hdiv : (d * q + n) / d = q + n / d := by
    rw [Nat.mul_add_div hd]
  have hmod : (d * q + n) % d = n % d := Nat.mul_add_mod _ _ _
  cases r <;> simp only [divRound, hdiv, hmod, Nat.add_assoc]

theorem divRound_le {x : ℕ} (h : n ≤ x * d) (r : Rounding) : divRound n d r ≤ x := by
  have hq : n / d ≤ x := Nat.div_le_of_le_mul (by rw [Nat.mul_comm]; exact h)
  rcases Nat.lt_or_eq_of_le hq with hlt | heq
  · cases r <;> simp only [divRound] <;> (try split_ifs) <;> omega
  · -- the quotient is `x` only when `n = x * d`, with nothing left over
    have hmod : n % d = 0 := by
      have hsplit := Nat.div_add_mod n d
      rw [heq, Nat.mul_comm] at hsplit
      omega
    cases r <;> simp [divRound, heq, hmod]

end DivRound

namespace PerThing

theorem rationalMulCorrection_eq {d : ℕ} (x numer : ℕ) (r : Rounding) :
    rationalMulCorrection x numer d r = divRound (x % d * numer) d r := by
  cases r with
  | down => rfl
  | up =>
      simp only [rationalMulCorrection, divRound]
      split_ifs <;> omega
  | nearest =>
      simp only [rationalMulCorrection, divRound]
      split_ifs <;> omega

theorem overflowPruneMul_eq {accuracy : ℕ} (h : 0 < accuracy) (x part : ℕ) (r : Rounding) :
    overflowPruneMul accuracy x part r = divRound (x * part) accuracy r := by
  have hx : x * part = accuracy * (x / accuracy * part) + x % accuracy * part := by
    conv_lhs => rw [← Nat.div_add_mod x accuracy]
    ring
  rw [overflowPruneMul, rationalMulCorrection_eq, hx, divRound_mul_add h]

end PerThing

/-- The saturating reciprocal of a non-zero part is `x * accuracy / part`,
rounded as asked, and saturated at `N::max_value()`. -/
theorem saturatingReciprocalMul_eq {w accuracy part : ℕ} (hpart : 0 < part) (x : ℕ)
    (r : Rounding) :
    saturatingReciprocalMul w accuracy x part r =
      some (min (divRound (x * accuracy) part r) (Unsigned.maxValue w)) := by
  have hx : x * accuracy = part * (x / part * accuracy) + x % part * accuracy := by
    conv_lhs => rw [← Nat.div_add_mod x part]
    ring
  rw [saturatingReciprocalMul, if_neg hpart.ne', PerThing.rationalMulCorrection_eq, hx,
    divRound_mul_add hpart]
  simp only [Unsigned.saturatingAdd, Unsigned.saturatingMul, Option.some.injEq]
  omega

namespace PerThing

variable {accuracy : ℕ}

/-- The three products of a fraction, and the three saturating reciprocals
for a `w`-bit `N`, are the exact quotients rounded down, up and to the
nearest with an exact half down; the products never exceed `x`, so nothing
overflows `N`. A zero fraction has no reciprocal: the source divides by it
and panics. -/
theorem per_thing_mul_rounding (self : PerThing accuracy) (h : 0 < accuracy) (w x : ℕ) :
    self.mulFloor x = divRound (x * self.parts) accuracy .down ∧
    self.mulCeil x = divRound (x * self.parts) accuracy .up ∧
    self.mul x = divRound (x * self.parts) accuracy .nearest ∧
    (self.mulFloor x ≤ x ∧ self.mulCeil x ≤ x ∧ self.mul x ≤ x) ∧
    (0 < self.parts →
      self.saturatingReciprocalMul w x =
          some (min (divRound (x * accuracy) self.parts .nearest) (Unsigned.maxValue w)) ∧
      self.saturatingReciprocalMulFloor w x =
          some (min (divRound (x * accuracy) self.parts .down) (Unsigned.maxValue w)) ∧
      self.saturatingReciprocalMulCeil w x =
          some (min (divRound (x * accuracy) self.parts .up) (Unsigned.maxValue w))) ∧
    (self.parts = 0 → self.saturatingReciprocalMul w x = none ∧
      self.saturatingReciprocalMulFloor w x = none ∧ self.saturatingReciprocalMulCeil w x = none) := by
  -- the product is at most `x * accuracy`, so each rounding is at most `x`
  have hle : x * self.parts ≤ x * accuracy := Nat.mul_le_mul_left x self.le_accuracy
  refine ⟨overflowPruneMul_eq h _ _ _, overflowPruneMul_eq h _ _ _, overflowPruneMul_eq h _ _ _,
    ⟨?_, ?_, ?_⟩, fun hpart => ⟨?_, ?_, ?_⟩, fun hzero => ?_⟩
  · rw [mulFloor, overflowPruneMul_eq h]
    exact divRound_le hle _
  · rw [mulCeil, overflowPruneMul_eq h]
    exact divRound_le hle _
  · rw [mul, overflowPruneMul_eq h]
    exact divRound_le hle _
  · exact saturatingReciprocalMul_eq hpart x _
  · exact saturatingReciprocalMul_eq hpart x _
  · exact saturatingReciprocalMul_eq hpart x _
  · simp [saturatingReciprocalMul, saturatingReciprocalMulFloor, saturatingReciprocalMulCeil,
      Arithmetic.saturatingReciprocalMul, hzero]

/-- `Percent` at one half, on `10` as a `u64`. -/
theorem per_thing_mul_rounding_half :
    (0 < 100 ∧ 0 < 50) ∧
    (⟨50, by decide⟩ : PerThing 100).mulFloor 10 = divRound (10 * 50) 100 .down ∧
    (⟨50, by decide⟩ : PerThing 100).mulCeil 10 = divRound (10 * 50) 100 .up ∧
    (⟨50, by decide⟩ : PerThing 100).mul 10 = divRound (10 * 50) 100 .nearest ∧
    ((⟨50, by decide⟩ : PerThing 100).mulFloor 10 ≤ 10 ∧
      (⟨50, by decide⟩ : PerThing 100).mulCeil 10 ≤ 10 ∧ (⟨50, by decide⟩ : PerThing 100).mul 10 ≤ 10) ∧
    (0 < 50 →
      (⟨50, by decide⟩ : PerThing 100).saturatingReciprocalMul 64 10 =
          some (min (divRound (10 * 100) 50 .nearest) (Unsigned.maxValue 64)) ∧
      (⟨50, by decide⟩ : PerThing 100).saturatingReciprocalMulFloor 64 10 =
          some (min (divRound (10 * 100) 50 .down) (Unsigned.maxValue 64)) ∧
      (⟨50, by decide⟩ : PerThing 100).saturatingReciprocalMulCeil 64 10 =
          some (min (divRound (10 * 100) 50 .up) (Unsigned.maxValue 64))) ∧
    (50 = 0 → (⟨50, by decide⟩ : PerThing 100).saturatingReciprocalMul 64 10 = none ∧
      (⟨50, by decide⟩ : PerThing 100).saturatingReciprocalMulFloor 64 10 = none ∧
      (⟨50, by decide⟩ : PerThing 100).saturatingReciprocalMulCeil 64 10 = none) :=
  ⟨⟨by decide, by decide⟩, per_thing_mul_rounding ⟨50, by decide⟩ (by decide) 64 10⟩

/-- `Percent::zero().saturating_reciprocal_mul(10u64)` divides by zero. -/
theorem saturating_reciprocal_mul_of_zero_panics :
    (zero : PerThing 100).saturatingReciprocalMul 64 10 = none := rfl

end PerThing

end SocialNetwork.Arithmetic
