import SocialNetwork.Primitives.Arithmetic.FixedPoint.Basic

/-!
# `sp_arithmetic::fixed_point`: rounding

`trunc` keeps the integer part of a number; `frac` is what is left, made
non-negative unless the integer part is zero; `ceil`, `floor` and `round` are
built from the two and a saturating step of `one()` up or down. A number
stands for `inner / DIV`, so an integer `k` is the multiple `k * DIV`, and on
inner values `/` by `DIV` is the floor, `-((-a) / DIV)` the ceiling.

Where the result is a value, `trunc` rounds toward zero, `ceil` up, and
`|x - trunc x| = |frac x|`. `floor` and `round` do so except in two places
the construction misses: `floor` of a negative integer is one below it
(`val_floor_of_dvd`), as it steps down by `one()` before truncating toward
zero; and `round` of a number in `(-1, -1/2]` is `0` (`val_round_of_neg`),
as there `frac` keeps its sign and `frac * 10` is below `5`. `is_one`
compares the inner value with `Inner::one()`, not `DIV` (`isOne_iff`).
-/

namespace SocialNetwork.Arithmetic

open PrimInt

theorem FixedType.intDiv_pos (T : FixedType) : (0 : ℤ) < T.div := by
  exact_mod_cast T.div_pos

def roundHalfAway (a d : ℤ) : ℤ :=
  if 0 ≤ a then (2 * a + d) / (2 * d) else -((2 * -a + d) / (2 * d))

theorem roundHalf_eq {a d q : ℤ} (hd : 0 < d) (h1 : q * d ≤ a) (h2 : a < q * d + d) :
    (2 * a + d) / (2 * d) = if 2 * (a - q * d) < d then q else q + 1 := by
  have h2d : 0 < 2 * d := by omega
  have hq : q * (2 * d) = 2 * (q * d) := by ring
  have hq1 : (q + 1) * (2 * d) = 2 * (q * d) + 2 * d := by ring
  split_ifs with hr
  · exact ediv_eq_of_bounds h2d (by omega) (by omega)
  · exact ediv_eq_of_bounds h2d (by omega) (by omega)

namespace Fixed

variable {T : FixedType}

/-- `is_one`: the inner value against `Inner::one()`. -/
def isOne (x : Fixed T) : Bool := x.inner.val == 1

/-- `trunc`: `inner / DIV * DIV`. Neither `expect` can fire: `DIV` is not
zero, and the integer part is no larger than the number. -/
def trunc (x : Fixed T) : Fixed T :=
  ⟨⟨x.inner.val.tdiv T.div * T.div, T.inner.mem_tdiv_mul x.inner.mem T.intDiv_pos⟩⟩

/-- `frac`. -/
def frac (x : Fixed T) : Fixed T :=
  let integer := x.trunc
  let fractional := x.saturatingSub integer
  if integer = zero then fractional else fractional.saturatingAbs

/-- `ceil`. -/
def ceil (x : Fixed T) : Fixed T :=
  if x.isNegative then x.trunc
  else if x.frac = zero then x
  else (x.saturatingAdd one).trunc

/-- `floor`. -/
def floor (x : Fixed T) : Fixed T :=
  if x.isNegative then (x.saturatingSub one).trunc else x.trunc

/-- `round`; the literals `10` and `5` are `i32`s. -/
def round (x : Fixed T) : Fixed T :=
  let n := x.frac.saturatingMul (saturatingFromInteger (⟨10, by decide⟩ : Val .i32))
  if n.inner.val < (saturatingFromInteger (⟨5, by decide⟩ : Val .i32) : Fixed T).inner.val then
    x.trunc
  else if x.isPositive then (x.saturatingAdd one).trunc
  else (x.saturatingSub one).trunc

/-! ## Small lemmas -/

section Basic

variable (x y : Fixed T)

@[simp] theorem val_trunc : x.trunc.inner.val = x.inner.val.tdiv T.div * T.div := rfl

@[simp] theorem val_zero : (zero : Fixed T).inner.val = 0 := rfl

@[simp] theorem val_one : (one : Fixed T).inner.val = T.div := rfl

@[simp] theorem val_saturatingAdd :
    (x.saturatingAdd y).inner.val = max T.inner.minValue (min (x.inner.val + y.inner.val) T.inner.maxValue) :=
  rfl

@[simp] theorem val_saturatingSub :
    (x.saturatingSub y).inner.val = max T.inner.minValue (min (x.inner.val - y.inner.val) T.inner.maxValue) :=
  rfl

theorem eq_zero_iff : x = zero ↔ x.inner.val = 0 := by
  rw [Fixed.ext_iff, Val.ext_iff, val_zero]

theorem isNegative_iff : x.isNegative = true ↔ x.inner.val < 0 := by
  rw [isNegative, decide_eq_true_iff, IntType.val_zero]

theorem isPositive_iff : x.isPositive = true ↔ 0 < x.inner.val := by
  rw [isPositive, decide_eq_true_iff, IntType.val_zero]

theorem isOne_iff : x.isOne = true ↔ x.inner.val = 1 := by
  rw [isOne, beq_iff_eq]

theorem isOne_one : (one : Fixed T).isOne = false := by
  have : (T.div : ℤ) ≠ 1 := by cases T <;> decide
  rw [Bool.eq_false_iff, ne_eq, isOne_iff, val_one]
  exact this

end Basic

/-! ## `frac` -/

section Frac

variable (x : Fixed T)

theorem val_saturatingSub_trunc :
    (x.saturatingSub x.trunc).inner.val = x.inner.val.tmod T.div := by
  have hsum := tdiv_mul_add_tmod x.inner.val T.div
  have hmem := T.inner.mem_tmod x.inner.mem T.intDiv_pos
  unfold IntType.Mem at hmem
  rw [val_saturatingSub, val_trunc]
  omega

theorem val_saturatingAbs (h : x.inner.val < 0 → T.inner.Mem (-x.inner.val)) :
    x.saturatingAbs.inner.val = |x.inner.val| := by
  unfold saturatingAbs
  rw [IntType.val_zero]
  by_cases hx : x.inner.val ≥ 0
  · rw [if_pos hx, abs_of_nonneg hx]
  · rw [if_neg hx, Val.checkedNeg, IntType.checked_of_mem (h (not_le.1 hx)), Option.getD_some,
      abs_of_neg (not_le.1 hx)]

/-- `frac` is the remainder toward zero, its magnitude where the integer part
is not zero. -/
theorem val_frac :
    x.frac.inner.val =
      if x.inner.val.tdiv T.div = 0 then x.inner.val.tmod T.div else |x.inner.val.tmod T.div| := by
  have hD := T.intDiv_pos
  have hint : x.trunc = zero ↔ x.inner.val.tdiv T.div = 0 := by
    rw [eq_zero_iff, val_trunc, mul_eq_zero, or_iff_left hD.ne']
  unfold frac
  dsimp only
  by_cases hq : x.inner.val.tdiv T.div = 0
  · rw [if_pos (hint.2 hq), if_pos hq, val_saturatingSub_trunc]
  · rw [if_neg (mt hint.1 hq), if_neg hq, val_saturatingAbs, val_saturatingSub_trunc]
    rw [val_saturatingSub_trunc]
    intro hneg
    have hlt := Int.lt_tmod_of_pos x.inner.val hD
    have hpos := T.inner.maxValue_pos
    have hmin := T.inner.minValue_le_zero
    have hdiv := T.mem_div.2
    constructor <;> omega

theorem abs_sub_trunc : |x.inner.val - x.trunc.inner.val| = |x.frac.inner.val| := by
  have hsum := tdiv_mul_add_tmod x.inner.val T.div
  have hsub : x.inner.val - x.trunc.inner.val = x.inner.val.tmod T.div := by
    rw [val_trunc]
    omega
  rw [hsub, val_frac]
  split_ifs
  · rfl
  · rw [abs_abs]

theorem val_frac_of_nonneg (ha : 0 ≤ x.inner.val) : x.frac.inner.val = x.inner.val.tmod T.div := by
  rw [val_frac]
  split_ifs
  · rfl
  · exact abs_of_nonneg (Int.tmod_nonneg _ ha)

theorem tdiv_eq_zero_of_neg (h1 : -(T.div : ℤ) < x.inner.val) (h2 : x.inner.val < 0) :
    x.inner.val.tdiv T.div = 0 := by
  have hq : (-x.inner.val) / T.div = 0 := ediv_eq_of_bounds T.intDiv_pos (by omega) (by omega)
  rw [tdiv_eq_ite, if_neg (by omega), hq, Int.neg_zero]

theorem val_frac_of_neg (h1 : -(T.div : ℤ) < x.inner.val) (h2 : x.inner.val < 0) :
    x.frac.inner.val = x.inner.val := by
  have hsum := tdiv_mul_add_tmod x.inner.val T.div
  rw [val_frac, if_pos (tdiv_eq_zero_of_neg x h1 h2)]
  rw [tdiv_eq_zero_of_neg x h1 h2] at hsum
  omega

theorem abs_frac_lt : |x.frac.inner.val| < T.div := by
  have hlt := abs_lt.2 ⟨Int.lt_tmod_of_pos x.inner.val T.intDiv_pos,
    Int.tmod_lt_of_pos x.inner.val T.intDiv_pos⟩
  rw [val_frac]
  split_ifs
  · exact hlt
  · rwa [abs_abs]

end Frac

/-! ## `ceil` and `floor` -/

section CeilFloor

variable (x : Fixed T)

theorem ceil_bounds (a : ℤ) :
    a ≤ -((-a) / T.div) * T.div ∧ -((-a) / T.div) * T.div < a + T.div := by
  have := ediv_mul_bounds (-a) T.intDiv_pos
  rw [Int.neg_mul]
  omega

/-- `ceil` is the least integer at or above the number, wherever that is a
value. -/
theorem val_ceil (h : T.inner.Mem (-((-x.inner.val) / T.div) * T.div)) :
    x.ceil.inner.val = -((-x.inner.val) / T.div) * T.div := by
  have hD := T.intDiv_pos
  obtain ⟨hlo, hhi⟩ := ceil_bounds (T := T) x.inner.val
  unfold ceil
  by_cases hneg : x.isNegative = true
  · -- a negative number: toward zero is up
    rw [if_pos hneg, val_trunc]
    exact tdiv_mul_eq_of_nonpos ((isNegative_iff x).1 hneg).le hD hlo hhi
  · have ha : 0 ≤ x.inner.val := not_lt.1 (mt (isNegative_iff x).2 hneg)
    have hsum := tdiv_mul_add_tmod x.inner.val T.div
    have hfrac := val_frac_of_nonneg x ha
    rw [if_neg hneg]
    by_cases hz : x.frac = zero
    · -- an integer: itself
      rw [if_pos hz]
      rw [eq_zero_iff, hfrac] at hz
      have hq : (-x.inner.val) / T.div = -(x.inner.val.tdiv T.div) :=
        ediv_eq_of_bounds hD (by rw [Int.neg_mul]; omega) (by rw [Int.neg_mul]; omega)
      rw [hq, Int.neg_neg]
      omega
    · -- no integer: its ceiling is strictly above it, and `one()` up reaches it
      have hne : x.inner.val ≠ -((-x.inner.val) / T.div) * T.div := by
        intro heq
        apply hz
        rw [eq_zero_iff, hfrac]
        exact Int.tmod_eq_zero_of_dvd ⟨_, heq.trans (mul_comm _ _)⟩
      rw [if_neg hz, val_trunc, val_saturatingAdd, val_one]
      have hmax := T.inner.maxValue_pos
      unfold IntType.Mem at h
      exact tdiv_mul_eq_of_nonneg (by omega) hD (by omega) (by omega)

/-- `floor` is the greatest integer at or below the number, wherever that is
a value, except at a negative integer. -/
theorem val_floor (h : T.inner.Mem (x.inner.val / T.div * T.div))
    (hint : ¬ (x.inner.val < 0 ∧ (T.div : ℤ) ∣ x.inner.val)) :
    x.floor.inner.val = x.inner.val / T.div * T.div := by
  have hD := T.intDiv_pos
  obtain ⟨hlo, hhi⟩ := ediv_mul_bounds x.inner.val hD
  unfold floor
  by_cases hneg : x.isNegative = true
  · -- `one()` down, then toward zero: up to the floor, as the number is no integer
    have ha := (isNegative_iff x).1 hneg
    have hne : x.inner.val / T.div * T.div ≠ x.inner.val :=
      fun heq => hint ⟨ha, ⟨_, heq.symm.trans (mul_comm _ _)⟩⟩
    rw [if_pos hneg, val_trunc, val_saturatingSub, val_one]
    have hmax := T.inner.maxValue_pos
    unfold IntType.Mem at h
    exact tdiv_mul_eq_of_nonpos (by omega) hD (by omega) (by omega)
  · rw [if_neg hneg, val_trunc]
    exact tdiv_mul_eq_of_nonneg (not_lt.1 (mt (isNegative_iff x).2 hneg)) hD hlo hhi

theorem val_floor_of_dvd (ha : x.inner.val < 0) (hdvd : (T.div : ℤ) ∣ x.inner.val)
    (hm : T.inner.Mem (x.inner.val - T.div)) : x.floor.inner.val = x.inner.val - T.div := by
  obtain ⟨m, hmul⟩ := hdvd
  have hD := T.intDiv_pos
  have hk : (m - 1) * T.div = x.inner.val - T.div := by
    rw [hmul]
    ring
  unfold floor
  rw [if_pos ((isNegative_iff x).2 ha), val_trunc, val_saturatingSub, val_one, ← hk]
  unfold IntType.Mem at hm
  exact tdiv_mul_eq_of_nonpos (by omega) hD (by omega) (by omega)

end CeilFloor

/-! ## `round` -/

section Round

open Helpers128Bit

variable (x : Fixed T)

theorem val_saturatingFromInteger_five :
    (saturatingFromInteger (⟨5, by decide⟩ : Val .i32) : Fixed T).inner.val = 5 * T.div := by
  have h10 := T.ten_mul_div_le
  have hD := T.intDiv_pos
  have hmin := T.inner.minValue_le_zero
  rw [saturatingFromInteger_eq]
  dsimp only
  exact IntType.clamp_of_mem ⟨by omega, by omega⟩

/-- Times `saturating_from_integer(10)`: ten times the inner value, where that
is a value; nothing rounds, as `DIV` divides `10 * DIV`. -/
theorem val_saturatingMul_ten (y : Fixed T) (h : T.inner.Mem (10 * y.inner.val)) :
    (y.saturatingMul (saturatingFromInteger (⟨10, by decide⟩ : Val .i32))).inner.val =
      10 * y.inner.val := by
  have hD := T.div_pos
  have h10 := T.ten_mul_div_le
  have hmin := T.inner.minValue_le_zero
  have hten : (saturatingFromInteger (⟨10, by decide⟩ : Val .i32) : Fixed T).inner.val =
      10 * T.div := by
    rw [saturatingFromInteger_eq]
    dsimp only
    exact IntType.clamp_of_mem ⟨by omega, by omega⟩
  have hq : mulDivRounded y.inner.val.natAbs (10 * T.div) T.div = 10 * y.inner.val.natAbs := by
    rw [mulDivRounded_of_dvd ⟨y.inner.val.natAbs * 10, by ring⟩,
      show y.inner.val.natAbs * (10 * T.div) = 10 * y.inner.val.natAbs * T.div by ring,
      Nat.mul_div_cancel _ hD]
  have htoInt : I129.toInt ⟨10 * y.inner.val.natAbs, decide (y.inner.val < 0)⟩ = 10 * y.inner.val := by
    unfold I129.toInt
    by_cases hy : y.inner.val < 0
    · rw [decide_eq_true hy, if_pos rfl]
      dsimp only
      omega
    · rw [decide_eq_false hy, if_neg Bool.false_ne_true]
      dsimp only
      omega
  rw [saturatingMul_eq, hten]
  dsimp only
  rw [show (10 * (T.div : ℤ)).natAbs = 10 * T.div by omega, hq,
    decide_eq_false (show ¬ 10 * (T.div : ℤ) < 0 by omega), Bool.bne_false, htoInt,
    IntType.clamp_of_mem h]

/-- Ten times `frac` is a value: `frac` is below `DIV` in magnitude, and is
negative only in a signed type. -/
theorem mem_ten_mul_frac : T.inner.Mem (10 * x.frac.inner.val) := by
  have h10 := T.ten_mul_div_le
  have hlt := abs_lt.1 (abs_frac_lt x)
  have hf := x.frac.inner.mem
  have hpos := T.inner.maxValue_pos
  unfold IntType.Mem at hf ⊢
  cases hs : T.inner.signed
  · have := T.inner.minValue_of_unsigned hs
    omega
  · have := T.inner.minValue_of_signed hs
    omega

/-- `round` by the half of `frac`: `trunc` below it, else a step of `one()`
away from zero and `trunc`. -/
theorem round_eq :
    x.round = if 2 * x.frac.inner.val < T.div then x.trunc
      else if 0 < x.inner.val then (x.saturatingAdd one).trunc else (x.saturatingSub one).trunc := by
  unfold round
  dsimp only
  rw [val_saturatingMul_ten _ (mem_ten_mul_frac x), val_saturatingFromInteger_five]
  by_cases hh : 2 * x.frac.inner.val < T.div
  · rw [if_pos (show 10 * x.frac.inner.val < 5 * T.div by omega), if_pos hh]
  · rw [if_neg (show ¬ 10 * x.frac.inner.val < 5 * T.div by omega), if_neg hh]
    by_cases hp : 0 < x.inner.val
    · rw [if_pos ((isPositive_iff x).2 hp), if_pos hp]
    · rw [if_neg (mt (isPositive_iff x).1 hp), if_neg hp]

/-- At or above zero `round` is the nearest integer, halves up, wherever that
is a value. -/
theorem val_round_of_nonneg (ha : 0 ≤ x.inner.val)
    (hm : T.inner.Mem (roundHalfAway x.inner.val T.div * T.div)) :
    x.round.inner.val = roundHalfAway x.inner.val T.div * T.div := by
  have hD := T.intDiv_pos
  obtain ⟨hlo, hhi⟩ := ediv_mul_bounds x.inner.val hD
  have hfrac : x.frac.inner.val = x.inner.val - x.inner.val / T.div * T.div := by
    have hsum := tdiv_mul_add_tmod x.inner.val T.div
    rw [val_frac_of_nonneg x ha]
    rw [Int.tdiv_eq_ediv_of_nonneg ha] at hsum
    omega
  rw [roundHalfAway, if_pos ha, roundHalf_eq hD hlo hhi] at hm ⊢
  rw [round_eq, hfrac]
  by_cases hr : 2 * (x.inner.val - x.inner.val / T.div * T.div) < T.div
  · rw [if_pos hr, if_pos hr, val_trunc, Int.tdiv_eq_ediv_of_nonneg ha]
  · -- from the half on: one up, then down to the next integer
    have hq0 : 0 ≤ x.inner.val / T.div * T.div := Int.mul_nonneg (Int.ediv_nonneg ha hD.le) hD.le
    rw [if_neg hr] at hm
    rw [if_neg hr, if_neg hr]
    rw [if_pos (show 0 < x.inner.val by omega), val_trunc, val_saturatingAdd, val_one]
    have hk : (x.inner.val / T.div + 1) * T.div = x.inner.val / T.div * T.div + T.div := by ring
    have hmax := T.inner.maxValue_pos
    unfold IntType.Mem at hm
    exact tdiv_mul_eq_of_nonneg (by omega) hD (by omega) (by omega)

/-- At or below `-1` `round` is the nearest integer, halves down, wherever
that is a value. -/
theorem val_round_of_le (ha : x.inner.val ≤ -T.div)
    (hm : T.inner.Mem (roundHalfAway x.inner.val T.div * T.div)) :
    x.round.inner.val = roundHalfAway x.inner.val T.div * T.div := by
  have hD := T.intDiv_pos
  obtain ⟨hlo, hhi⟩ := ediv_mul_bounds (-x.inner.val) hD
  have hq : x.inner.val.tdiv T.div = -((-x.inner.val) / T.div) := by
    rw [tdiv_eq_ite, if_neg (by omega)]
  -- the integer part is not zero, so `frac` is the magnitude of the remainder
  have hfrac : x.frac.inner.val = -x.inner.val - (-x.inner.val) / T.div * T.div := by
    have hsum := tdiv_mul_add_tmod x.inner.val T.div
    have hne : x.inner.val.tdiv T.div ≠ 0 := by
      rw [hq]
      intro h0
      have : (-x.inner.val) / T.div = 0 := by omega
      rw [this] at hhi
      omega
    rw [val_frac, if_neg hne, hq] at *
    rw [abs_of_nonpos (by rw [Int.neg_mul] at hsum; omega)]
    rw [Int.neg_mul] at hsum
    omega
  rw [roundHalfAway, if_neg (show ¬ 0 ≤ x.inner.val by omega), roundHalf_eq hD hlo hhi] at hm ⊢
  rw [round_eq, hfrac]
  by_cases hr : 2 * (-x.inner.val - (-x.inner.val) / T.div * T.div) < T.div
  · rw [if_pos hr, if_pos hr, val_trunc, hq]
  · -- from the half on: one down, then up to the next integer
    rw [if_neg hr] at hm
    rw [if_neg hr, if_neg hr]
    rw [if_neg (show ¬ 0 < x.inner.val by omega), val_trunc, val_saturatingSub, val_one]
    have hk : -((-x.inner.val) / T.div + 1) * T.div = -((-x.inner.val) / T.div * T.div) - T.div := by
      ring
    have hmax := T.inner.maxValue_pos
    unfold IntType.Mem at hm
    exact tdiv_mul_eq_of_nonpos (by omega) hD (by omega) (by omega)

/-- Above `-1` and below zero `round` is zero, also from `-1/2` down, where
the nearest integer, halves away from zero, is `-1`. -/
theorem val_round_of_neg (h1 : -(T.div : ℤ) < x.inner.val) (h2 : x.inner.val < 0) :
    x.round.inner.val = 0 := by
  rw [round_eq, val_frac_of_neg x h1 h2, if_pos (show 2 * x.inner.val < T.div by omega), val_trunc,
    tdiv_eq_zero_of_neg x h1 h2, zero_mul]

/-- `round` is the nearest integer, halves away from zero, wherever that is a
value, except on `(-1, -1/2]`. -/
theorem val_round (hm : T.inner.Mem (roundHalfAway x.inner.val T.div * T.div))
    (hhalf : ¬ (-(T.div : ℤ) < x.inner.val ∧ 2 * x.inner.val ≤ -T.div)) :
    x.round.inner.val = roundHalfAway x.inner.val T.div * T.div := by
  have hD := T.intDiv_pos
  rcases le_or_gt 0 x.inner.val with ha | ha
  · exact val_round_of_nonneg x ha hm
  rcases le_or_gt x.inner.val (-T.div) with hle | hgt
  · exact val_round_of_le x hle hm
  · -- above `-1/2`: the nearest integer is zero too
    have hzero : (2 * -x.inner.val + T.div) / (2 * T.div) = 0 :=
      ediv_eq_of_bounds (by omega) (by omega) (by omega)
    rw [val_round_of_neg x hgt ha, roundHalfAway, if_neg (show ¬ 0 ≤ x.inner.val by omega), hzero,
      Int.neg_zero, zero_mul]

end Round

/-! ## What the numbers stand for -/

section Meaning

variable (x : Fixed T)

def toRat : ℚ := x.inner.val / T.div

theorem div_pos_rat : (0 : ℚ) < T.div := by
  exact_mod_cast T.div_pos

theorem toRat_of_val {k : ℤ} (h : x.inner.val = k * T.div) : x.toRat = k := by
  rw [toRat, h, Int.cast_mul, Int.cast_natCast, mul_div_assoc, div_self div_pos_rat.ne', mul_one]

theorem toRat_nonneg_iff : 0 ≤ x.toRat ↔ 0 ≤ x.inner.val := by
  rw [toRat, le_div_iff₀ div_pos_rat, zero_mul, Rat.intCast_nonneg]

theorem floor_toRat : ⌊x.toRat⌋ = x.inner.val / T.div := Rat.floor_intCast_div_natCast _ _

theorem ceil_toRat : ⌈x.toRat⌉ = -((-x.inner.val) / T.div) := Rat.ceil_intCast_div_natCast _ _

theorem toRat_trunc : x.trunc.toRat = if 0 ≤ x.toRat then ⌊x.toRat⌋ else ⌈x.toRat⌉ := by
  rw [toRat_of_val x.trunc (val_trunc x), tdiv_eq_ite, floor_toRat, ceil_toRat]
  by_cases ha : 0 ≤ x.inner.val
  · rw [if_pos ha, if_pos ((toRat_nonneg_iff x).2 ha)]
  · rw [if_neg ha, if_neg (mt (toRat_nonneg_iff x).1 ha)]

theorem abs_toRat_sub_trunc : |x.toRat - x.trunc.toRat| = |x.frac.toRat| := by
  rw [toRat, toRat, toRat, ← sub_div, abs_div, abs_div, ← Int.cast_sub, ← Int.cast_abs,
    ← Int.cast_abs, abs_sub_trunc]

/-- `ceil` is the least integer at or above the number, wherever that is a
value. -/
theorem toRat_ceil (h : T.inner.Mem (⌈x.toRat⌉ * T.div)) : x.ceil.toRat = ⌈x.toRat⌉ := by
  rw [ceil_toRat] at h ⊢
  exact toRat_of_val x.ceil (val_ceil x h)

/-- `floor` is the greatest integer at or below the number, wherever that is
a value, except at a negative integer. -/
theorem toRat_floor (h : T.inner.Mem (⌊x.toRat⌋ * T.div))
    (hint : ¬ (x.inner.val < 0 ∧ (T.div : ℤ) ∣ x.inner.val)) : x.floor.toRat = ⌊x.toRat⌋ := by
  rw [floor_toRat] at h ⊢
  exact toRat_of_val x.floor (val_floor x h hint)

end Meaning

end Fixed

section RoundMeaning

variable {T : FixedType}

/-- `roundHalfAway` is Mathlib's `round` (halves up) above zero, mirrored
below it. -/
theorem roundHalfAway_toRat (x : Fixed T) :
    (roundHalfAway x.inner.val T.div : ℚ) = if 0 ≤ x.toRat then round x.toRat else -round (-x.toRat) := by
  have hd := Fixed.div_pos_rat (T := T)
  have hhalf (a : ℤ) : ((2 * a + T.div) / (2 * T.div) : ℤ) = round ((a : ℚ) / T.div) := by
    rw [round_eq, show (2 : ℤ) * T.div = ((2 * T.div : ℕ) : ℤ) by push_cast; ring,
      ← Rat.floor_intCast_div_natCast (2 * a + T.div) (2 * T.div)]
    congr 1
    push_cast
    field_simp
  rw [roundHalfAway]
  by_cases ha : 0 ≤ x.inner.val
  · rw [if_pos ha, if_pos ((Fixed.toRat_nonneg_iff x).2 ha), hhalf, Fixed.toRat]
  · rw [if_neg ha, if_neg (mt (Fixed.toRat_nonneg_iff x).1 ha), Int.cast_neg, hhalf, Fixed.toRat,
      ← neg_div, Int.cast_neg, Int.cast_neg]

/-- `round` is the nearest integer, halves away from zero, wherever that is
a value, except on `(-1, -1/2]`. -/
theorem toRat_round (x : Fixed T) (hm : T.inner.Mem (roundHalfAway x.inner.val T.div * T.div))
    (hhalf : ¬ (-(T.div : ℤ) < x.inner.val ∧ 2 * x.inner.val ≤ -T.div)) :
    (Fixed.round x).toRat = if 0 ≤ x.toRat then round x.toRat else -round (-x.toRat) := by
  rw [Fixed.toRat_of_val _ (Fixed.val_round x hm hhalf), roundHalfAway_toRat]

end RoundMeaning

/-- `one()` is not `is_one` in any of the three types; in `FixedI64`,
`floor(-1)` is `-2`, not `-1`, and `round(-0.6)` is `0`, not `-1`. -/
theorem fixed_point_rounding_divergence :
    (Fixed.one : Fixed .fixedI64).isOne = false ∧
    (Fixed.one : Fixed .fixedI128).isOne = false ∧
    (Fixed.one : Fixed .fixedU128).isOne = false ∧
    (Fixed.floor (⟨⟨-1000000000, by decide⟩⟩ : Fixed .fixedI64)).toRat = -2 ∧
    ⌊(⟨⟨-1000000000, by decide⟩⟩ : Fixed .fixedI64).toRat⌋ = -1 ∧
    (Fixed.round (⟨⟨-600000000, by decide⟩⟩ : Fixed .fixedI64)).toRat = 0 ∧
    -round (-(⟨⟨-600000000, by decide⟩⟩ : Fixed .fixedI64).toRat) = -1 := by
  refine ⟨Fixed.isOne_one, Fixed.isOne_one, Fixed.isOne_one, ?_, ?_, ?_, ?_⟩
  · rw [Fixed.toRat_of_val _ (k := -2)
      ((Fixed.val_floor_of_dvd _ (by decide) ⟨-1, by decide⟩ (by decide)).trans (by decide))]
    norm_num
  · rw [Fixed.floor_toRat]
    decide
  · rw [Fixed.toRat_of_val _ (k := 0) ((Fixed.val_round_of_neg _ (by decide) (by decide)).trans (by decide))]
    norm_num
  · rw [Fixed.toRat, round_eq, neg_eq_iff_eq_neg, neg_neg, Int.floor_eq_iff]
    norm_num [FixedType.div]

end SocialNetwork.Arithmetic
