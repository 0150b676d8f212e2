import SocialNetwork.Primitives.Arithmetic.FixedPoint.I129
import SocialNetwork.Primitives.Arithmetic.Helpers128Bit

/-!
# `sp_arithmetic::fixed_point`: the types and their checked operations

`implement_fixed!` builds three decimal fixed-point types (`FixedType`):
`FixedI64` over `i64` with `DIV = 10⁹`, and `FixedI128` and `FixedU128` over
`i128` and `u128` with `DIV = 10¹⁸`. A number (`Fixed T`) is its inner value,
read as `inner / DIV`.

Every checked operation takes the magnitudes and signs of its operands
(`I129`), computes a magnitude with `multiply_by_rational` or integer
division, and gives back `from_i129` of it with the sign of the product. So
each returns `none` exactly on a zero divisor or when that signed result is no
value of the target type, and else the result (`checkedMul_eq` and its
siblings); each saturating variant returns the signed result clamped into the
target type, the bound on the side of the product's sign when it overflows,
and panics on a zero divisor where the source says so.

`multiply_by_rational(..).ok()` reads a panic of `multiply_by_rational` as
`None` too; on `u128` arguments it has none (`multiplyByRational_eq`).
-/

namespace SocialNetwork.Arithmetic

open PrimInt Helpers128Bit

/-- The fixed-point types of `implement_fixed!`. -/
inductive FixedType
  | fixedI64 | fixedI128 | fixedU128
  deriving DecidableEq, Repr

namespace FixedType

/-- `Inner`. -/
def inner : FixedType → IntType
  | fixedI64 => .i64
  | fixedI128 => .i128
  | fixedU128 => .u128

/-- `DIV`. -/
def div : FixedType → ℕ
  | fixedI64 => 1000000000
  | fixedI128 => 1000000000000000000
  | fixedU128 => 1000000000000000000

variable (T : FixedType)

theorem div_pos : 0 < T.div := by
  cases T <;> decide

theorem div_lt : T.div < 2 ^ 128 := by
  cases T <;> decide

theorem ten_mul_div_le : 10 * (T.div : ℤ) ≤ T.inner.maxValue := by
  cases T <;> decide

theorem mem_div : T.inner.Mem T.div := by
  have := T.ten_mul_div_le
  have := T.inner.minValue_le_zero
  constructor <;> omega

end FixedType

/-- A number of the fixed-point type `T`: its inner value, `self.0`. -/
@[ext] structure Fixed (T : FixedType) where
  inner : Val T.inner
  deriving DecidableEq

namespace Fixed

variable {T : FixedType}

/-- `zero()`: `from_inner(Inner::zero())`. -/
def zero : Fixed T := ⟨T.inner.zero⟩

/-- `one()`: `from_inner(DIV)`. -/
def one : Fixed T := ⟨⟨T.div, T.mem_div⟩⟩

/-- `is_positive`. -/
def isPositive (x : Fixed T) : Bool := decide (T.inner.zero.val < x.inner.val)

/-- `is_negative`. -/
def isNegative (x : Fixed T) : Bool := decide (x.inner.val < T.inner.zero.val)

/-- `Saturating::saturating_add`: on the inner values. -/
def saturatingAdd (x rhs : Fixed T) : Fixed T := ⟨x.inner.saturatingAdd rhs.inner⟩

/-- `Saturating::saturating_sub`: on the inner values. -/
def saturatingSub (x rhs : Fixed T) : Fixed T := ⟨x.inner.saturatingSub rhs.inner⟩

def saturatingAbs (x : Fixed T) : Fixed T :=
  if x.inner.val ≥ T.inner.zero.val then x
  else ⟨x.inner.checkedNeg.getD T.inner.maxVal⟩

/-- `CheckedMul`: `self * other / DIV` on magnitudes, with the product's sign. -/
def checkedMul (x other : Fixed T) : Option (Fixed T) :=
  let lhs := I129.ofVal x.inner
  let rhs := I129.ofVal other.inner
  let negative := lhs.negative != rhs.negative
  (((multiplyByRational lhs.value rhs.value T.div).bind Except.toOption).bind fun value =>
    fromI129 T.inner ⟨value, negative⟩).map Fixed.mk

/-- `CheckedDiv`: `self * DIV / other` on magnitudes; `None` for a zero
`other`. -/
def checkedDiv (x other : Fixed T) : Option (Fixed T) :=
  if other.inner.val = 0 then none
  else
    let lhs := I129.ofVal x.inner
    let rhs := I129.ofVal other.inner
    let negative := lhs.negative != rhs.negative
    (((multiplyByRational lhs.value T.div rhs.value).bind Except.toOption).bind fun value =>
      fromI129 T.inner ⟨value, negative⟩).map Fixed.mk

/-- `Saturating::saturating_mul`. -/
def saturatingMul (x rhs : Fixed T) : Fixed T :=
  (x.checkedMul rhs).getD ⟨toBound T.inner x.inner rhs.inner⟩

/-- `checked_from_rational(n, d)`: `n * DIV / d`; `DIV.unique_saturated_into()`
is `DIV`. -/
def checkedFromRational {N D : IntType} (n : Val N) (d : Val D) : Option (Fixed T) :=
  if d.val = D.zero.val then none
  else
    let n := I129.ofVal n
    let d := I129.ofVal d
    let negative := n.negative != d.negative
    (((multiplyByRational n.value T.div d.value).bind Except.toOption).bind fun value =>
      fromI129 T.inner ⟨value, negative⟩).map Fixed.mk

/-- `saturating_from_rational(n, d)`; `none` is the panic on `d = 0`. -/
def saturatingFromRational {N D : IntType} (n : Val N) (d : Val D) : Option (Fixed T) :=
  if d.val = D.zero.val then none
  else some ((checkedFromRational n d).getD ⟨toBound T.inner n d⟩)

/-- `checked_mul_int(n)`: `self * n / DIV` on magnitudes, as an `N`. -/
def checkedMulInt {N : IntType} (x : Fixed T) (n : Val N) : Option (Val N) :=
  let lhs := I129.ofVal x.inner
  let rhs := I129.ofVal n
  let negative := lhs.negative != rhs.negative
  ((multiplyByRational lhs.value rhs.value T.div).bind Except.toOption).bind fun value =>
    fromI129 N ⟨value, negative⟩

/-- `saturating_mul_int(n)`. -/
def saturatingMulInt {N : IntType} (x : Fixed T) (n : Val N) : Val N :=
  (x.checkedMulInt n).getD (toBound N x.inner n)

/-- `checked_div_int(d)`: `self / d / DIV` on magnitudes, as an `N`. -/
def checkedDivInt {N : IntType} (x : Fixed T) (d : Val N) : Option (Val N) :=
  let lhs := I129.ofVal x.inner
  let rhs := I129.ofVal d
  let negative := lhs.negative != rhs.negative
  ((Unsigned.checkedDiv lhs.value rhs.value).bind fun n => Unsigned.checkedDiv n T.div).bind
    fun value => fromI129 N ⟨value, negative⟩

/-- `saturating_div_int(d)`; `none` is the panic on `d = 0`. -/
def saturatingDivInt {N : IntType} (x : Fixed T) (d : Val N) : Option (Val N) :=
  if d.val = N.zero.val then none
  else some ((x.checkedDivInt d).getD (toBound N x.inner d))

/-- `saturating_from_integer(int)`: `int * DIV`, its magnitude saturating in
`u128`; the literal `0` of `to_bound(int, 0)` is an `i32`. -/
def saturatingFromInteger {N : IntType} (int : Val N) : Fixed T :=
  let n := I129.ofVal int
  let n := { n with value := Unsigned.saturatingMul 128 n.value T.div }
  ⟨(fromI129 T.inner n).getD (toBound T.inner int IntType.i32.zero)⟩

end Fixed

/-! ## The signed result -/

section SignedResult

variable {N D R : IntType}

/-- `multiply_by_rational(a, b, c).ok()` and then `from_i129` with a sign:
`checked` of the rounded quotient with that sign. -/
theorem bind_fromI129 {a b c : ℕ} (ha : a < 2 ^ 128) (hb : b < 2 ^ 128) (hc : c < 2 ^ 128)
    (hc1 : 1 ≤ c) (N : IntType) (negative : Bool) :
    (((multiplyByRational a b c).bind Except.toOption).bind fun value =>
        fromI129 N ⟨value, negative⟩) =
      N.checked (I129.toInt ⟨mulDivRounded a b c, negative⟩) := by
  rw [multiplyByRational_eq ha hb hc, max_eq_left hc1, Option.bind_some]
  by_cases hfit : mulDivRounded a b c < 2 ^ 128
  · rw [if_pos hfit]
    exact fromI129_eq N _
  · -- the error of `multiply_by_rational`: a magnitude no type holds
    rw [if_neg hfit, checked_toInt_of_le (not_lt.1 hfit)]
    rfl

theorem toBound_eq (a : Val N) (b : Val D) :
    toBound R a b = if (decide (a.val < 0) != decide (b.val < 0)) = true then R.minVal else R.maxVal :=
  rfl

/-- The fallback to `to_bound` when the signed result is out of range is the
clamp of that result: the bound on the side of its sign. -/
theorem getD_toBound (a : Val N) (b : Val D) (v : ℕ) {negative : Bool}
    (hneg : negative = (decide (a.val < 0) != decide (b.val < 0))) :
    (R.checked (I129.toInt ⟨v, negative⟩)).getD (toBound R a b) = R.clamp (I129.toInt ⟨v, negative⟩) := by
  by_cases hm : R.Mem (I129.toInt ⟨v, negative⟩)
  · rw [IntType.checked_of_mem hm, Option.getD_some]
    exact Val.ext (IntType.clamp_of_mem hm).symm
  · rw [IntType.checked_of_not_mem hm, Option.getD_none, toBound_eq, ← hneg]
    have hpos := R.maxValue_pos
    have hmin := R.minValue_le_zero
    unfold IntType.Mem at hm
    unfold I129.toInt at hm ⊢
    cases negative
    · -- no sign: above `max_value()`
      rw [if_neg Bool.false_ne_true]
      rw [if_neg Bool.false_ne_true] at hm ⊢
      exact Val.ext (IntType.clamp_of_gt (by omega)).symm
    · rw [if_pos rfl]
      rw [if_pos rfl] at hm ⊢
      exact Val.ext (IntType.clamp_of_lt (by omega)).symm

end SignedResult

namespace Fixed

variable {T : FixedType} {N D : IntType}

/-! ## Multiplication and division of two numbers -/

theorem checkedMul_eq (x y : Fixed T) :
    x.checkedMul y = (T.inner.checked (I129.toInt
      ⟨mulDivRounded x.inner.val.natAbs y.inner.val.natAbs T.div,
        decide (x.inner.val < 0) != decide (y.inner.val < 0)⟩)).map Fixed.mk := by
  unfold checkedMul
  dsimp only
  rw [ofVal_value, ofVal_value, ofVal_negative, ofVal_negative,
    bind_fromI129 x.inner.natAbs_lt y.inner.natAbs_lt T.div_lt T.div_pos]

theorem checkedDiv_eq (x y : Fixed T) :
    x.checkedDiv y = if y.inner.val = 0 then none else
      (T.inner.checked (I129.toInt
        ⟨mulDivRounded x.inner.val.natAbs T.div y.inner.val.natAbs,
          decide (x.inner.val < 0) != decide (y.inner.val < 0)⟩)).map Fixed.mk := by
  unfold checkedDiv
  by_cases hy : y.inner.val = 0
  · rw [if_pos hy, if_pos hy]
  · rw [if_neg hy, if_neg hy]
    dsimp only
    rw [ofVal_value, ofVal_value, ofVal_negative, ofVal_negative,
      bind_fromI129 x.inner.natAbs_lt T.div_lt y.inner.natAbs_lt (by omega)]

theorem saturatingMul_eq (x y : Fixed T) :
    x.saturatingMul y = ⟨T.inner.clamp (I129.toInt
      ⟨mulDivRounded x.inner.val.natAbs y.inner.val.natAbs T.div,
        decide (x.inner.val < 0) != decide (y.inner.val < 0)⟩)⟩ := by
  rw [saturatingMul, checkedMul_eq, Option.getD_map, getD_toBound _ _ _ rfl]

/-! ## From a rational -/

theorem checkedFromRational_eq (n : Val N) (d : Val D) :
    (checkedFromRational n d : Option (Fixed T)) = if d.val = 0 then none else
      (T.inner.checked (I129.toInt
        ⟨mulDivRounded n.val.natAbs T.div d.val.natAbs,
          decide (n.val < 0) != decide (d.val < 0)⟩)).map Fixed.mk := by
  unfold checkedFromRational
  rw [IntType.val_zero]
  by_cases hd : d.val = 0
  · rw [if_pos hd, if_pos hd]
  · rw [if_neg hd, if_neg hd]
    dsimp only
    rw [ofVal_value, ofVal_value, ofVal_negative, ofVal_negative,
      bind_fromI129 n.natAbs_lt T.div_lt d.natAbs_lt (by omega)]

theorem saturatingFromRational_eq (n : Val N) (d : Val D) :
    (saturatingFromRational n d : Option (Fixed T)) = if d.val = 0 then none else
      some ⟨T.inner.clamp (I129.toInt
        ⟨mulDivRounded n.val.natAbs T.div d.val.natAbs,
          decide (n.val < 0) != decide (d.val < 0)⟩)⟩ := by
  unfold saturatingFromRational
  rw [IntType.val_zero]
  by_cases hd : d.val = 0
  · rw [if_pos hd, if_pos hd]
  · rw [if_neg hd, if_neg hd, checkedFromRational_eq, if_neg hd, Option.getD_map,
      getD_toBound _ _ _ rfl]

/-! ## With an integer -/

theorem checkedMulInt_eq (x : Fixed T) (n : Val N) :
    x.checkedMulInt n = N.checked (I129.toInt
      ⟨mulDivRounded x.inner.val.natAbs n.val.natAbs T.div,
        decide (x.inner.val < 0) != decide (n.val < 0)⟩) := by
  unfold checkedMulInt
  dsimp only
  rw [ofVal_value, ofVal_value, ofVal_negative, ofVal_negative,
    bind_fromI129 x.inner.natAbs_lt n.natAbs_lt T.div_lt T.div_pos]

theorem saturatingMulInt_eq (x : Fixed T) (n : Val N) :
    x.saturatingMulInt n = N.clamp (I129.toInt
      ⟨mulDivRounded x.inner.val.natAbs n.val.natAbs T.div,
        decide (x.inner.val < 0) != decide (n.val < 0)⟩) := by
  rw [saturatingMulInt, checkedMulInt_eq, getD_toBound _ _ _ rfl]

theorem checkedDivInt_eq (x : Fixed T) (d : Val N) :
    x.checkedDivInt d = if d.val = 0 then none else N.checked (I129.toInt
      ⟨x.inner.val.natAbs / d.val.natAbs / T.div,
        decide (x.inner.val < 0) != decide (d.val < 0)⟩) := by
  unfold checkedDivInt
  dsimp only
  rw [ofVal_value, ofVal_value, ofVal_negative, ofVal_negative]
  by_cases hd : d.val = 0
  · rw [if_pos hd, hd, Int.natAbs_zero, Unsigned.checkedDiv, if_pos rfl]
    rfl
  · have hd' : d.val.natAbs ≠ 0 := by omega
    rw [if_neg hd, Unsigned.checkedDiv, if_neg hd', Option.bind_some, Unsigned.checkedDiv,
      if_neg T.div_pos.ne', Option.bind_some, fromI129_eq]

theorem saturatingDivInt_eq (x : Fixed T) (d : Val N) :
    x.saturatingDivInt d = if d.val = 0 then none else some (N.clamp (I129.toInt
      ⟨x.inner.val.natAbs / d.val.natAbs / T.div,
        decide (x.inner.val < 0) != decide (d.val < 0)⟩)) := by
  unfold saturatingDivInt
  rw [IntType.val_zero]
  by_cases hd : d.val = 0
  · rw [if_pos hd, if_pos hd]
  · rw [if_neg hd, if_neg hd, checkedDivInt_eq, if_neg hd, getD_toBound _ _ _ rfl]

/-- `saturating_from_integer(int)` is `int * DIV`, clamped: the magnitude
saturating in `u128` changes nothing, as no type holds `2 ^ 128 - 1` but
`u128`, whose bound it is. -/
theorem saturatingFromInteger_eq (int : Val N) :
    (saturatingFromInteger int : Fixed T) = ⟨T.inner.clamp (int.val * T.div)⟩ := by
  unfold saturatingFromInteger
  dsimp only
  rw [ofVal_value, ofVal_negative, fromI129_eq,
    getD_toBound int IntType.i32.zero _ (by rw [IntType.val_zero]; simp)]
  congr 1
  apply Val.ext
  have hpos := T.inner.maxValue_pos
  have hmin := T.inner.minValue_le_zero
  have hmax := T.inner.maxValue_lt
  have hle := T.inner.le_minValue
  have hD := T.div_pos
  rw [IntType.val_clamp, IntType.val_clamp]
  unfold I129.toInt Unsigned.saturatingMul Unsigned.maxValue
  dsimp only
  by_cases hn : int.val < 0
  · have hprod : ((int.val.natAbs * T.div : ℕ) : ℤ) = -(int.val * T.div) := by
      rw [Nat.cast_mul, Int.natCast_natAbs, abs_of_neg hn]
      ring
    rw [decide_eq_true hn, if_pos rfl]
    omega
  · have hprod : ((int.val.natAbs * T.div : ℕ) : ℤ) = int.val * T.div := by
      rw [Nat.cast_mul, Int.natCast_natAbs, abs_of_nonneg (not_lt.1 hn)]
    rw [decide_eq_false hn, if_neg Bool.false_ne_true]
    omega

end Fixed

/-! ## Sign and magnitude, both ways -/

/-- Into `I129` and back is exact for every operand type, `min_value()`
included, and `from_i129` returns exactly the values of the target type; so
each checked operation of a fixed-point type returns `None` exactly on a zero
divisor or when its signed result is out of range, and each saturating one
returns that result clamped, or panics on a zero divisor. -/
theorem fixed_point_sign_magnitude :
    (∀ (N : IntType) (n : Val N), fromI129 N (I129.ofVal n) = some n) ∧
    (∀ (N : IntType) (v : I129) (m : Val N),
      fromI129 N v = some m ↔ N.Mem v.toInt ∧ m.val = v.toInt) ∧
    (∀ (T : FixedType) (x y : Fixed T),
      x.checkedMul y = (T.inner.checked (I129.toInt
        ⟨mulDivRounded x.inner.val.natAbs y.inner.val.natAbs T.div,
          decide (x.inner.val < 0) != decide (y.inner.val < 0)⟩)).map Fixed.mk ∧
      x.saturatingMul y = ⟨T.inner.clamp (I129.toInt
        ⟨mulDivRounded x.inner.val.natAbs y.inner.val.natAbs T.div,
          decide (x.inner.val < 0) != decide (y.inner.val < 0)⟩)⟩ ∧
      x.checkedDiv y = if y.inner.val = 0 then none else
        (T.inner.checked (I129.toInt
          ⟨mulDivRounded x.inner.val.natAbs T.div y.inner.val.natAbs,
            decide (x.inner.val < 0) != decide (y.inner.val < 0)⟩)).map Fixed.mk) ∧
    (∀ (T : FixedType) (N D : IntType) (n : Val N) (d : Val D),
      (Fixed.checkedFromRational n d : Option (Fixed T)) = (if d.val = 0 then none else
        (T.inner.checked (I129.toInt
          ⟨mulDivRounded n.val.natAbs T.div d.val.natAbs,
            decide (n.val < 0) != decide (d.val < 0)⟩)).map Fixed.mk) ∧
      (Fixed.saturatingFromRational n d : Option (Fixed T)) = if d.val = 0 then none else
        some ⟨T.inner.clamp (I129.toInt
          ⟨mulDivRounded n.val.natAbs T.div d.val.natAbs,
            decide (n.val < 0) != decide (d.val < 0)⟩)⟩) ∧
    (∀ (T : FixedType) (N : IntType) (x : Fixed T) (n : Val N),
      x.checkedMulInt n = N.checked (I129.toInt
        ⟨mulDivRounded x.inner.val.natAbs n.val.natAbs T.div,
          decide (x.inner.val < 0) != decide (n.val < 0)⟩) ∧
      x.saturatingMulInt n = N.clamp (I129.toInt
        ⟨mulDivRounded x.inner.val.natAbs n.val.natAbs T.div,
          decide (x.inner.val < 0) != decide (n.val < 0)⟩) ∧
      x.checkedDivInt n = (if n.val = 0 then none else N.checked (I129.toInt
        ⟨x.inner.val.natAbs / n.val.natAbs / T.div,
          decide (x.inner.val < 0) != decide (n.val < 0)⟩)) ∧
      x.saturatingDivInt n = if n.val = 0 then none else some (N.clamp (I129.toInt
        ⟨x.inner.val.natAbs / n.val.natAbs / T.div,
          decide (x.inner.val < 0) != decide (n.val < 0)⟩))) := by
  refine ⟨fun N n => fromI129_ofVal n, fun N v m => ?_, fun T x y => ?_, fun T N D n d => ?_,
    fun T N x n => ?_⟩
  · rw [fromI129_eq, IntType.checked_eq_some_iff]
  · exact ⟨Fixed.checkedMul_eq x y, Fixed.saturatingMul_eq x y, Fixed.checkedDiv_eq x y⟩
  · exact ⟨Fixed.checkedFromRational_eq n d, Fixed.saturatingFromRational_eq n d⟩
  · exact ⟨Fixed.checkedMulInt_eq x n, Fixed.saturatingMulInt_eq x n, Fixed.checkedDivInt_eq x n,
      Fixed.saturatingDivInt_eq x n⟩

/-- A zero divisor: `checked_div` returns `None`, although
`multiply_by_rational`, which takes a zero divisor as one, returns `DIV`, an
`i64`. -/
theorem fixed_checked_div_by_zero :
    (Fixed.checkedDiv ⟨⟨1, by decide⟩⟩ Fixed.zero : Option (Fixed .fixedI64)) = none ∧
    multiplyByRational 1 FixedType.fixedI64.div 0 = some (.ok 1000000000) ∧
    IntType.i64.Mem 1000000000 :=
  ⟨rfl, rfl, by decide⟩

end SocialNetwork.Arithmetic
