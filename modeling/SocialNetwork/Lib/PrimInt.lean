import SocialNetwork.Lib.Unsigned

/-!
# Rust's primitive integer types

`i8` to `i128` and `u8` to `u128` (`IntType`), each a signedness and a width
of at most 128 bits. A value of a type (`Val`) is an integer between the
type's `min_value()` and `max_value()`, with the proof that it is one.

The operations are those of `core::num` that generic code reaches through
traits (`Bounded`, `Saturating`, `CheckedNeg`, `TryFrom<u128>`,
`UniqueSaturatedInto<u128>`), each given by its exact result: a checked
operation returns it when it is a value of the type (`checked`), a saturating
one moves it into the range (`clamp`).
-/

namespace PrimInt

/-- The primitive integer types. -/
inductive IntType
  | i8 | i16 | i32 | i64 | i128
  | u8 | u16 | u32 | u64 | u128
  deriving DecidableEq, Repr

namespace IntType

def signed : IntType → Bool
  | i8 | i16 | i32 | i64 | i128 => true
  | u8 | u16 | u32 | u64 | u128 => false

def bits : IntType → ℕ
  | i8 | u8 => 8
  | i16 | u16 => 16
  | i32 | u32 => 32
  | i64 | u64 => 64
  | i128 | u128 => 128

def minValue (t : IntType) : ℤ := if t.signed then -2 ^ (t.bits - 1) else 0

def maxValue (t : IntType) : ℤ := if t.signed then 2 ^ (t.bits - 1) - 1 else 2 ^ t.bits - 1

def Mem (t : IntType) (z : ℤ) : Prop := t.minValue ≤ z ∧ z ≤ t.maxValue

instance (t : IntType) (z : ℤ) : Decidable (t.Mem z) := inferInstanceAs (Decidable (_ ∧ _))

/-! ## The range -/

section Range

variable (t : IntType)

theorem minValue_le_zero : t.minValue ≤ 0 := by
  cases t <;> simp [minValue, signed]

theorem maxValue_pos : 0 < t.maxValue := by
  cases t <;> simp [maxValue, signed, bits]

theorem maxValue_lt : t.maxValue < 2 ^ 128 := by
  cases t <;> simp [maxValue, signed, bits]

theorem le_minValue : -2 ^ 127 ≤ t.minValue := by
  cases t <;> simp [minValue, signed, bits]

theorem minValue_of_signed (h : t.signed = true) : t.minValue = -(t.maxValue + 1) := by
  simp only [minValue, maxValue, h, if_true]
  ring

theorem minValue_of_unsigned (h : t.signed = false) : t.minValue = 0 := by
  simp [minValue, h]

theorem mem_zero : t.Mem 0 := ⟨t.minValue_le_zero, t.maxValue_pos.le⟩

theorem mem_minValue : t.Mem t.minValue := ⟨le_rfl, t.minValue_le_zero.trans t.maxValue_pos.le⟩

theorem mem_maxValue : t.Mem t.maxValue := ⟨t.minValue_le_zero.trans t.maxValue_pos.le, le_rfl⟩

theorem mem_clamp (z : ℤ) : t.Mem (max t.minValue (min z t.maxValue)) := by
  have := t.minValue_le_zero.trans t.maxValue_pos.le
  constructor <;> omega

theorem natAbs_lt {z : ℤ} (h : t.Mem z) : z.natAbs < 2 ^ 128 := by
  have := t.maxValue_lt
  have := t.le_minValue
  unfold Mem at h
  omega

end Range

end IntType

/-- A value of type `t`. -/
@[ext] structure Val (t : IntType) where
  val : ℤ
  mem : t.Mem val
  deriving DecidableEq

namespace IntType

variable (t : IntType)

def checked (z : ℤ) : Option (Val t) := if h : t.Mem z then some ⟨z, h⟩ else none

def clamp (z : ℤ) : Val t := ⟨max t.minValue (min z t.maxValue), t.mem_clamp z⟩

/-- `Zero::zero()`. -/
def zero : Val t := ⟨0, t.mem_zero⟩

def minVal : Val t := ⟨t.minValue, t.mem_minValue⟩

def maxVal : Val t := ⟨t.maxValue, t.mem_maxValue⟩

def tryFromU128 (v : ℕ) : Option (Val t) := t.checked v

end IntType

namespace Val

variable {t : IntType}

/-- `Saturating::saturating_add`. -/
def saturatingAdd (a b : Val t) : Val t := t.clamp (a.val + b.val)

/-- `Saturating::saturating_sub`. -/
def saturatingSub (a b : Val t) : Val t := t.clamp (a.val - b.val)

def checkedNeg (a : Val t) : Option (Val t) := t.checked (-a.val)

def saturatedIntoU128 (a : Val t) : ℕ := Unsigned.saturatedInto 128 a.val.toNat

end Val

/-! ## Checked and saturating results -/

namespace IntType

variable {t : IntType} {z : ℤ} {v : Val t}

theorem checked_of_mem (h : t.Mem z) : t.checked z = some ⟨z, h⟩ := dif_pos h

theorem checked_of_not_mem (h : ¬ t.Mem z) : t.checked z = none := dif_neg h

@[simp] theorem checked_eq_some_iff : t.checked z = some v ↔ t.Mem z ∧ v.val = z := by
  unfold checked
  split_ifs with h
  · constructor
    · rintro ⟨⟩
      exact ⟨h, rfl⟩
    · rintro ⟨-, rfl⟩
      rfl
  · simp [h]

@[simp] theorem checked_eq_none_iff : t.checked z = none ↔ ¬ t.Mem z := by
  unfold checked
  split_ifs with h <;> simp [h]

@[simp] theorem val_clamp : (t.clamp z).val = max t.minValue (min z t.maxValue) := rfl

theorem clamp_of_mem (h : t.Mem z) : (t.clamp z).val = z := by
  unfold Mem at h
  rw [val_clamp]
  omega

theorem clamp_of_lt (h : z < t.minValue) : (t.clamp z).val = t.minValue := by
  have := t.minValue_le_zero.trans t.maxValue_pos.le
  rw [val_clamp]
  omega

theorem clamp_of_gt (h : t.maxValue < z) : (t.clamp z).val = t.maxValue := by
  have := t.minValue_le_zero.trans t.maxValue_pos.le
  rw [val_clamp]
  omega

@[simp] theorem val_zero : t.zero.val = 0 := rfl

@[simp] theorem val_minVal : t.minVal.val = t.minValue := rfl

@[simp] theorem val_maxVal : t.maxVal.val = t.maxValue := rfl

end IntType

namespace Val

variable {t : IntType} (a b : Val t)

@[simp] theorem val_saturatingAdd : (a.saturatingAdd b).val = max t.minValue (min (a.val + b.val) t.maxValue) := rfl

@[simp] theorem val_saturatingSub : (a.saturatingSub b).val = max t.minValue (min (a.val - b.val) t.maxValue) := rfl

theorem natAbs_lt : a.val.natAbs < 2 ^ 128 := t.natAbs_lt a.mem

theorem saturatedIntoU128_eq : a.saturatedIntoU128 = a.val.toNat := by
  have h := natAbs_lt a
  unfold saturatedIntoU128 Unsigned.saturatedInto Unsigned.maxValue
  omega

end Val

/-! ## Division toward zero

Rust's `/` and `%` round the quotient toward zero: `Int.tdiv` and `Int.tmod`.
The multiple of the divisor that `/` then `*` gives lies between zero and the
dividend, and so does the remainder; both are values wherever the dividend is.
-/

section TruncDiv

variable {a d : ℤ}

theorem tdiv_mul_of_nonneg (ha : 0 ≤ a) (hd : 0 < d) : 0 ≤ a.tdiv d * d ∧ a.tdiv d * d ≤ a := by
  rw [Int.tdiv_eq_ediv_of_nonneg ha]
  exact ⟨Int.mul_nonneg (Int.ediv_nonneg ha hd.le) hd.le, Int.ediv_mul_le a hd.ne'⟩

theorem tdiv_eq_neg_tdiv_neg (a d : ℤ) : a.tdiv d = -((-a).tdiv d) := by
  rw [Int.neg_tdiv, Int.neg_neg]

theorem tdiv_mul_of_nonpos (ha : a ≤ 0) (hd : 0 < d) : a ≤ a.tdiv d * d ∧ a.tdiv d * d ≤ 0 := by
  have h := tdiv_mul_of_nonneg (Int.neg_nonneg_of_nonpos ha) hd
  rw [tdiv_eq_neg_tdiv_neg a d, Int.neg_mul]
  omega

theorem tdiv_mul_add_tmod (a d : ℤ) : a.tdiv d * d + a.tmod d = a := by
  rw [Int.tmod_def]
  ring

theorem tdiv_eq_ite (a d : ℤ) : a.tdiv d = if 0 ≤ a then a / d else -((-a) / d) := by
  split_ifs with ha
  · exact Int.tdiv_eq_ediv_of_nonneg ha
  · rw [tdiv_eq_neg_tdiv_neg, Int.tdiv_eq_ediv_of_nonneg (by omega)]

theorem ediv_mul_bounds (a : ℤ) (hd : 0 < d) : a / d * d ≤ a ∧ a < a / d * d + d := by
  have h := Int.ediv_mul_add_emod a d
  have := Int.emod_nonneg a hd.ne'
  have := Int.emod_lt_of_pos a hd
  omega

theorem ediv_eq_of_bounds {k : ℤ} (hd : 0 < d) (h1 : k * d ≤ a) (h2 : a < k * d + d) : a / d = k := by
  exact ((Int.ediv_emod_unique (a := a) (r := a - k * d) (q := k) hd).2
    ⟨by ring, by omega, by omega⟩).1

/-- The multiple of `d` in `(s - d, s]` is what `/` then `*` gives for a
non-negative `s`. -/
theorem tdiv_mul_eq_of_nonneg {s k : ℤ} (hs : 0 ≤ s) (hd : 0 < d) (h1 : k * d ≤ s)
    (h2 : s < k * d + d) : s.tdiv d * d = k * d := by
  rw [Int.tdiv_eq_ediv_of_nonneg hs, ediv_eq_of_bounds hd h1 h2]

/-- The multiple of `d` in `[s, s + d)` is what `/` then `*` gives for a
non-positive `s`. -/
theorem tdiv_mul_eq_of_nonpos {s k : ℤ} (hs : s ≤ 0) (hd : 0 < d) (h1 : s ≤ k * d)
    (h2 : k * d < s + d) : s.tdiv d * d = k * d := by
  have hq : (-s) / d = -k := ediv_eq_of_bounds (a := -s) hd (by rw [Int.neg_mul]; omega)
    (by rw [Int.neg_mul]; omega)
  rw [tdiv_eq_neg_tdiv_neg, Int.tdiv_eq_ediv_of_nonneg (by omega), hq, Int.neg_neg]

namespace IntType

variable {t : IntType}

theorem mem_tdiv_mul (h : t.Mem a) (hd : 0 < d) : t.Mem (a.tdiv d * d) := by
  have := t.minValue_le_zero
  have := t.maxValue_pos
  unfold Mem at h ⊢
  rcases le_total 0 a with ha | ha
  · have := tdiv_mul_of_nonneg ha hd
    omega
  · have := tdiv_mul_of_nonpos ha hd
    omega

theorem mem_tmod (h : t.Mem a) (hd : 0 < d) : t.Mem (a.tmod d) := by
  have hsum := tdiv_mul_add_tmod a d
  unfold Mem at h ⊢
  rcases le_total 0 a with ha | ha
  · have := tdiv_mul_of_nonneg ha hd
    have := t.minValue_le_zero
    omega
  · have := tdiv_mul_of_nonpos ha hd
    have := t.maxValue_pos
    omega

end IntType

end TruncDiv

end PrimInt
