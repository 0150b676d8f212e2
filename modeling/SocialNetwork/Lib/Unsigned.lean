import Mathlib

/-!
# Fixed-width unsigned integers

Rust's `u32`, `u64` and `u128` as natural numbers of a given bit width `w`:
a value of width `w` is one below `2 ^ w`. The operations are the ones of
`core::num` that runtime code calls by name (`checked_*`, `saturating_*`,
`wrapping_*`), and the plain operators as a release build runs them: `+`,
`-` and `*` wrap, `/` by zero panics (`Option.none` here).

Everything is specified by exact arithmetic on `ℕ`: whenever the exact
result is representable, every variant returns it.
-/

namespace Unsigned

def maxValue (w : ℕ) : ℕ := 2 ^ w - 1

def Fits (w n : ℕ) : Prop := n ≤ maxValue w

instance (w n : ℕ) : Decidable (Fits w n) := inferInstanceAs (Decidable (n ≤ maxValue w))

/-- `checked_add`: `none` exactly when the exact sum overflows. -/
def checkedAdd (w a b : ℕ) : Option ℕ := if a + b ≤ maxValue w then some (a + b) else none

/-- `checked_sub`: `none` exactly when the difference is negative. -/
def checkedSub (a b : ℕ) : Option ℕ := if b ≤ a then some (a - b) else none

/-- `checked_mul`: `none` exactly when the exact product overflows. -/
def checkedMul (w a b : ℕ) : Option ℕ := if a * b ≤ maxValue w then some (a * b) else none

/-- `checked_div`, and the plain `/`, which panics on a zero divisor. -/
def checkedDiv (a b : ℕ) : Option ℕ := if b = 0 then none else some (a / b)

/-- `saturating_add`: the exact sum, clamped to `uN::MAX`. -/
def saturatingAdd (w a b : ℕ) : ℕ := min (a + b) (maxValue w)

/-- `saturating_sub`: the exact difference, clamped at zero. -/
def saturatingSub (a b : ℕ) : ℕ := a - b

/-- `saturating_mul`: the exact product, clamped to `uN::MAX`. -/
def saturatingMul (w a b : ℕ) : ℕ := min (a * b) (maxValue w)

def wrappingAdd (w a b : ℕ) : ℕ := (a + b) % 2 ^ w

def wrappingSub (w a b : ℕ) : ℕ := (a + (2 ^ w - b % 2 ^ w)) % 2 ^ w

def wrappingMul (w a b : ℕ) : ℕ := (a * b) % 2 ^ w

def saturatedInto (w a : ℕ) : ℕ := min a (maxValue w)

/-! ## Exactness -/

section Exact

variable {w a b c : ℕ}

theorem maxValue_lt_two_pow (w : ℕ) : maxValue w < 2 ^ w := by
  have := Nat.one_le_two_pow (n := w)
  unfold maxValue; omega

theorem fits_iff_lt : Fits w a ↔ a < 2 ^ w := by
  have := Nat.one_le_two_pow (n := w)
  unfold Fits maxValue; omega

@[simp] theorem checkedAdd_eq_some_iff : checkedAdd w a b = some c ↔ a + b ≤ maxValue w ∧ a + b = c := by
  unfold checkedAdd
  split_ifs with h
  · simp [h]
  · simp [h]

@[simp] theorem checkedAdd_eq_none_iff : checkedAdd w a b = none ↔ maxValue w < a + b := by
  unfold checkedAdd
  split_ifs with h
  · simp [h]
  · simpa using not_le.mp h

@[simp] theorem checkedSub_eq_some_iff : checkedSub a b = some c ↔ b ≤ a ∧ a - b = c := by
  unfold checkedSub
  split_ifs with h
  · simp [h]
  · simp [h]

@[simp] theorem checkedSub_eq_none_iff : checkedSub a b = none ↔ a < b := by
  unfold checkedSub
  split_ifs with h
  · simp [h]
  · simpa using not_le.mp h

@[simp] theorem checkedMul_eq_some_iff : checkedMul w a b = some c ↔ a * b ≤ maxValue w ∧ a * b = c := by
  unfold checkedMul
  split_ifs with h
  · simp [h]
  · simp [h]

@[simp] theorem checkedDiv_eq_some_iff : checkedDiv a b = some c ↔ b ≠ 0 ∧ a / b = c := by
  unfold checkedDiv
  split_ifs with h
  · simp [h]
  · simp [h]

theorem saturatingAdd_of_le (h : a + b ≤ maxValue w) : saturatingAdd w a b = a + b := by
  unfold saturatingAdd; exact Nat.min_eq_left h

theorem saturatingMul_of_le (h : a * b ≤ maxValue w) : saturatingMul w a b = a * b := by
  unfold saturatingMul; exact Nat.min_eq_left h

theorem saturatingMul_of_lt (h : maxValue w < a * b) : saturatingMul w a b = maxValue w := by
  unfold saturatingMul; exact Nat.min_eq_right (Nat.le_of_lt h)

theorem saturatingMul_le_maxValue : saturatingMul w a b ≤ maxValue w := by
  unfold saturatingMul; exact Nat.min_le_right _ _

theorem saturatingMul_le_mul : saturatingMul w a b ≤ a * b := by
  unfold saturatingMul; exact Nat.min_le_left _ _

theorem wrappingSub_of_le (hb : b ≤ a) (ha : a < 2 ^ w) : wrappingSub w a b = a - b := by
  have hb' : b < 2 ^ w := Nat.lt_of_le_of_lt hb ha
  unfold wrappingSub
  rw [Nat.mod_eq_of_lt hb']
  have : a + (2 ^ w - b) = (a - b) + 2 ^ w := by omega
  rw [this, Nat.add_mod_right, Nat.mod_eq_of_lt (by omega)]

theorem wrappingAdd_of_lt (h : a + b < 2 ^ w) : wrappingAdd w a b = a + b :=
  Nat.mod_eq_of_lt h

theorem wrappingAdd_lt : wrappingAdd w a b < 2 ^ w :=
  Nat.mod_lt _ (Nat.two_pow_pos w)

theorem saturatedInto_of_le (h : a ≤ maxValue w) : saturatedInto w a = a := by
  unfold saturatedInto; exact Nat.min_eq_left h

/-- A wrapping counter holds its count modulo `2 ^ w`: adding to it adds to
the count. -/
theorem wrappingAdd_mod (a b : ℕ) : wrappingAdd w (a % 2 ^ w) b = (a + b) % 2 ^ w :=
  Nat.mod_add_mod a (2 ^ w) b

theorem wrappingSub_one_mod (ha : 0 < a) : wrappingSub w (a % 2 ^ w) 1 = (a - 1) % 2 ^ w := by
  unfold wrappingSub
  rcases Nat.eq_zero_or_pos w with rfl | hw
  · simp [Nat.mod_one]
  · have hone : 1 % 2 ^ w = 1 := Nat.mod_eq_of_lt (Nat.one_lt_two_pow hw.ne')
    have hsplit : a + (2 ^ w - 1) = (a - 1) + 2 ^ w := by
      have := Nat.one_le_two_pow (n := w)
      omega
    rw [hone, Nat.mod_add_mod, hsplit, Nat.add_mod_right]

end Exact

/-! ## Big-endian bytes -/

/-- The `k` low bytes of `n`, most significant first: what `to_big_endian`
writes for a `k`-byte integer. -/
def bigEndianBytes : ℕ → ℕ → List UInt8
  | 0, _ => []
  | k + 1, n => bigEndianBytes k (n / 256) ++ [UInt8.ofNat n]

@[simp] theorem bigEndianBytes_length (k n : ℕ) : (bigEndianBytes k n).length = k := by
  induction k generalizing n with
  | zero => rfl
  | succ k ih => simp [bigEndianBytes, ih]

@[simp] theorem bigEndianBytes_zero (k : ℕ) : bigEndianBytes k 0 = List.replicate k 0 := by
  induction k with
  | zero => rfl
  | succ k ih => simp [bigEndianBytes, ih, List.replicate_succ']

/-- The high `j` bytes of a `j + k`-byte encoding encode what is left of
`n` after its `k` low bytes. -/
theorem bigEndianBytes_add (j k n : ℕ) :
    bigEndianBytes (j + k) n = bigEndianBytes j (n / 256 ^ k) ++ bigEndianBytes k n := by
  induction k generalizing n with
  | zero => simp [bigEndianBytes]
  | succ k ih =>
      have hdiv : n / 256 / 256 ^ k = n / 256 ^ (k + 1) := by
        rw [Nat.div_div_eq_div_mul, Nat.pow_succ, Nat.mul_comm]
      rw [← Nat.add_assoc, bigEndianBytes, ih, hdiv, bigEndianBytes, List.append_assoc]

theorem bigEndianBytes_of_lt {j k n : ℕ} (h : n < 256 ^ k) :
    bigEndianBytes (j + k) n = List.replicate j 0 ++ bigEndianBytes k n := by
  rw [bigEndianBytes_add, Nat.div_eq_of_lt h, bigEndianBytes_zero]

/-! ## Powers of two -/

/-- `checked_next_power_of_two` at width `w`: the least power of two at least
`n` (`1` for `0`), none when it does not fit. -/
def checkedNextPowerOfTwo (w n : ℕ) : Option ℕ :=
  ((List.range w).find? fun k => n ≤ 2 ^ k).map (2 ^ ·)

/-- `trailing_zeros` at width `w`: the index of the lowest set bit, `w` for
zero. -/
def trailingZeros (w n : ℕ) : ℕ := ((List.range w).find? fun k => n.testBit k).getD w

theorem checkedNextPowerOfTwo_eq_some {w n p : ℕ} (h : checkedNextPowerOfTwo w n = some p) :
    ∃ k < w, p = 2 ^ k ∧ n ≤ p := by
  obtain ⟨k, hk, rfl⟩ := Option.map_eq_some_iff.1 h
  exact ⟨k, List.mem_range.1 (List.mem_of_find?_eq_some hk), rfl, by simpa using List.find?_some hk⟩

theorem find?_range_eq_of_unique {w k : ℕ} {p : ℕ → Bool} (hk : k < w)
    (hp : ∀ j, p j = decide (j = k)) : (List.range w).find? p = some k := by
  rw [List.find?_eq_some_iff_getElem]
  refine ⟨by simp [hp], k, by simpa using hk, by simp, fun j hj => ?_⟩
  simp [hp]
  omega

theorem trailingZeros_two_pow {w k : ℕ} (hk : k < w) : trailingZeros w (2 ^ k) = k := by
  unfold trailingZeros
  rw [find?_range_eq_of_unique hk (fun j => by rw [Nat.testBit_two_pow]; simp [eq_comm])]
  rfl

end Unsigned
