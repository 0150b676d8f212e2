import SocialNetwork.Primitives.Arithmetic.Helpers128Bit

/-!
# `sp_arithmetic::Rational128`

A `Rational128(n, d)` is the rational `n / d` of two `u128`s (`toRat`).
`checked_add` and `checked_sub` bring both to the least common multiple of
the denominators (`lcm`, through `gcd` and `multiply_by_rational`), rescale
the numerators (`to_den`) and add or subtract them; `cmp` and `eq` compare
the cross products as `BigUint`s.

Every rescaling divides exactly, so `multiply_by_rational` never rounds here
(`mulDivRounded_of_dvd`): an `Ok` sum or difference is the exact one
(`checkedAdd_spec`, `checkedSub_spec`), and `cmp` and `eq` are the order and
equality of the rationals. A computation that may panic or return a `Result`
is `Option (Except String _)`, and `r.map_err(..)?` is `bindOr`.
-/

namespace SocialNetwork.Arithmetic

open Helpers128Bit

/-- `Rational128`: a numerator and a denominator, each a `u128`. -/
structure Rational128 where
  n : ℕ
  d : ℕ
  deriving DecidableEq, Repr

/-- `r.map_err(|_| msg)?`, where a panic stays a panic. -/
def bindOr {α β : Type} (msg : String) (r : Option (Except String α))
    (k : α → Option (Except String β)) : Option (Except String β) :=
  match r with
  | none => none
  | some (.error _) => some (.error msg)
  | some (.ok a) => k a

@[simp] theorem bindOr_ok {α β : Type} (msg : String) (a : α) (k : α → Option (Except String β)) :
    bindOr msg (some (.ok a)) k = k a := rfl

@[simp] theorem bindOr_error {α β : Type} (msg e : String) (k : α → Option (Except String β)) :
    bindOr msg (some (.error e)) k = some (.error msg) := rfl

namespace Rational128

def toRat (x : Rational128) : ℚ := (x.n : ℚ) / x.d

/-- `to_den`: the same number over `den`, through `multiply_by_rational`. -/
def toDen (self : Rational128) (den : ℕ) : Option (Except String Rational128) :=
  if den = self.d then some (.ok self)
  else (multiplyByRational self.n den self.d).map (Except.map fun n => ⟨n, den⟩)

/-- `lcm`: the least common multiple of the denominators. -/
def lcm (self other : Rational128) : Option (Except String ℕ) :=
  if self.d = other.d then some (.ok self.d)
  else multiplyByRational self.d other.d (Helpers128Bit.gcd self.d other.d)

/-- `checked_add`. -/
def checkedAdd (self other : Rational128) : Option (Except String Rational128) :=
  bindOr "failed to scale to denominator" (self.lcm other) fun lcm =>
  bindOr "failed to scale to denominator" (self.toDen lcm) fun selfScaled =>
  bindOr "failed to scale to denominator" (other.toDen lcm) fun otherScaled =>
  match Unsigned.checkedAdd 128 selfScaled.n otherScaled.n with
  | none => some (.error "overflow while adding numerators")
  | some n => some (.ok ⟨n, selfScaled.d⟩)

/-- `checked_sub`. -/
def checkedSub (self other : Rational128) : Option (Except String Rational128) :=
  bindOr "failed to scale to denominator" (self.lcm other) fun lcm =>
  bindOr "failed to scale to denominator" (self.toDen lcm) fun selfScaled =>
  bindOr "failed to scale to denominator" (other.toDen lcm) fun otherScaled =>
  match Unsigned.checkedSub selfScaled.n otherScaled.n with
  | none => some (.error "overflow while subtracting numerators")
  | some n => some (.ok ⟨n, selfScaled.d⟩)

/-- `Ord::cmp`: the cross products, as `BigUint`s. -/
def cmp (self other : Rational128) : Ordering :=
  if self.d = other.d then compare self.n other.n
  else if self.d = 0 then .gt
  else if other.d = 0 then .lt
  else
    let selfN := (toBigUint self.n).mul (toBigUint other.d)
    let otherN := (toBigUint other.n).mul (toBigUint self.d)
    selfN.cmp otherN

/-- `PartialEq::eq`. -/
def eq (self other : Rational128) : Bool :=
  if self.d = other.d then self.n == other.n
  else
    let selfN := (toBigUint self.n).mul (toBigUint other.d)
    let otherN := (toBigUint other.n).mul (toBigUint self.d)
    selfN.eq otherN

/-! ## Valid values -/

/-- A `Rational128` of two `u128`s with a non-zero denominator. -/
structure Valid (x : Rational128) : Prop where
  n_lt : x.n < 2 ^ 128
  d_pos : 0 < x.d
  d_lt : x.d < 2 ^ 128

@[simp] theorem toRat_mk (n d : ℕ) : (⟨n, d⟩ : Rational128).toRat = (n : ℚ) / d := rfl

variable {x y z : Rational128}

theorem toRat_scale (hd : 0 < x.d) {l : ℕ} (hl : 0 < l) (hdvd : x.d ∣ l) :
    ((x.n * (l / x.d) : ℕ) : ℚ) / l = x.toRat := by
  obtain ⟨k, rfl⟩ := hdvd
  have hk : (k : ℚ) ≠ 0 := by
    rintro h
    rw [Nat.cast_eq_zero.1 h, Nat.mul_zero] at hl
    exact lt_irrefl 0 hl
  rw [Nat.mul_div_cancel_left _ hd, toRat, Nat.cast_mul, Nat.cast_mul, mul_div_mul_right _ _ hk]

theorem compare_toRat (hx : 0 < x.d) (hy : 0 < y.d) :
    compare x.toRat y.toRat = compare (x.n * y.d) (y.n * x.d) := by
  have hxq : (x.d : ℚ) ≠ 0 := Nat.cast_ne_zero.2 hx.ne'
  have hyq : (y.d : ℚ) ≠ 0 := Nat.cast_ne_zero.2 hy.ne'
  have hpos : (0 : ℚ) < x.d * y.d := mul_pos (Nat.cast_pos.2 hx) (Nat.cast_pos.2 hy)
  rw [← cmp_eq_compare, ← cmp_eq_compare, ← cmp_mul_pos_right hpos,
    ← (Nat.strictMono_cast : StrictMono (Nat.cast : ℕ → ℚ)).cmp_map_eq]
  congr 1
  · rw [toRat, Nat.cast_mul]
    field_simp
  · rw [toRat, Nat.cast_mul]
    field_simp

theorem toRat_eq_iff (hx : 0 < x.d) (hy : 0 < y.d) :
    x.toRat = y.toRat ↔ x.n * y.d = y.n * x.d := by
  rw [← compare_eq_iff_eq, compare_toRat hx hy, compare_eq_iff_eq]

/-! ## `lcm` and `to_den` -/

/-- `lcm` of valid values: the least common multiple, or the error of
`multiply_by_rational` when it does not fit; `gcd` divides the product, so
nothing is rounded. -/
theorem lcm_eq (hx : x.Valid) (hy : y.Valid) :
    x.lcm y = some (if Nat.lcm x.d y.d < 2 ^ 128 then .ok (Nat.lcm x.d y.d)
      else .error "result cannot fit in u128") := by
  unfold lcm
  by_cases hd : x.d = y.d
  · rw [if_pos hd, ← hd, Nat.lcm_self, if_pos hx.d_lt]
  · have hg : 0 < Nat.gcd x.d y.d := Nat.gcd_pos_of_pos_left _ hx.d_pos
    have hdvd : Nat.gcd x.d y.d ∣ x.d * y.d := Dvd.dvd.mul_right (Nat.gcd_dvd_left _ _) _
    rw [if_neg hd, gcd_eq, multiplyByRational_eq hx.d_lt hy.d_lt
      ((Nat.gcd_le_left _ hx.d_pos).trans_lt hx.d_lt), max_eq_left hg, mulDivRounded_of_dvd hdvd]
    rfl

/-- `to_den` to a multiple of the denominator: the numerator scaled exactly,
or the error when it does not fit. -/
theorem toDen_eq (hx : x.Valid) {den : ℕ} (hden : den < 2 ^ 128) (hdvd : x.d ∣ den) :
    x.toDen den = some (if x.n * (den / x.d) < 2 ^ 128 then .ok ⟨x.n * (den / x.d), den⟩
      else .error "result cannot fit in u128") := by
  unfold toDen
  by_cases hd : den = x.d
  · -- the same denominator: `self` unchanged
    subst hd
    rw [if_pos rfl, Nat.div_self hx.d_pos, Nat.mul_one, if_pos hx.n_lt]
  · rw [if_neg hd, multiplyByRational_eq hx.n_lt hden hx.d_lt, max_eq_left hx.d_pos,
      mulDivRounded_of_dvd (Dvd.dvd.mul_left hdvd _), Nat.mul_div_assoc _ hdvd, Option.map_some]
    split_ifs <;> rfl

/-- What `checked_add` and `checked_sub` share: both numerators over the least
common multiple, or the one error when any of the three does not fit. -/
theorem scale_eq {β : Type} (hx : x.Valid) (hy : y.Valid) (msg : String)
    (k : Rational128 → Rational128 → Option (Except String β)) :
    (bindOr msg (x.lcm y) fun l =>
      bindOr msg (x.toDen l) fun xs =>
      bindOr msg (y.toDen l) fun ys => k xs ys) =
    if Nat.lcm x.d y.d < 2 ^ 128 ∧ x.n * (Nat.lcm x.d y.d / x.d) < 2 ^ 128 ∧
        y.n * (Nat.lcm x.d y.d / y.d) < 2 ^ 128 then
      k ⟨x.n * (Nat.lcm x.d y.d / x.d), Nat.lcm x.d y.d⟩ ⟨y.n * (Nat.lcm x.d y.d / y.d), Nat.lcm x.d y.d⟩
    else some (.error msg) := by
  rw [lcm_eq hx hy]
  by_cases hl : Nat.lcm x.d y.d < 2 ^ 128
  · rw [if_pos hl, bindOr_ok, toDen_eq hx hl (Nat.dvd_lcm_left _ _),
      toDen_eq hy hl (Nat.dvd_lcm_right _ _)]
    by_cases ha : x.n * (Nat.lcm x.d y.d / x.d) < 2 ^ 128
    · rw [if_pos ha, bindOr_ok]
      by_cases hb : y.n * (Nat.lcm x.d y.d / y.d) < 2 ^ 128
      · rw [if_pos hb, bindOr_ok, if_pos ⟨hl, ha, hb⟩]
      · rw [if_neg hb, bindOr_error, if_neg (fun h => hb h.2.2)]
    · rw [if_neg ha, bindOr_error, if_neg (fun h => ha h.2.1)]
  · rw [if_neg hl, bindOr_error, if_neg (fun h => hl h.1)]

/-! ## `checked_add` and `checked_sub` -/

theorem checkedAdd_ok (hx : x.Valid) (hy : y.Valid) (h : x.checkedAdd y = some (.ok z)) :
    z = ⟨x.n * (Nat.lcm x.d y.d / x.d) + y.n * (Nat.lcm x.d y.d / y.d), Nat.lcm x.d y.d⟩ := by
  rw [checkedAdd, scale_eq hx hy] at h
  split_ifs at h
  · dsimp only at h
    cases hc : Unsigned.checkedAdd 128 (x.n * (Nat.lcm x.d y.d / x.d)) (y.n * (Nat.lcm x.d y.d / y.d)) with
    | none => rw [hc] at h; cases h
    | some n =>
      rw [hc] at h
      cases h
      rw [(Unsigned.checkedAdd_eq_some_iff.1 hc).2]
  · cases h

theorem checkedSub_ok (hx : x.Valid) (hy : y.Valid) (h : x.checkedSub y = some (.ok z)) :
    y.n * (Nat.lcm x.d y.d / y.d) ≤ x.n * (Nat.lcm x.d y.d / x.d) ∧
    z = ⟨x.n * (Nat.lcm x.d y.d / x.d) - y.n * (Nat.lcm x.d y.d / y.d), Nat.lcm x.d y.d⟩ := by
  rw [checkedSub, scale_eq hx hy] at h
  split_ifs at h
  · dsimp only at h
    cases hc : Unsigned.checkedSub (x.n * (Nat.lcm x.d y.d / x.d)) (y.n * (Nat.lcm x.d y.d / y.d)) with
    | none => rw [hc] at h; cases h
    | some n =>
      rw [hc] at h
      cases h
      obtain ⟨hle, hn⟩ := Unsigned.checkedSub_eq_some_iff.1 hc
      exact ⟨hle, by rw [hn]⟩
  · cases h

theorem checkedAdd_toRat (hx : x.Valid) (hy : y.Valid) (h : x.checkedAdd y = some (.ok z)) :
    z.toRat = x.toRat + y.toRat := by
  have hl : 0 < Nat.lcm x.d y.d := Nat.lcm_pos hx.d_pos hy.d_pos
  rw [checkedAdd_ok hx hy h, toRat_mk, Nat.cast_add, add_div,
    toRat_scale hx.d_pos hl (Nat.dvd_lcm_left _ _), toRat_scale hy.d_pos hl (Nat.dvd_lcm_right _ _)]

theorem checkedSub_toRat (hx : x.Valid) (hy : y.Valid) (h : x.checkedSub y = some (.ok z)) :
    y.toRat ≤ x.toRat ∧ z.toRat = x.toRat - y.toRat := by
  have hl : 0 < Nat.lcm x.d y.d := Nat.lcm_pos hx.d_pos hy.d_pos
  have hlq : (0 : ℚ) < Nat.lcm x.d y.d := Nat.cast_pos.2 hl
  obtain ⟨hle, rfl⟩ := checkedSub_ok hx hy h
  have hxs := toRat_scale hx.d_pos hl (Nat.dvd_lcm_left _ _)
  have hys := toRat_scale hy.d_pos hl (Nat.dvd_lcm_right _ _)
  constructor
  · rw [← hxs, ← hys]
    exact div_le_div_of_nonneg_right (Nat.cast_le.2 hle) hlq.le
  · rw [toRat_mk, Nat.cast_sub hle, sub_div, hxs, hys]

/-! ## `cmp` and `eq` -/

theorem value_mul_toBigUint {a b : ℕ} (ha : a < 2 ^ 128) (hb : b < 2 ^ 128) :
    ((toBigUint a).mul (toBigUint b)).value = a * b := by
  rw [BigUint.value_mul, value_toBigUint ha, value_toBigUint hb]

theorem cmp_eq (hx : x.Valid) (hy : y.Valid) : x.cmp y = compare x.toRat y.toRat := by
  rw [compare_toRat hx.d_pos hy.d_pos, Rational128.cmp]
  by_cases hd : x.d = y.d
  · -- one denominator: the numerators, as the cross products scale both by it
    rw [if_pos hd, ← hd, ← cmp_eq_compare, ← cmp_eq_compare, cmp_mul_pos_right hx.d_pos]
  · rw [if_neg hd, if_neg hx.d_pos.ne', if_neg hy.d_pos.ne']
    dsimp only
    rw [BigUint.cmp_eq_compare, value_mul_toBigUint hx.n_lt hy.d_lt,
      value_mul_toBigUint hy.n_lt hx.d_lt]

theorem eq_iff (hx : x.Valid) (hy : y.Valid) : x.eq y = true ↔ x.toRat = y.toRat := by
  rw [toRat_eq_iff hx.d_pos hy.d_pos, Rational128.eq]
  by_cases hd : x.d = y.d
  · rw [if_pos hd, beq_iff_eq, ← hd, Nat.mul_left_inj hx.d_pos.ne']
  · rw [if_neg hd]
    dsimp only
    rw [BigUint.eq_iff_value_eq, value_mul_toBigUint hx.n_lt hy.d_lt,
      value_mul_toBigUint hy.n_lt hx.d_lt]

/-- `Rational128` is exact: `gcd` terminates with the greatest common divisor;
for valid values an `Ok` of `checked_add` or `checked_sub` is the exact sum or
difference, and `cmp` and `eq` are the order and equality of the rationals. -/
theorem rational128_exact (x y : Rational128) (hx : x.Valid) (hy : y.Valid) :
    (∀ a b, Helpers128Bit.gcd a b = Nat.gcd a b) ∧
    (∀ z, x.checkedAdd y = some (.ok z) → z.toRat = x.toRat + y.toRat) ∧
    (∀ z, x.checkedSub y = some (.ok z) → y.toRat ≤ x.toRat ∧ z.toRat = x.toRat - y.toRat) ∧
    x.cmp y = compare x.toRat y.toRat ∧
    (x.eq y = true ↔ x.toRat = y.toRat) :=
  ⟨gcd_eq, fun _ h => checkedAdd_toRat hx hy h, fun _ h => checkedSub_toRat hx hy h,
    cmp_eq hx hy, eq_iff hx hy⟩

/-- A half and a third. -/
theorem rational128_exact_half_third :
    (Valid ⟨1, 2⟩ ∧ Valid ⟨1, 3⟩) ∧
    (∀ a b, Helpers128Bit.gcd a b = Nat.gcd a b) ∧
    (∀ z, (⟨1, 2⟩ : Rational128).checkedAdd ⟨1, 3⟩ = some (.ok z) →
      z.toRat = (⟨1, 2⟩ : Rational128).toRat + (⟨1, 3⟩ : Rational128).toRat) ∧
    (∀ z, (⟨1, 2⟩ : Rational128).checkedSub ⟨1, 3⟩ = some (.ok z) →
      (⟨1, 3⟩ : Rational128).toRat ≤ (⟨1, 2⟩ : Rational128).toRat ∧
        z.toRat = (⟨1, 2⟩ : Rational128).toRat - (⟨1, 3⟩ : Rational128).toRat) ∧
    (⟨1, 2⟩ : Rational128).cmp ⟨1, 3⟩ =
      compare (⟨1, 2⟩ : Rational128).toRat (⟨1, 3⟩ : Rational128).toRat ∧
    ((⟨1, 2⟩ : Rational128).eq ⟨1, 3⟩ = true ↔
      (⟨1, 2⟩ : Rational128).toRat = (⟨1, 3⟩ : Rational128).toRat) :=
  have h2 : Valid ⟨1, 2⟩ := ⟨by decide, by decide, by decide⟩
  have h3 : Valid ⟨1, 3⟩ := ⟨by decide, by decide, by decide⟩
  ⟨⟨h2, h3⟩, rational128_exact ⟨1, 2⟩ ⟨1, 3⟩ h2 h3⟩

end Rational128

end SocialNetwork.Arithmetic
