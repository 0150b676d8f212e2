import SocialNetwork.Primitives.Arithmetic.BigUint.Compare

/-!
# `sp_arithmetic::helpers_128bit`

`multiply_by_rational(a, b, c)` computes `a * b / c` for `u128` values with
`c` taken as at least one. It first divides `a` or `b` by `c` when `c`
divides it, then tries the product in `u128`; when that overflows it moves
to `BigUint`, divides by one limb when `c` has one, and otherwise runs
Algorithm D and rounds the quotient to the nearest, up when the remainder is
above `c / 2`.

So the result is the floor of `a * b / c` except on the last path, where it
can be one more (`multiply_by_rational_result`): nothing panics, and the error
comes exactly when that result does not fit in `u128`. `gcd` is the binary
GCD of `Rational128`.
-/

namespace SocialNetwork.Arithmetic.Helpers128Bit

open BigUint

/-- `gcd`: binary GCD. `x & 1` is `x % 2`, `x >> 1` is `x / 2` and
`x << 1` is `x * 2`, which does not overflow as the GCD is at most `x`. -/
def gcd (a b : ℕ) : ℕ :=
  if a = b then b
  else if a = 0 then b
  else if b = 0 then a
  else if a % 2 = 0 ∧ b % 2 = 1 then gcd (a / 2) b
  else if a % 2 = 1 ∧ b % 2 = 0 then gcd (b / 2) a
  else if a % 2 = 0 ∧ b % 2 = 0 then gcd (a / 2) (b / 2) * 2
  else gcd ((max a b - min a b) / 2) (min a b)
termination_by a + b
decreasing_by all_goals omega

/-! ## `gcd` -/

theorem gcd_half_of_odd {a b : ℕ} (ha : a % 2 = 0) (hb : b % 2 = 1) :
    Nat.gcd (a / 2) b = Nat.gcd a b := by
  obtain ⟨k, rfl⟩ : ∃ k, a = 2 * k := ⟨a / 2, by omega⟩
  rw [Nat.mul_div_cancel_left _ (by decide),
    Nat.Coprime.gcd_mul_left_cancel k (Nat.coprime_two_left.2 (Nat.odd_iff.2 hb))]

theorem gcd_half_half {a b : ℕ} (ha : a % 2 = 0) (hb : b % 2 = 0) :
    Nat.gcd (a / 2) (b / 2) * 2 = Nat.gcd a b := by
  obtain ⟨k, rfl⟩ : ∃ k, a = 2 * k := ⟨a / 2, by omega⟩
  obtain ⟨l, rfl⟩ : ∃ l, b = 2 * l := ⟨b / 2, by omega⟩
  rw [Nat.mul_div_cancel_left _ (by decide), Nat.mul_div_cancel_left _ (by decide),
    Nat.gcd_mul_left, Nat.mul_comm]

theorem gcd_sub_half {a b : ℕ} (ha : a % 2 = 1) (hb : b % 2 = 1) :
    Nat.gcd ((max a b - min a b) / 2) (min a b) = Nat.gcd a b := by
  have hsub : Nat.gcd (max a b - min a b) (min a b) = Nat.gcd a b := by
    rcases le_total a b with h | h
    · rw [max_eq_right h, min_eq_left h, Nat.gcd_sub_self_left h, Nat.gcd_comm]
    · rw [max_eq_left h, min_eq_right h, Nat.gcd_sub_self_left h]
  rw [gcd_half_of_odd (by omega) (by omega), hsub]

theorem gcd_eq (a b : ℕ) : gcd a b = Nat.gcd a b := by
  fun_induction gcd a b with
  | case1 b => exact (Nat.gcd_self b).symm
  | case2 b => exact (Nat.gcd_zero_left b).symm
  | case3 a => exact (Nat.gcd_zero_right a).symm
  | case4 a b _ _ _ h ih => rw [ih, gcd_half_of_odd h.1 h.2]
  | case5 a b _ _ _ _ h ih => rw [ih, gcd_half_of_odd h.2 h.1, Nat.gcd_comm]
  | case6 a b _ _ _ _ _ h ih => rw [ih, gcd_half_half h.1 h.2]
  | case7 a b _ _ _ h1 h2 h3 ih => rw [ih, gcd_sub_half (by omega) (by omega)]

/-- `split`: the high and the low `u64` of a `u128`. -/
def split (a : ℕ) : ℕ × ℕ := ((a >>> 64) % 2 ^ 64, a % 2 ^ 64)

/-- `to_big_uint`: the four limbs of a `u128`, stripped. -/
def toBigUint (x : ℕ) : BigUint :=
  let xs := split x
  let xh := BigUint.split xs.1
  let xl := BigUint.split xs.2
  (fromLimbs [xh.1, xh.2, xl.1, xl.2]).lstrip

/-- The big-number path of `multiply_by_rational`, after the product has
overflowed: `none` when an `expect` panics. -/
def multiplyBig (a b c : ℕ) : Option BigUint :=
  let aNum := toBigUint a
  let bNum := toBigUint b
  let cNum := toBigUint c
  let ab := (aNum.mul bNum).lstrip
  if cNum.len = 1 then some (ab.divUnit (UInt32.ofNat c))
  else
    let qr := (ab.div cNum true).getD (zero, zero)
    match tryIntoU128 qr.2 with
    | .error _ => none
    | .ok r => some (if r > c / 2 then qr.1.add (toBigUint 1) else qr.1)

/-- The end of `multiply_by_rational`: the product in `u128` when it fits,
else the big-number path and the conversion back. -/
def multiplyChecked (a b c : ℕ) : Option (Except String ℕ) :=
  match Unsigned.checkedMul 128 a b with
  | some x => some (.ok (x / c))
  | none =>
      (multiplyBig a b c).map fun q =>
        match tryIntoU128 q.lstrip with
        | .ok x => .ok x
        | .error _ => .error "result cannot fit in u128"

/-- `multiply_by_rational(a, b, c)`; `none` when it panics. -/
def multiplyByRational (a b c : ℕ) : Option (Except String ℕ) :=
  if a = 0 ∨ b = 0 then some (.ok 0)
  else
    let c := max c 1
    -- the larger of the two first
    let ab := if b > a then (b, a) else (a, b)
    -- the division first, when `c` divides one of them
    let abc := if ab.1 % c = 0 then (ab.1 / c, ab.2, 1)
      else if ab.2 % c = 0 then (ab.1, ab.2 / c, 1) else (ab.1, ab.2, c)
    multiplyChecked abc.1 abc.2.1 abc.2.2

/-! ## `to_big_uint` -/

theorem value_toBigUint {x : ℕ} (hx : x < 2 ^ 128) : (toBigUint x).value = x := by
  unfold toBigUint
  rw [value_lstrip, fromLimbs, if_neg (by simp), value_cons, value_cons, value_cons, value_cons]
  have hnil : (⟨[]⟩ : BigUint).value = 0 := rfl
  simp only [BigUint.split, split, UInt32.toNat_ofNat', Nat.shiftRight_eq_div_pow, B,
    List.length_cons, List.length_nil, hnil, Nat.reducePow]
  omega

theorem stripped_toBigUint (x : ℕ) : (toBigUint x).Stripped := stripped_lstrip _

theorem B_pow_four : B ^ 4 = 2 ^ 128 := by norm_num [B]

theorem len_toBigUint_le {x : ℕ} (hx : x < 2 ^ 128) : (toBigUint x).len ≤ 4 :=
  ((stripped_toBigUint x).value_lt_pow_iff (by decide)).1 (by rw [value_toBigUint hx, B_pow_four]; exact hx)

theorem len_toBigUint_eq_one_iff {x : ℕ} (h1 : 1 ≤ x) (hx : x < 2 ^ 128) :
    (toBigUint x).len = 1 ↔ x < B := by
  constructor
  · intro hlen
    have := value_lt (toBigUint x)
    rwa [hlen, pow_one, value_toBigUint hx] at this
  · intro hxB
    apply (stripped_toBigUint x).len_eq le_rfl
    · rw [value_toBigUint hx, Nat.sub_self, pow_zero]
      exact h1
    · rw [value_toBigUint hx, pow_one]
      exact hxB

/-! ## `multiply_by_rational` -/

/-- What `multiply_by_rational(a, b, c)` computes for `c ≥ 1`: `a * b / c`,
rounded up when the product overflows `u128`, `c` has more than one limb and
the remainder is above `c / 2`. -/
def mulDivRounded (a b c : ℕ) : ℕ :=
  a * b / c + if 2 ^ 128 ≤ a * b ∧ B ≤ c ∧ c / 2 < a * b % c then 1 else 0

/-- The big-number path, for `a * b ≥ 2 ^ 128` and `1 ≤ c < 2 ^ 128`: never a
panic, and the quotient rounded as `mulDivRounded` says. -/
theorem multiplyBig_spec {a b c : ℕ} (ha : a < 2 ^ 128) (hb : b < 2 ^ 128) (hc1 : 1 ≤ c)
    (hc : c < 2 ^ 128) (hab : 2 ^ 128 ≤ a * b) :
    ∃ q, multiplyBig a b c = some q ∧ q.value = mulDivRounded a b c := by
  have habv : ((toBigUint a).mul (toBigUint b)).lstrip.value = a * b := by
    rw [value_lstrip, value_mul, value_toBigUint ha, value_toBigUint hb]
  have hcv := value_toBigUint hc
  unfold multiplyBig mulDivRounded
  dsimp only
  by_cases hcB : c < B
  · -- one limb: `div_unit`, and no rounding
    rw [if_pos ((len_toBigUint_eq_one_iff hc1 hc).2 hcB)]
    refine ⟨_, rfl, ?_⟩
    rw [value_divUnit, habv, toNat_ofNat_of_lt hcB, max_eq_left hc1,
      if_neg (fun h => absurd h.2.1 (not_le.2 hcB)), Nat.add_zero]
  · -- more limbs: Algorithm D on stripped numbers, the product the longer
    have hclen : 2 ≤ (toBigUint c).len := by
      have := ((stripped_toBigUint c).value_lt_pow_iff le_rfl).not.1
        (by rw [hcv, pow_one]; exact hcB)
      omega
    have hablen : 4 < ((toBigUint a).mul (toBigUint b)).lstrip.len := by
      have := ((stripped_lstrip ((toBigUint a).mul (toBigUint b))).value_lt_pow_iff
        (show 1 ≤ 4 by decide)).not.1 (by rw [habv, B_pow_four]; exact not_lt.2 hab)
      omega
    obtain ⟨q, r, hdiv, hq, hr⟩ := div_spec hclen
      ((stripped_toBigUint c).resolve_left (by omega))
      ((stripped_lstrip ((toBigUint a).mul (toBigUint b))).resolve_left (by omega)) (by have := len_toBigUint_le hc; omega) true
    rw [if_neg (by omega), hdiv, Option.getD_some]
    -- the remainder is below `c`, so it converts to `u128`
    have hrv : r.value = a * b % c := by rw [hr rfl, habv, hcv]
    rw [tryIntoU128_eq, if_pos (by rw [hrv]; exact (Nat.mod_lt _ (by omega)).trans hc)]
    refine ⟨_, rfl, ?_⟩
    dsimp only
    rw [hrv]
    by_cases hround : c / 2 < a * b % c
    · rw [if_pos hround, if_pos ⟨hab, not_lt.1 hcB, hround⟩, value_add, hq, habv, hcv,
        value_toBigUint (by decide)]
    · rw [if_neg hround, if_neg (fun h => hround h.2.2), hq, habv, hcv, Nat.add_zero]

theorem multiplyChecked_eq {a b c : ℕ} (ha : a < 2 ^ 128) (hb : b < 2 ^ 128) (hc1 : 1 ≤ c)
    (hc : c < 2 ^ 128) :
    multiplyChecked a b c = some (if mulDivRounded a b c < 2 ^ 128 then .ok (mulDivRounded a b c)
      else .error "result cannot fit in u128") := by
  unfold multiplyChecked
  by_cases hfit : a * b < 2 ^ 128
  · -- the product fits: floor division, and no rounding
    have hmul : Unsigned.checkedMul 128 a b = some (a * b) :=
      if_pos (show a * b ≤ Unsigned.maxValue 128 from Unsigned.fits_iff_lt.2 hfit)
    have hr : mulDivRounded a b c = a * b / c := by
      rw [mulDivRounded, if_neg (fun h => absurd h.1 (not_le.2 hfit)), Nat.add_zero]
    rw [hmul, hr, if_pos (lt_of_le_of_lt (Nat.div_le_self _ _) hfit)]
  · have hmul : Unsigned.checkedMul 128 a b = none :=
      if_neg (fun h => hfit (Unsigned.fits_iff_lt.1 h))
    obtain ⟨q, hq, hqv⟩ := multiplyBig_spec ha hb hc1 hc (not_lt.1 hfit)
    rw [hmul]
    dsimp only
    rw [hq, Option.map_some, tryIntoU128_eq, value_lstrip, hqv]
    split_ifs <;> rfl

theorem mulDivRounded_of_dvd {a b c : ℕ} (h : c ∣ a * b) : mulDivRounded a b c = a * b / c := by
  have hmod : a * b % c = 0 := Nat.mod_eq_zero_of_dvd h
  rw [mulDivRounded, if_neg (fun h => Nat.not_lt_zero _ (hmod ▸ h.2.2)), Nat.add_zero]

theorem mulDivRounded_div_left {a b c : ℕ} (h : a % c = 0) :
    mulDivRounded (a / c) b 1 = mulDivRounded a b c := by
  have hdvd : c ∣ a := Nat.dvd_of_mod_eq_zero h
  have hmod : a * b % c = 0 := Nat.mod_eq_zero_of_dvd (Dvd.dvd.mul_right hdvd b)
  rw [mulDivRounded, mulDivRounded, if_neg (fun h => absurd h.2.1 (by decide)),
    if_neg (fun h => Nat.not_lt_zero _ (hmod ▸ h.2.2)), Nat.div_one, Nat.div_mul_right_comm hdvd]

theorem mulDivRounded_div_right {a b c : ℕ} (h : b % c = 0) :
    mulDivRounded a (b / c) 1 = mulDivRounded a b c := by
  have hdvd : c ∣ b := Nat.dvd_of_mod_eq_zero h
  have hmod : a * b % c = 0 := Nat.mod_eq_zero_of_dvd (Dvd.dvd.mul_left hdvd a)
  rw [mulDivRounded, mulDivRounded, if_neg (fun h => absurd h.2.1 (by decide)),
    if_neg (fun h => Nat.not_lt_zero _ (hmod ▸ h.2.2)), Nat.div_one, Nat.mul_div_assoc _ hdvd]

/-- `multiply_by_rational` on `u128` values: never a panic, the rounded
quotient when it fits in `u128`, and the error otherwise. -/
theorem multiplyByRational_eq {a b c : ℕ} (ha : a < 2 ^ 128) (hb : b < 2 ^ 128)
    (hc : c < 2 ^ 128) :
    multiplyByRational a b c =
      some (if mulDivRounded a b (max c 1) < 2 ^ 128 then .ok (mulDivRounded a b (max c 1))
        else .error "result cannot fit in u128") := by
  have hc1 : 1 ≤ max c 1 := le_max_right _ _
  have hc' : max c 1 < 2 ^ 128 := max_lt hc (by decide)
  unfold multiplyByRational
  by_cases h0 : a = 0 ∨ b = 0
  · -- a zero factor: zero, which is also the rounded quotient
    have hab : a * b = 0 := by rcases h0 with h | h <;> simp [h]
    have hr : mulDivRounded a b (max c 1) = 0 := by simp [mulDivRounded, hab]
    rw [if_pos h0, hr, if_pos (by decide)]
  · rw [if_neg h0]
    dsimp only
    -- the larger first: the same product
    obtain ⟨a1, b1, hsw, hprod, ha1, hb1⟩ : ∃ a1 b1, (if b > a then (b, a) else (a, b)) = (a1, b1) ∧
        a1 * b1 = a * b ∧ a1 < 2 ^ 128 ∧ b1 < 2 ^ 128 := by
      by_cases hba : b > a
      · exact ⟨b, a, if_pos hba, Nat.mul_comm b a, hb, ha⟩
      · exact ⟨a, b, if_neg hba, rfl, ha, hb⟩
    have hswap : mulDivRounded a1 b1 (max c 1) = mulDivRounded a b (max c 1) := by
      rw [mulDivRounded, mulDivRounded, hprod]
    rw [hsw, ← hswap]
    dsimp only
    by_cases hda : a1 % max c 1 = 0
    · rw [if_pos hda, multiplyChecked_eq (lt_of_le_of_lt (Nat.div_le_self _ _) ha1) hb1 le_rfl
        (by decide), mulDivRounded_div_left hda]
    · by_cases hdb : b1 % max c 1 = 0
      · rw [if_neg hda, if_pos hdb, multiplyChecked_eq ha1 (lt_of_le_of_lt (Nat.div_le_self _ _) hb1)
          le_rfl (by decide), mulDivRounded_div_right hdb]
      · rw [if_neg hda, if_neg hdb, multiplyChecked_eq ha1 hb1 hc1 hc']

/-- `multiply_by_rational(a, b, c)` for `u128` values, with `c` taken as at
least one: never a panic; the floor of `a * b / c`, or one more on the path
that `mulDivRounded` names; an error exactly when that does not fit in
`u128`. -/
theorem multiply_by_rational_result {a b c : ℕ} (ha : a < 2 ^ 128) (hb : b < 2 ^ 128)
    (hc : c < 2 ^ 128) :
    multiplyByRational a b c =
      some (if mulDivRounded a b (max c 1) < 2 ^ 128 then .ok (mulDivRounded a b (max c 1))
        else .error "result cannot fit in u128") :=
  multiplyByRational_eq ha hb hc

/-- `2 ^ 100 * 2 ^ 100 / (2 ^ 64 + 1)`, through Algorithm D. -/
theorem multiply_by_rational_result_big :
    (2 ^ 100 < 2 ^ 128 ∧ 2 ^ 100 < 2 ^ 128 ∧ 2 ^ 64 + 1 < 2 ^ 128) ∧
    multiplyByRational (2 ^ 100) (2 ^ 100) (2 ^ 64 + 1) =
      some (if mulDivRounded (2 ^ 100) (2 ^ 100) (max (2 ^ 64 + 1) 1) < 2 ^ 128
        then .ok (mulDivRounded (2 ^ 100) (2 ^ 100) (max (2 ^ 64 + 1) 1))
        else .error "result cannot fit in u128") :=
  ⟨⟨by decide, by decide, by decide⟩,
    multiply_by_rational_result (by decide) (by decide) (by decide)⟩

end SocialNetwork.Arithmetic.Helpers128Bit
