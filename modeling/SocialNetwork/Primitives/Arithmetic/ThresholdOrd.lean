import SocialNetwork.Lib.Unsigned

/-!
# `sp_arithmetic::ThresholdOrd`

`x.tcmp(y, t)` compares `x` with `y` up to a threshold `t`: greater when `x`
is above `y + t`, less when it is below `y - t`, equal in between, both bounds
saturating. For an unsigned `w`-bit `T` the bounds are
`Unsigned.saturatingAdd w y t` and `y - t` on `ℕ`; the source's defensive
branch, for bounds that cross, is never taken (`lower_lt_upper`), and
`tcmp_eq` says what `tcmp` returns in one `if`.
-/

namespace SocialNetwork.Arithmetic

/-- `ThresholdOrd::tcmp` for an unsigned `w`-bit `T`. -/
def tcmp (w self other threshold : ℕ) : Ordering :=
  if threshold = 0 then compare self other
  else
    let upperBound := Unsigned.saturatingAdd w other threshold
    let lowerBound := Unsigned.saturatingSub other threshold
    if upperBound ≤ lowerBound then compare self other
    else
      match compare self lowerBound, compare self upperBound with
      | .gt, .gt => .gt
      | .lt, .lt => .lt
      | _, _ => .eq

section Tcmp

variable {w x y t : ℕ}

theorem compare_eq_ite (x y : ℕ) : compare x y = if y < x then .gt else if x < y then .lt else .eq := by
  rcases lt_trichotomy x y with h | rfl | h
  · rw [Nat.compare_eq_lt.2 h, if_neg (by omega), if_pos h]
  · rw [Nat.compare_eq_eq.2 rfl, if_neg (lt_irrefl x), if_neg (lt_irrefl x)]
  · rw [Nat.compare_eq_gt.2 h, if_pos h]

/-- A positive threshold around a value of a type with a positive value gives
bounds that do not cross: the source's defensive branch is dead. -/
theorem lower_lt_upper (hw : 0 < Unsigned.maxValue w) (hy : y ≤ Unsigned.maxValue w)
    (ht : t ≠ 0) : Unsigned.saturatingSub y t < Unsigned.saturatingAdd w y t := by
  unfold Unsigned.saturatingSub Unsigned.saturatingAdd
  omega

/-- What `tcmp` returns: greater above the saturated `y + t`, less below the
saturated `y - t`, equal in between. -/
theorem tcmp_eq (hy : y ≤ Unsigned.maxValue w) :
    tcmp w x y t =
      if Unsigned.saturatingAdd w y t < x then .gt
      else if x < Unsigned.saturatingSub y t then .lt else .eq := by
  unfold tcmp
  by_cases ht : t = 0
  · -- no threshold: the bounds are `y` itself
    subst ht
    have hadd : Unsigned.saturatingAdd w y 0 = y := by
      unfold Unsigned.saturatingAdd
      omega
    rw [if_pos rfl, hadd, Unsigned.saturatingSub, Nat.sub_zero, compare_eq_ite]
  · rw [if_neg ht]
    dsimp only
    by_cases hcross : Unsigned.saturatingAdd w y t ≤ Unsigned.saturatingSub y t
    · -- bounds cross only for a type whose one value is `0`: both are `y`
      obtain ⟨hadd, hsub⟩ : Unsigned.saturatingAdd w y t = y ∧ Unsigned.saturatingSub y t = y := by
        unfold Unsigned.saturatingSub Unsigned.saturatingAdd at hcross ⊢
        omega
      rw [if_pos hcross, hadd, hsub, compare_eq_ite]
    have hlu := not_le.1 hcross
    rw [if_neg hcross]
    -- where `x` falls against the two bounds decides the pair
    rcases lt_or_ge (Unsigned.saturatingAdd w y t) x with hgt | hle
    · rw [Nat.compare_eq_gt.2 (hlu.trans hgt), Nat.compare_eq_gt.2 hgt, if_pos hgt]
    · rw [if_neg (not_lt.2 hle)]
      rcases lt_or_ge x (Unsigned.saturatingSub y t) with hlt | hge
      · rw [Nat.compare_eq_lt.2 hlt, Nat.compare_eq_lt.2 (hlt.trans hlu), if_pos hlt]
      · rw [if_neg (not_lt.2 hge)]
        rcases Nat.lt_or_eq_of_le hge with hlo | hlo <;> rcases Nat.lt_or_eq_of_le hle with hhi | hhi
        · rw [Nat.compare_eq_gt.2 hlo, Nat.compare_eq_lt.2 hhi]
        · rw [Nat.compare_eq_gt.2 hlo, Nat.compare_eq_eq.2 hhi]
        · rw [Nat.compare_eq_eq.2 hlo.symm, Nat.compare_eq_lt.2 hhi]
        · rw [Nat.compare_eq_eq.2 hlo.symm, Nat.compare_eq_eq.2 hhi]

theorem tcmp_eq_gt_iff (hy : y ≤ Unsigned.maxValue w) :
    tcmp w x y t = .gt ↔ Unsigned.saturatingAdd w y t < x := by
  rw [tcmp_eq hy]
  split_ifs <;> simp_all

theorem tcmp_eq_lt_iff (hy : y ≤ Unsigned.maxValue w) :
    tcmp w x y t = .lt ↔ x < Unsigned.saturatingSub y t := by
  have hlu : Unsigned.saturatingSub y t ≤ Unsigned.saturatingAdd w y t := by
    unfold Unsigned.saturatingSub Unsigned.saturatingAdd
    omega
  rw [tcmp_eq hy]
  split_ifs with h1 h2 <;> simp_all
  omega

theorem tcmp_eq_eq_iff (hy : y ≤ Unsigned.maxValue w) :
    tcmp w x y t = .eq ↔ Unsigned.saturatingSub y t ≤ x ∧ x ≤ Unsigned.saturatingAdd w y t := by
  rw [tcmp_eq hy]
  split_ifs with h1 h2 <;> simp_all

theorem lt_of_tcmp_eq_gt (hy : y ≤ Unsigned.maxValue w) (h : tcmp w x y t = .gt) : y < x := by
  have := (tcmp_eq_gt_iff hy).1 h
  unfold Unsigned.saturatingAdd at this
  omega

theorem lt_of_tcmp_eq_lt (hy : y ≤ Unsigned.maxValue w) (h : tcmp w x y t = .lt) : x < y := by
  have := (tcmp_eq_lt_iff hy).1 h
  unfold Unsigned.saturatingSub at this
  omega

theorem tcmp_self (hy : y ≤ Unsigned.maxValue w) : tcmp w y y t = .eq := by
  rw [tcmp_eq hy, if_neg, if_neg]
  · unfold Unsigned.saturatingSub
    omega
  · unfold Unsigned.saturatingAdd
    omega

end Tcmp

end SocialNetwork.Arithmetic
