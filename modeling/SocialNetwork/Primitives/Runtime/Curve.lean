import SocialNetwork.Primitives.Arithmetic.PerThing

/-!
# Piecewise linear curves

`sp_runtime::curve::PiecewiseLinear` is a list of points `(x, y)` of
`Perbill`s, lowest abscissa first, and a maximum.
`calculate_for_fraction_times_denominator(n, d)` is meant to give
`f(n / d) * d`. It finds the first point whose abscissa times `d` is above
`n`, and interpolates between that point and the one before it. The step is
`multiply_by_rational_saturating`, which is `v * p / q` rounded down and
saturated (`multiplyByRationalSaturating_eq`).

Each abscissa times `d` is a `Perbill` product, rounded to the nearest. The
result lies between the ordinates times `d` of the first point, of the last
point, or of two consecutive points whose *rounded* abscissas bracket `n`
(`calculate_between`). So it never exceeds the maximum times `d`
(`calculate_le_maximum`). Two abscissas less than `1 / d` apart can round to
the same product, though, and the segment between them is then skipped. With
`d = 10`, the abscissas `0.51` and `0.52` both give `5`. So `n = 5` takes the
ordinate at `0.52`, although `5 / 10` lies below `0.51`
(`calculate_skips_segment`).
-/

namespace SocialNetwork.Runtime

open Arithmetic Unsigned

/-- `PiecewiseLinear`: the points, lowest abscissa first, and the largest
value the curve returns. -/
structure PiecewiseLinear where
  points : List (Perbill × Perbill)
  maximum : Perbill
  deriving DecidableEq

def absSub (a b : ℕ) : ℕ := max a b - min a b

/-- `multiply_by_rational_saturating` for a `w`-bit `N` and `u32`s `p` and
`q`: `value / q * p`, saturated, plus the share of `value % q`, which is
computed in `u64`. -/
def multiplyByRationalSaturating (w value p q : ℕ) : ℕ :=
  let q := max q 1
  let resultDivisorPart := saturatingMul w (value / q) p
  let resultRemainderPart :=
    let rem := value % q
    let remU32 := saturatedInto 32 rem
    let remPart := remU32 * p / q
    saturatedInto w remPart
  saturatingAdd w resultDivisorPart resultRemainderPart

namespace PiecewiseLinear

/-- The interpolation between `prev` and `next` at `n`, the tail of
`calculate_for_fraction_times_denominator` once the two points are found. -/
def interpolate (w n d : ℕ) (prev next : Perbill × Perbill) : ℕ :=
  let deltaY := multiplyByRationalSaturating w (absSub n (prev.1.mul d))
    (absSub next.2.parts prev.2.parts) (saturatingSub next.1.parts prev.1.parts)
  -- both differences of one sign: the curve rises from `prev` towards `n`
  if (decide (n > prev.1.mul d) == decide (next.2.parts > prev.2.parts)) then
    saturatingAdd w (prev.2.mul d) deltaY
  else saturatingSub (prev.2.mul d) deltaY

/-- `calculate_for_fraction_times_denominator` for a `w`-bit `N`; `none`
where the source would index out of range. -/
def calculateForFractionTimesDenominator (self : PiecewiseLinear) (w n d : ℕ) : Option ℕ :=
  let n := min n d
  if self.points.length = 0 then some 0
  else
    match self.points.findIdx? fun p => decide (n < p.1.mul d) with
    | some nextPointIndex =>
      match checkedSub nextPointIndex 1 with
      | some previousPointIndex =>
        match self.points[previousPointIndex]?, self.points[nextPointIndex]? with
        | some prev, some next => some (interpolate w n d prev next)
        | _, _ => none
      -- no point before the one found: the first ordinate
      | none => some (((self.points.head?.map Prod.snd).getD PerThing.zero).mul d)
    -- no point above `n`: the last ordinate
    | none => some (((self.points.getLast?.map Prod.snd).getD PerThing.zero).mul d)

end PiecewiseLinear

/-! ## `multiply_by_rational_saturating` -/

section MultiplyByRational

variable {w : ℕ}

/-- `multiply_by_rational_saturating` loses nothing: it is `value * p / q`
rounded down, with `q` at least one, saturated at `N::max_value()`. -/
theorem multiplyByRationalSaturating_eq (value p : ℕ) {q : ℕ} (hq : q ≤ maxValue 32) :
    multiplyByRationalSaturating w value p q = min (value * p / max q 1) (maxValue w) := by
  have hq1 : 0 < max q 1 := lt_max_of_lt_right Nat.one_pos
  have hrem : value % max q 1 ≤ maxValue 32 := by
    have hlt := Nat.mod_lt value hq1
    have hmax : max q 1 ≤ maxValue 32 := max_le hq (by decide)
    omega
  have hsplit : value * p / max q 1 = value / max q 1 * p + value % max q 1 * p / max q 1 := by
    conv_lhs => rw [← Nat.div_add_mod value (max q 1)]
    rw [Nat.add_mul, Nat.mul_assoc, Nat.mul_add_div hq1]
  simp only [multiplyByRationalSaturating]
  rw [saturatedInto_of_le hrem, hsplit]
  simp only [saturatingAdd, saturatingMul, saturatedInto]
  generalize value / max q 1 * p = whole
  generalize value % max q 1 * p / max q 1 = part
  omega

theorem multiplyByRationalSaturating_zero (p q : ℕ) : multiplyByRationalSaturating w 0 p q = 0 := by
  simp [multiplyByRationalSaturating, saturatingAdd, saturatingMul, saturatedInto]

/-- Scaled by `A`, the quotient stays within `d * p` when `A * value` is at
most `d * q`. -/
theorem mul_multiplyByRationalSaturating_le {A d value p q : ℕ} (hq : q ≤ maxValue 32)
    (hq0 : 0 < q) (hvalue : A * value ≤ d * q) :
    A * multiplyByRationalSaturating w value p q ≤ d * p := by
  rw [multiplyByRationalSaturating_eq value p hq, max_eq_left hq0]
  have hdiv : value * p / q * q ≤ value * p := Nat.div_mul_le_self _ _
  refine Nat.le_of_mul_le_mul_right ?_ hq0
  calc A * min (value * p / q) (maxValue w) * q
      ≤ A * (value * p / q * q) := by
        rw [Nat.mul_assoc]
        exact Nat.mul_le_mul_left _ (Nat.mul_le_mul_right _ (min_le_left _ _))
    _ ≤ A * value * p := by
        rw [Nat.mul_assoc]
        exact Nat.mul_le_mul_left _ hdiv
    _ ≤ d * q * p := Nat.mul_le_mul_right _ hvalue
    _ = d * p * q := by ring

end MultiplyByRational

namespace PiecewiseLinear

/-! ## The interpolation -/

section Interpolate

variable {w n d : ℕ} {prev next : Perbill × Perbill}

/-- Around an `n` between the rounded abscissas of `prev` and `next`, the
step the interpolation adds or takes off is at most the difference of their
ordinates times `d`. -/
theorem mul_deltaY_le (hprev : prev.1.mul d ≤ n) (hnext : n < next.1.mul d) :
    1000000000 * multiplyByRationalSaturating w (absSub n (prev.1.mul d))
        (absSub next.2.parts prev.2.parts) (saturatingSub next.1.parts prev.1.parts) ≤
      d * absSub next.2.parts prev.2.parts := by
  have hx : prev.1.parts < next.1.parts := by
    by_contra hle
    have := PerThing.mul_le_mul_of_parts_le (by decide) (not_lt.mp hle) d
    omega
  have hgap := PerThing.mul_gap_lt (by decide) prev.1 next.1 d
  have hn : absSub n (prev.1.mul d) = n - prev.1.mul d := by
    simp only [absSub, max_eq_left hprev, min_eq_right hprev]
  have hnext_le : next.1.parts ≤ 1000000000 := next.1.le_accuracy
  apply mul_multiplyByRationalSaturating_le
  · simp only [saturatingSub, maxValue]
    omega
  · simp only [saturatingSub]
    omega
  · rw [hn, saturatingSub, Nat.mul_sub d]
    omega

/-- The interpolation between two points whose rounded abscissas bracket `n`
lies between their ordinates times `d`. -/
theorem interpolate_between (hd : d ≤ maxValue w) (hprev : prev.1.mul d ≤ n)
    (hnext : n < next.1.mul d) :
    min (prev.2.mul d) (next.2.mul d) ≤ interpolate w n d prev next ∧
      interpolate w n d prev next ≤ max (prev.2.mul d) (next.2.mul d) := by
  have hδ := mul_deltaY_le (w := w) hprev hnext
  -- an ordinate times `d` is at most `d`, which fits in `N`
  have hfits : prev.2.mul d ≤ maxValue w := (PerThing.mul_le_self _ d).trans hd
  unfold interpolate
  rcases Nat.eq_or_lt_of_le hprev with heq | hlt
  · -- `n` is the rounded abscissa of `prev`: there is nothing to add or take off
    have hzero : absSub n (prev.1.mul d) = 0 := by simp [absSub, heq]
    simp only [hzero, multiplyByRationalSaturating_zero, saturatingAdd, saturatingSub, Nat.add_zero,
      Nat.sub_zero, min_eq_left hfits, ite_self]
    omega
  set δ := multiplyByRationalSaturating w (absSub n (prev.1.mul d))
    (absSub next.2.parts prev.2.parts) (saturatingSub next.1.parts prev.1.parts)
  rcases Nat.lt_or_ge prev.2.parts next.2.parts with hy | hy
  · -- rising: the ordinate of `prev` plus the step, at most that of `next`
    have habs : absSub next.2.parts prev.2.parts = next.2.parts - prev.2.parts := by
      simp only [absSub, max_eq_left hy.le, min_eq_right hy.le]
    rw [habs] at hδ
    have hup := PerThing.mul_add_le_mul (by decide) hy.le hδ
    have hcond : (decide (n > prev.1.mul d) == decide (next.2.parts > prev.2.parts)) = true := by
      simp [hlt, hy]
    rw [if_pos hcond, saturatingAdd]
    omega
  · -- falling or flat: the ordinate of `prev` less the step, at least that of `next`
    have habs : absSub next.2.parts prev.2.parts = prev.2.parts - next.2.parts := by
      simp only [absSub, max_eq_right hy, min_eq_left hy]
    rw [habs] at hδ
    have hdown := PerThing.mul_add_le_mul (by decide) hy hδ
    have hcond : (decide (n > prev.1.mul d) == decide (next.2.parts > prev.2.parts)) = false := by
      simp [hlt, not_lt.mpr hy]
    rw [if_neg (by simp [hcond]), saturatingSub]
    omega

end Interpolate

/-! ## Where the result lies -/

section Calculate

variable (self : PiecewiseLinear) (w n d : ℕ)

/-- What `calculate_for_fraction_times_denominator` returns on a curve with
points: the first ordinate times `d` when `n` is below the first rounded
abscissa, the last when it is at or above every one, and otherwise the
interpolation between two consecutive points whose rounded abscissas bracket
`n`. It never indexes out of range. -/
theorem calculate_cases (hne : self.points ≠ []) :
    (∃ first, self.points.head? = some first ∧ min n d < first.1.mul d ∧
        self.calculateForFractionTimesDenominator w n d = some (first.2.mul d)) ∨
    (∃ last, self.points.getLast? = some last ∧ last.1.mul d ≤ min n d ∧
        self.calculateForFractionTimesDenominator w n d = some (last.2.mul d)) ∨
    (∃ i prev next, self.points[i]? = some prev ∧ self.points[i + 1]? = some next ∧
        prev.1.mul d ≤ min n d ∧ min n d < next.1.mul d ∧
        self.calculateForFractionTimesDenominator w n d =
          some (interpolate w (min n d) d prev next)) := by
  have hlen : self.points.length ≠ 0 := by simpa using hne
  unfold calculateForFractionTimesDenominator
  simp only [hlen, if_false]
  split
  · -- the first point above `n` is at `nextPointIndex`, and none before it is
    rename_i nextPointIndex hfind
    obtain ⟨hlt, hfound, hbefore⟩ := List.findIdx?_eq_some_iff_getElem.mp hfind
    cases nextPointIndex with
    | zero =>
      have hhead : self.points.head? = some self.points[0] := by
        rw [List.head?_eq_getElem?, List.getElem?_eq_getElem hlt]
      refine .inl ⟨self.points[0], hhead, by simpa using hfound, ?_⟩
      simp [checkedSub, hhead]
    | succ i =>
      have hprev : ¬ min n d < self.points[i].1.mul d := by simpa using hbefore i (by omega)
      refine .inr (.inr ⟨i, self.points[i], self.points[i + 1], List.getElem?_eq_getElem _,
        List.getElem?_eq_getElem hlt, not_lt.mp hprev, by simpa using hfound, ?_⟩)
      simp [checkedSub, List.getElem?_eq_getElem hlt, List.getElem?_eq_getElem (Nat.lt_of_succ_lt hlt)]
  · -- no point is above `n`, the last one included
    rename_i hfind
    have hall := List.findIdx?_eq_none_iff.mp hfind
    obtain ⟨last, hlast⟩ := Option.isSome_iff_exists.mp (List.getLast?_isSome.mpr hne)
    refine .inr (.inl ⟨last, hlast, ?_, by simp [hlast]⟩)
    simpa using hall last (List.mem_of_getLast? hlast)

/-- On a curve with points, the result lies between the ordinates times `d`
of the first point, of the last point, or of two consecutive points whose
rounded abscissas bracket `n`, clamped to `d`. -/
theorem calculate_between (hd : d ≤ maxValue w) (hne : self.points ≠ []) :
    ∃ r, self.calculateForFractionTimesDenominator w n d = some r ∧
      ((∃ first, self.points.head? = some first ∧ min n d < first.1.mul d ∧ r = first.2.mul d) ∨
       (∃ last, self.points.getLast? = some last ∧ last.1.mul d ≤ min n d ∧ r = last.2.mul d) ∨
       (∃ i prev next, self.points[i]? = some prev ∧ self.points[i + 1]? = some next ∧
          prev.1.mul d ≤ min n d ∧ min n d < next.1.mul d ∧
          min (prev.2.mul d) (next.2.mul d) ≤ r ∧ r ≤ max (prev.2.mul d) (next.2.mul d))) := by
  rcases self.calculate_cases w n d hne with
    ⟨first, hfirst, hbelow, hr⟩ | ⟨last, hlast, habove, hr⟩ |
      ⟨i, prev, next, hprev, hnext, hprev_le, hlt_next, hr⟩
  · exact ⟨_, hr, .inl ⟨first, hfirst, hbelow, rfl⟩⟩
  · exact ⟨_, hr, .inr (.inl ⟨last, hlast, habove, rfl⟩)⟩
  · obtain ⟨hmin, hmax⟩ := interpolate_between hd hprev_le hlt_next
    exact ⟨_, hr, .inr (.inr ⟨i, prev, next, hprev, hnext, hprev_le, hlt_next, hmin, hmax⟩)⟩

/-- On a curve whose ordinates are at most its maximum, the result is at most
the maximum times `d`, and it is always returned. -/
theorem calculate_le_maximum (hd : d ≤ maxValue w)
    (hmax : ∀ p ∈ self.points, p.2.parts ≤ self.maximum.parts) :
    ∃ r, self.calculateForFractionTimesDenominator w n d = some r ∧ r ≤ self.maximum.mul d := by
  by_cases hne : self.points = []
  · exact ⟨0, by simp [calculateForFractionTimesDenominator, hne], Nat.zero_le _⟩
  have hle : ∀ p ∈ self.points, p.2.mul d ≤ self.maximum.mul d := fun p hp =>
    PerThing.mul_le_mul_of_parts_le (by decide) (hmax p hp) d
  obtain ⟨r, hr, hfirst | hlast | hsegment⟩ := self.calculate_between w n d hd hne
  · obtain ⟨first, hhead, -, rfl⟩ := hfirst
    exact ⟨_, hr, hle first (List.mem_of_mem_head? hhead)⟩
  · obtain ⟨last, hlast, -, rfl⟩ := hlast
    exact ⟨_, hr, hle last (List.mem_of_getLast? hlast)⟩
  · obtain ⟨i, prev, next, hprev, hnext, -, -, -, hr_le⟩ := hsegment
    have hprev_le := hle prev (List.mem_of_getElem? hprev)
    have hnext_le := hle next (List.mem_of_getElem? hnext)
    exact ⟨r, hr, hr_le.trans (max_le hprev_le hnext_le)⟩

end Calculate

/-! ## A segment skipped -/

def cliffCurve : PiecewiseLinear :=
  ⟨[(PerThing.fromParts 0, PerThing.fromParts 0),
    (PerThing.fromParts 510000000, PerThing.fromParts 0),
    (PerThing.fromParts 520000000, PerThing.fromParts 1000000000),
    (PerThing.fromParts 1000000000, PerThing.fromParts 1000000000)], PerThing.fromParts 1000000000⟩

/-- With `d = 10`, the fraction `5 / 10` lies between the abscissas of the
first two points, whose ordinates are `0`. But `0.51 * 10` and `0.52 * 10` both
round to `5`, so `5` is not below the second point's product, and the result
is the ordinate `1` of the third point times `10`. That is more than `1` above
`f(5 / 10) * 10 = 0`. -/
theorem calculate_skips_segment :
    ∃ prev next, cliffCurve.points[0]? = some prev ∧ cliffCurve.points[1]? = some next ∧
      prev.1.parts * 10 ≤ 5 * 1000000000 ∧ 5 * 1000000000 ≤ next.1.parts * 10 ∧
      cliffCurve.calculateForFractionTimesDenominator 64 5 10 = some 10 ∧
      max prev.2.parts next.2.parts * 10 + 1000000000 < 10 * 1000000000 :=
  ⟨_, _, rfl, rfl, by decide, by decide, by decide, by decide⟩

end PiecewiseLinear

end SocialNetwork.Runtime
