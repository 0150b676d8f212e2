import SocialNetwork.Primitives.Arithmetic.BigUint.Div

/-!
# `Ord`, `PartialEq` and `TryFrom` of `BigUint` on values

`cmp` skips the leading zero limbs of both numbers, then compares the rest by
length and, at equal length, lexicographically from the most significant
limb. Past the zeros both have a non-zero top limb, so a shorter one is the
smaller (`value_lt_of_len_lt`), and at equal length the first differing limb
decides (`sliceCmp_eq_compare`): `cmp` is the order of the values.

`TryFrom<BigUint>` strips the number, refuses more limbs than the target
type holds, and sums the limbs shifted to their places: it returns the value
exactly when the value fits.
-/

namespace SocialNetwork.Arithmetic.BigUint

theorem compare_toNat (a b : UInt32) : compare a b = compare a.toNat b.toNat := by
  simp [compare, compareOfLessAndEq, UInt32.lt_iff_toNat_lt, UInt32.toNat_inj]

theorem value_cons (d : UInt32) (ds : List UInt32) :
    (⟨d :: ds⟩ : BigUint).value = d.toNat * B ^ ds.length + (⟨ds⟩ : BigUint).value := by
  simp only [value, limbs, List.map_cons, List.reverse_cons, Nat.ofDigits_append,
    List.length_reverse, List.length_map, Nat.ofDigits_singleton]
  ring

/-- On limbs of equal length, the lexicographic order is the order of the
values. -/
theorem sliceCmp_eq_compare : ∀ (as bs : List UInt32), as.length = bs.length →
    sliceCmp as bs = compare (⟨as⟩ : BigUint).value (⟨bs⟩ : BigUint).value
  | [], [], _ => rfl
  | [], _ :: _, h => absurd h (by simp)
  | _ :: _, [], h => absurd h (by simp)
  | a :: as, b :: bs, h => by
      have hlen : as.length = bs.length := by simpa using h
      have has : (⟨as⟩ : BigUint).value < B ^ as.length := value_lt _
      have hbs : (⟨bs⟩ : BigUint).value < B ^ bs.length := value_lt _
      rw [value_cons, value_cons, ← hlen]
      simp only [sliceCmp]
      -- the top limbs decide unless they are equal
      rcases lt_trichotomy a.toNat b.toNat with hab | hab | hab
      · rw [compare_toNat, Nat.compare_eq_lt.2 hab, eq_comm, Nat.compare_eq_lt]
        calc a.toNat * B ^ as.length + (⟨as⟩ : BigUint).value
            < (a.toNat + 1) * B ^ as.length := by rw [Nat.succ_mul]; omega
          _ ≤ b.toNat * B ^ as.length := Nat.mul_le_mul_right _ hab
          _ ≤ _ := Nat.le_add_right _ _
      · rw [compare_toNat, hab, Nat.compare_eq_eq.2 rfl, sliceCmp_eq_compare as bs hlen]
        rcases lt_trichotomy (⟨as⟩ : BigUint).value (⟨bs⟩ : BigUint).value with h' | h' | h'
        · rw [Nat.compare_eq_lt.2 h', Nat.compare_eq_lt.2 (by omega)]
        · rw [Nat.compare_eq_eq.2 h', Nat.compare_eq_eq.2 (by omega)]
        · rw [Nat.compare_eq_gt.2 h', Nat.compare_eq_gt.2 (by omega)]
      · rw [compare_toNat, Nat.compare_eq_gt.2 hab, eq_comm, Nat.compare_eq_gt]
        calc b.toNat * B ^ as.length + (⟨bs⟩ : BigUint).value
            < (b.toNat + 1) * B ^ as.length := by rw [Nat.succ_mul, hlen]; omega
          _ ≤ a.toNat * B ^ as.length := Nat.mul_le_mul_right _ hab
          _ ≤ _ := Nat.le_add_right _ _

theorem value_lt_of_len_lt {x y : BigUint} (hy : y.msb ≠ 0) (h : x.len < y.len) :
    x.value < y.value :=
  calc x.value < B ^ x.len := value_lt x
    _ ≤ B ^ (y.len - 1) := Nat.pow_le_pow_right (by decide) (by omega)
    _ ≤ y.value := pow_le_value hy

/-- The limbs from the first non-zero one keep the value and start with a
non-zero limb. -/
theorem dropZeros_spec {x : BigUint} {l : ℕ} (h : x.digits.findIdx? (fun e => e != 0) = some l) :
    (⟨x.digits.drop l⟩ : BigUint).value = x.value ∧ (⟨x.digits.drop l⟩ : BigUint).msb ≠ 0 := by
  obtain ⟨hl, hne, hzero⟩ := List.findIdx?_eq_some_iff_getElem.1 h
  refine ⟨value_drop_of_zeros fun i hi => ?_, ?_⟩
  · have hi0 : x.digits[i] = 0 := by simpa using hzero i hi
    rw [List.getElem?_eq_getElem (by omega), hi0]
  · simpa [msb, List.getElem?_eq_getElem hl] using hne

theorem value_eq_zero_of_findIdx_none {x : BigUint}
    (h : x.digits.findIdx? (fun e => e != 0) = none) : x.value = 0 := by
  have hall := List.findIdx?_eq_none_iff.1 h
  have hzero : x.limbs = List.replicate x.limbs.length 0 := by
    refine List.eq_replicate_iff.2 ⟨rfl, fun d hd => ?_⟩
    obtain ⟨a, ha, rfl⟩ := List.mem_map.1 (List.mem_reverse.1 hd)
    have : a = 0 := by simpa using hall a ha
    rw [this]
    rfl
  rw [value, hzero, Positional.ofDigits_replicate_zero]

theorem cmp_eq_compare (self other : BigUint) : self.cmp other = compare self.value other.value := by
  unfold cmp
  -- the cases of the source's match: which of the two has a non-zero limb
  rcases h1 : self.digits.findIdx? (fun e => e != 0) with _ | l <;>
    rcases h2 : other.digits.findIdx? (fun e => e != 0) with _ | r
  · rw [value_eq_zero_of_findIdx_none h1, value_eq_zero_of_findIdx_none h2]
    rfl
  · obtain ⟨hr, hrmsb⟩ := dropZeros_spec h2
    rw [value_eq_zero_of_findIdx_none h1, ← hr, eq_comm, Nat.compare_eq_lt]
    exact lt_of_lt_of_le (pow_B_pos _) (pow_le_value hrmsb)
  · obtain ⟨hl, hlmsb⟩ := dropZeros_spec h1
    rw [value_eq_zero_of_findIdx_none h2, ← hl, eq_comm, Nat.compare_eq_gt]
    exact lt_of_lt_of_le (pow_B_pos _) (pow_le_value hlmsb)
  · obtain ⟨hl, hlmsb⟩ := dropZeros_spec h1
    obtain ⟨hr, hrmsb⟩ := dropZeros_spec h2
    rw [← hl, ← hr]
    dsimp only
    rcases lt_trichotomy (self.digits.drop l).length (other.digits.drop r).length
      with hlt | heq | hgt
    · rw [Nat.compare_eq_lt.2 hlt, eq_comm, Nat.compare_eq_lt]
      exact value_lt_of_len_lt hrmsb hlt
    · rw [Nat.compare_eq_eq.2 heq]
      exact sliceCmp_eq_compare _ _ heq
    · rw [Nat.compare_eq_gt.2 hgt, eq_comm, Nat.compare_eq_gt]
      exact value_lt_of_len_lt hlmsb hgt

theorem eq_iff_value_eq (self other : BigUint) : self.eq other = true ↔ self.value = other.value := by
  rw [eq, cmp_eq_compare, beq_iff_eq, Nat.compare_eq_eq]

/-! ## `TryFrom<BigUint>` -/

/-- The sum of `TryFrom`: each limb, least significant first from place `k`,
shifted to its place. -/
theorem foldl_zipIdx_shift (l : List UInt32) (acc k : ℕ) :
    (l.zipIdx k).foldl (fun acc di => acc + di.1.toNat <<< (32 * di.2)) acc =
      acc + B ^ k * Nat.ofDigits B (l.map UInt32.toNat) := by
  induction l generalizing acc k with
  | nil => simp
  | cons d ds ih =>
    rw [List.zipIdx_cons, List.foldl_cons, ih, List.map_cons, Nat.ofDigits_cons, Nat.shiftLeft_eq,
      pow_mul]
    change acc + d.toNat * B ^ k + B ^ (k + 1) * _ = acc + B ^ k * (d.toNat + B * _)
    ring

/-- `TryFrom<BigUint>` at `32 * k` bits: the value when it is below
`B ^ k`, else the error. -/
theorem tryIntoBits_eq {k : ℕ} (hk : 1 ≤ k) (name : String) (x : BigUint) :
    tryIntoBits (32 * k) name x =
      if x.value < B ^ k then .ok x.value else .error ("cannot fit a number into " ++ name) := by
  have hs := stripped_lstrip x
  have hv := value_lstrip x
  unfold tryIntoBits
  dsimp only
  by_cases hfit : x.value < B ^ k
  · have hlen : x.lstrip.len ≤ k := (hs.value_lt_pow_iff hk).1 (hv ▸ hfit)
    rw [if_neg (by omega), if_pos hfit, foldl_zipIdx_shift, pow_zero, Nat.one_mul, Nat.zero_add,
      List.map_reverse, ← hv]
    rfl
  · have hlen : ¬ x.lstrip.len ≤ k := fun h => hfit (hv ▸ (hs.value_lt_pow_iff hk).2 h)
    rw [if_pos (by omega), if_neg hfit]

theorem tryIntoU128_eq (x : BigUint) :
    tryIntoU128 x =
      if x.value < 2 ^ 128 then .ok x.value else .error "cannot fit a number into u128" := by
  rw [tryIntoU128, show 128 = 32 * 4 from rfl, tryIntoBits_eq (by decide)]
  rfl

theorem tryIntoU64_eq (x : BigUint) :
    tryIntoU64 x =
      if x.value < 2 ^ 64 then .ok x.value else .error "cannot fit a number into u64" := by
  rw [tryIntoU64, show 64 = 32 * 2 from rfl, tryIntoBits_eq (by decide)]
  rfl

theorem ite_ok_iff {p : Prop} [Decidable p] {a x : ℕ} {e : String} :
    ((if p then .ok a else .error e : Except String ℕ) = .ok x) ↔ p ∧ x = a := by
  split_ifs with h
  · rw [Except.ok.injEq]
    exact ⟨fun hx => ⟨h, hx.symm⟩, fun hx => hx.2.symm⟩
  · exact ⟨fun hx => (by cases hx), fun hx => absurd hx.1 h⟩

/-! ## Arithmetic on values -/

/-- `BigUint` arithmetic is exact on the values it denotes: `add`, `sub`
(an error exactly when the difference is negative), `mul`, `div_unit`, and
`div` of stripped numbers within its conditions, which returns a quotient and
a remainder; `cmp` and `eq` are those of the values, and `TryFrom` returns the
value exactly when it fits. -/
theorem biguint_value_correct :
    (∀ u v : BigUint, (u.add v).value = u.value + v.value) ∧
    (∀ u v : BigUint,
      ((∃ w, u.sub v = .ok w ∧ w.value = u.value - v.value) ↔ v.value ≤ u.value) ∧
      (u.value < v.value → ∃ w, u.sub v = .error w)) ∧
    (∀ u v : BigUint, (u.mul v).value = u.value * v.value) ∧
    (∀ (u : BigUint) (d : UInt32), (u.divUnit d).value = u.value / max d.toNat 1) ∧
    (∀ u v : BigUint, u.Stripped → v.Stripped → 2 ≤ v.len → v.len < u.len →
      ∃ q r, u.div v true = some (q, r) ∧
        q.value * v.value + r.value = u.value ∧ r.value < v.value) ∧
    (∀ u v : BigUint, u.cmp v = compare u.value v.value ∧ (u.eq v = true ↔ u.value = v.value)) ∧
    (∀ u : BigUint,
      (∀ x, tryIntoU128 u = .ok x ↔ u.value < 2 ^ 128 ∧ x = u.value) ∧
      (∀ x, tryIntoU64 u = .ok x ↔ u.value < 2 ^ 64 ∧ x = u.value)) := by
  refine ⟨value_add, fun u v => ⟨⟨?_, ?_⟩, ?_⟩, value_mul, value_divUnit, ?_,
    fun u v => ⟨cmp_eq_compare u v, eq_iff_value_eq u v⟩, fun u => ⟨fun x => ?_, fun x => ?_⟩⟩
  · -- an `Ok` difference rules out the negative case, which ends in `Err`
    rintro ⟨w, hw, -⟩
    by_contra hlt
    obtain ⟨w', hw', -⟩ := sub_of_lt (Nat.lt_of_not_le hlt)
    rw [hw] at hw'
    cases hw'
  · intro hle
    obtain ⟨w, hw, hval, -⟩ := sub_of_le hle
    exact ⟨w, hw, hval⟩
  · intro hlt
    obtain ⟨w, hw, -⟩ := sub_of_lt hlt
    exact ⟨w, hw⟩
  · intro u v hu hv h2 hlt
    -- stripped and longer than one limb, both have a non-zero top limb
    have hvmsb : v.msb ≠ 0 := hv.resolve_left (by omega)
    have humsb : u.msb ≠ 0 := hu.resolve_left (by omega)
    have hvpos : 0 < v.value := lt_of_lt_of_le (pow_B_pos _) (pow_le_value hvmsb)
    obtain ⟨q, r, hdiv, hq, hr⟩ := div_spec h2 hvmsb humsb hlt true
    refine ⟨q, r, hdiv, ?_, ?_⟩
    · rw [hq, hr rfl, Nat.div_add_mod']
    · rw [hr rfl]
      exact Nat.mod_lt _ hvpos
  · rw [tryIntoU128_eq, ite_ok_iff]
  · rw [tryIntoU64_eq, ite_ok_iff]

/-- `B ^ 2` divided by `5 * B + 1`, through Algorithm D. -/
theorem biguint_value_correct_div :
    ∃ q r, (⟨[1, 0, 0]⟩ : BigUint).div ⟨[5, 1]⟩ true = some (q, r) ∧
      q.value * (⟨[5, 1]⟩ : BigUint).value + r.value = (⟨[1, 0, 0]⟩ : BigUint).value ∧
        r.value < (⟨[5, 1]⟩ : BigUint).value :=
  biguint_value_correct.2.2.2.2.1 _ _ (Or.inr (by decide)) (Or.inr (by decide)) (by decide)
    (by decide)

end SocialNetwork.Arithmetic.BigUint
