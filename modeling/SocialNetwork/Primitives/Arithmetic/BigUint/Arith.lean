import SocialNetwork.Primitives.Arithmetic.BigUint.Value

/-!
# `add`, `sub`, `mul` and `div_unit` on values

Each loop is proved by its radix equation: after the limbs below `i`, the
limbs written so far and the carry, or the borrow, at `B ^ i` account for the
inputs' limbs below `i`. One lemma proves one step (`AddInv.step`,
`SubInv.step`, `RowInv.step`, `MulInv.step`, `DivUnitInv.step`), and
`foldl_range_invariant`, or the recursion of `div_unit`'s loop, the run.

* `value_add`: the sum.
* `sub_of_le`, `sub_of_lt`: `Ok` with the difference, or `Err` with the
  difference plus `B ^ n`.
* `value_mul`: the product.
* `value_divUnit`: the quotient by the limb, taken at least one.
-/

namespace SocialNetwork.Arithmetic.BigUint

open Positional

theorem mod_B_lt (s : ℕ) : s % B < B := Nat.mod_lt _ (by decide)

theorem mod_pow_max_left (self other : BigUint) :
    self.value % B ^ max self.len other.len = self.value :=
  Nat.mod_eq_of_lt (self.value_lt.trans_le (Nat.pow_le_pow_right (by decide) (le_max_left _ _)))

theorem mod_pow_max_right (self other : BigUint) :
    other.value % B ^ max self.len other.len = other.value :=
  Nat.mod_eq_of_lt (other.value_lt.trans_le (Nat.pow_le_pow_right (by decide) (le_max_right _ _)))

/-! ## `add` -/

theorem addStep_eq (self other w : BigUint) (k i : ℕ) :
    addStep self other (w, k) i =
      let s := self.value / B ^ i % B + other.value / B ^ i % B + k
      (w.set i (UInt32.ofNat (s % B)), s / B) := by
  simp only [addStep, toNat_checkedGet]

/-- The state of `add`'s loop after the limbs below `i`. -/
structure AddInv (U V n i : ℕ) (st : BigUint × ℕ) : Prop where
  len : st.1.len = n + 1
  lt : st.1.value < B ^ i
  carry : st.2 ≤ 1
  sum : st.1.value + st.2 * B ^ i = U % B ^ i + V % B ^ i

theorem AddInv.step {self other : BigUint} {n i : ℕ} {st : BigUint × ℕ}
    (h : AddInv self.value other.value n i st) (hi : i < n) :
    AddInv self.value other.value n (i + 1) (addStep self other st i) := by
  obtain ⟨w, k⟩ := st
  obtain ⟨hlen, hlt, hk, hsum⟩ := h
  simp only at hlen hlt hk hsum
  rw [addStep_eq]
  -- the limbs `i` of the inputs, and their sum with the carry
  obtain ⟨u, hu⟩ : ∃ u, u = self.value / B ^ i % B := ⟨_, rfl⟩
  obtain ⟨v, hv⟩ : ∃ v, v = other.value / B ^ i % B := ⟨_, rfl⟩
  have hub : u < B := hu ▸ mod_B_lt _
  have hvb : v < B := hv ▸ mod_B_lt _
  rw [← hu, ← hv]
  have hw : (w.set i (UInt32.ofNat ((u + v + k) % B))).value = w.value + B ^ i * ((u + v + k) % B) := by
    rw [value_set_of_value_lt (by omega) hlt, toNat_ofNat_of_lt (mod_B_lt _)]
  have hdm := Nat.mod_add_div (u + v + k) B
  refine ⟨by simp [hlen], ?_, ?_, ?_⟩
  · -- a limb below `B` over a value below `B ^ i`
    rw [hw, pow_succ]
    have hlimb : (u + v + k) % B + 1 ≤ B := mod_B_lt _
    calc w.value + B ^ i * ((u + v + k) % B) < B ^ i + B ^ i * ((u + v + k) % B) := by omega
      _ = B ^ i * ((u + v + k) % B + 1) := by ring
      _ ≤ B ^ i * B := Nat.mul_le_mul_left _ hlimb
  · -- two limbs and a carry are below `2 * B`
    show (u + v + k) / B ≤ 1
    rw [Nat.div_le_iff_le_mul_add_pred (by decide)]
    simp only [B] at hub hvb ⊢
    omega
  · show (w.set i _).value + (u + v + k) / B * B ^ (i + 1) = _
    rw [hw, Nat.mod_pow_succ, Nat.mod_pow_succ (x := other.value), ← hu, ← hv, pow_succ]
    linear_combination hsum + B ^ i * hdm

theorem add_loop (self other : BigUint) :
    AddInv self.value other.value (max self.len other.len) (max self.len other.len)
      ((List.range (max self.len other.len)).foldl (addStep self other)
        (withCapacity (max self.len other.len + 1), 0)) :=
  foldl_range_invariant _ _ _ ⟨by simp, by simp, Nat.zero_le 1, by simp [Nat.mod_one]⟩
    (fun _ hi _ h => h.step hi)

theorem len_add (self other : BigUint) :
    (self.add other).len = max self.len other.len + 1 := by
  have hinv := add_loop self other
  simp only [add]
  generalize (List.range _).foldl (addStep self other) _ = st at hinv ⊢
  obtain ⟨w, k⟩ := st
  simp [hinv.len]

theorem value_add (self other : BigUint) : (self.add other).value = self.value + other.value := by
  have hinv := add_loop self other
  simp only [add]
  generalize (List.range _).foldl (addStep self other) _ = st at hinv ⊢
  obtain ⟨w, k⟩ := st
  obtain ⟨hlen, hlt, hk, hsum⟩ := hinv
  simp only [mod_pow_max_left, mod_pow_max_right] at hlen hlt hk hsum
  have hkB : k < B := by simp only [B]; omega
  have hn : max self.len other.len < w.len := by omega
  rw [value_set_of_value_lt hn hlt, toNat_ofNat_of_lt hkB, ← hsum, Nat.mul_comm]

/-! ## `sub` -/

/-- One limb of `sub` takes the limb `t` and the borrow `k'` with
`t + v + k = u + k' * B`. -/
theorem subLimb_spec {u v k : ℕ} (hu : u < B) (hv : v < B) (hk : k ≤ 1) :
    (subLimb u v k).1 + v + k = u + (subLimb u v k).2 * B ∧ (subLimb u v k).1 < B ∧
      (subLimb u v k).2 ≤ 1 := by
  unfold subLimb Unsigned.checkedSub
  simp only [B] at hu hv ⊢
  by_cases h1 : v ≤ u
  · by_cases h2 : k ≤ u - v
    · simp only [if_pos h1, if_pos h2]
      omega
    · simp only [if_pos h1, if_neg h2]
      omega
  · simp only [if_neg h1]
    omega

theorem subStep_eq (self other w : BigUint) (k i : ℕ) :
    subStep self other (w, k) i =
      let r := subLimb (self.value / B ^ i % B) (other.value / B ^ i % B) k
      (w.set i (UInt32.ofNat r.1), r.2) := by
  simp only [subStep, toNat_checkedGet]

/-- The state of `sub`'s loop after the limbs below `i`. -/
structure SubInv (U V n i : ℕ) (st : BigUint × ℕ) : Prop where
  len : st.1.len = max n 1
  lt : st.1.value < B ^ i
  borrow : st.2 ≤ 1
  diff : st.1.value + V % B ^ i = U % B ^ i + st.2 * B ^ i

theorem SubInv.step {self other : BigUint} {n i : ℕ} {st : BigUint × ℕ}
    (h : SubInv self.value other.value n i st) (hi : i < n) :
    SubInv self.value other.value n (i + 1) (subStep self other st i) := by
  obtain ⟨w, k⟩ := st
  obtain ⟨hlen, hlt, hk, hdiff⟩ := h
  simp only at hlen hlt hk hdiff
  rw [subStep_eq]
  obtain ⟨u, hu⟩ : ∃ u, u = self.value / B ^ i % B := ⟨_, rfl⟩
  obtain ⟨v, hv⟩ : ∃ v, v = other.value / B ^ i % B := ⟨_, rfl⟩
  rw [← hu, ← hv]
  obtain ⟨hsum, htB, hk'⟩ := subLimb_spec (hu ▸ mod_B_lt _) (hv ▸ mod_B_lt _) hk
  have hw : (w.set i (UInt32.ofNat (subLimb u v k).1)).value =
      w.value + B ^ i * (subLimb u v k).1 := by
    rw [value_set_of_value_lt (by omega) hlt, toNat_ofNat_of_lt htB]
  refine ⟨by simp [hlen], ?_, hk', ?_⟩
  · -- a limb below `B` over a value below `B ^ i`
    show (w.set i _).value < _
    rw [hw, pow_succ]
    calc w.value + B ^ i * (subLimb u v k).1 < B ^ i + B ^ i * (subLimb u v k).1 := by omega
      _ = B ^ i * ((subLimb u v k).1 + 1) := by ring
      _ ≤ B ^ i * B := Nat.mul_le_mul_left _ htB
  · show (w.set i _).value + _ = _ + (subLimb u v k).2 * B ^ (i + 1)
    rw [hw, Nat.mod_pow_succ, Nat.mod_pow_succ (x := self.value), ← hu, ← hv, pow_succ]
    linear_combination hdiff + B ^ i * hsum

theorem sub_loop (self other : BigUint) :
    SubInv self.value other.value (max self.len other.len) (max self.len other.len)
      ((List.range (max self.len other.len)).foldl (subStep self other)
        (withCapacity (max self.len other.len), 0)) :=
  foldl_range_invariant _ _ _ ⟨by simp, by simp, Nat.zero_le 1, by simp [Nat.mod_one]⟩
    (fun _ hi _ h => h.step hi)

theorem sub_of_le {self other : BigUint} (h : other.value ≤ self.value) :
    ∃ w, self.sub other = .ok w ∧ w.value = self.value - other.value ∧
      w.len = max (max self.len other.len) 1 := by
  have hinv := sub_loop self other
  simp only [sub]
  generalize (List.range _).foldl (subStep self other) _ = st at hinv ⊢
  obtain ⟨w, k⟩ := st
  obtain ⟨hlen, hlt, hk, hdiff⟩ := hinv
  simp only [mod_pow_max_left, mod_pow_max_right] at hlen hlt hk hdiff
  have hk0 : k = 0 := by
    by_contra hne
    have : k = 1 := by omega
    subst this
    omega
  subst hk0
  exact ⟨w, rfl, by omega, hlen⟩

theorem sub_of_lt {self other : BigUint} (h : self.value < other.value) :
    ∃ w, self.sub other = .error w ∧
      w.value + other.value = self.value + B ^ max self.len other.len ∧
      w.len = max (max self.len other.len) 1 := by
  have hinv := sub_loop self other
  simp only [sub]
  generalize (List.range _).foldl (subStep self other) _ = st at hinv ⊢
  obtain ⟨w, k⟩ := st
  obtain ⟨hlen, hlt, hk, hdiff⟩ := hinv
  simp only [mod_pow_max_left, mod_pow_max_right] at hlen hlt hk hdiff
  have hk1 : k = 1 := by
    by_contra hne
    have : k = 0 := by omega
    subst this
    omega
  subst hk1
  exact ⟨w, rfl, by omega, hlen⟩

/-! ## `mul` -/

theorem mulRowStep_eq (self other x : BigUint) (c : UInt32) (j i : ℕ) :
    mulRowStep self other j (x, c) i =
      let t := (self.get j).toNat * (other.get i).toNat + (x.get (i + j)).toNat + c.toNat
      (x.set (i + j) (UInt32.ofNat (t % B)), UInt32.ofNat (t / B)) := rfl

/-- The state of the row `j` of `mul` after the limbs below `i` of `other`,
started from `w0`: the limbs from `i + j` up are untouched, and the limbs
below with the carry add `B ^ j * u` times the low limbs of `other`. -/
structure RowInv (w0 : BigUint) (V u j i : ℕ) (st : BigUint × UInt32) : Prop where
  len : st.1.len = w0.len
  above : ∀ p, i + j ≤ p → p < w0.len → st.1.get p = w0.get p
  sum : st.1.value + st.2.toNat * B ^ (i + j) = w0.value + B ^ j * u * (V % B ^ i)

theorem mul_add_add_lt {a b g c : ℕ} (ha : a < B) (hb : b < B) (hg : g < B) (hc : c < B) :
    a * b + g + c < B * B := by
  have hab : a * b ≤ (B - 1) * (B - 1) := Nat.mul_le_mul (by omega) (by omega)
  have hB : (B - 1) * (B - 1) + 2 * (B - 1) < B * B := by simp only [B]; omega
  omega

theorem RowInv.step {self other w0 : BigUint} {j i : ℕ} {st : BigUint × UInt32}
    (h : RowInv w0 other.value (self.get j).toNat j i st) (hi : i < other.len)
    (hij : i + j < w0.len) :
    RowInv w0 other.value (self.get j).toNat j (i + 1) (mulRowStep self other j st i) := by
  obtain ⟨x, c⟩ := st
  obtain ⟨hlen, habove, hsum⟩ := h
  simp only at hlen habove hsum
  rw [mulRowStep_eq]
  obtain ⟨t, ht⟩ : ∃ t, t = (self.get j).toNat * (other.get i).toNat + (x.get (i + j)).toNat +
      c.toNat := ⟨_, rfl⟩
  rw [← ht]
  have htB : t < B * B := ht ▸ mul_add_add_lt (toNat_lt_B _) (toNat_lt_B _) (toNat_lt_B _)
    (toNat_lt_B _)
  have hcarry : (UInt32.ofNat (t / B)).toNat = t / B :=
    toNat_ofNat_of_lt (Nat.div_lt_of_lt_mul htB)
  have hset := value_set (show i + j < x.len by omega) (UInt32.ofNat (t % B))
  rw [toNat_ofNat_of_lt (mod_B_lt _)] at hset
  have hdm := Nat.mod_add_div t B
  have hvi := toNat_get hi
  refine ⟨by simp [hlen], ?_, ?_⟩
  · -- the limb `i + j` is the only one written
    intro p hp hpw
    rw [get_set_of_ne (by omega) (by omega) (by omega)]
    exact habove p (by omega) hpw
  · show (x.set (i + j) _).value + (UInt32.ofNat (t / B)).toNat * B ^ (i + 1 + j) = _
    rw [hcarry, Nat.mod_pow_succ, ← hvi, show i + 1 + j = i + j + 1 by omega, pow_succ]
    linear_combination hset + hsum + B ^ (i + j) * hdm + B ^ (i + j) * ht

/-- The row `j` of `mul` adds `B ^ j * u * V` below the limb `j + m`, and
leaves the limbs from `j + m` up as they were. -/
theorem mulRow_spec (self other w0 : BigUint) {j : ℕ} (hj : j + other.len ≤ w0.len) :
    RowInv w0 other.value (self.get j).toNat j other.len (mulRow self other j w0) :=
  foldl_range_invariant _ _ _ ⟨rfl, fun _ _ _ => rfl, by simp [Nat.mod_one]⟩
    (fun _ hi _ h => h.step hi (by omega))

/-- The state of `mul`'s outer loop after the limbs below `j` of `self`. -/
structure MulInv (U V n m j : ℕ) (w : BigUint) : Prop where
  len : w.len = max (m + n) 1
  value : w.value = U % B ^ j * V

theorem MulInv.step {self other : BigUint} {j : ℕ} {w : BigUint}
    (h : MulInv self.value other.value self.len other.len j w) (hj : j < self.len) :
    MulInv self.value other.value self.len other.len (j + 1) (mulStep self other w j) := by
  obtain ⟨hlen, hval⟩ := h
  have hu := toNat_get hj
  unfold mulStep
  split_ifs with h0
  · -- a zero limb of `self` adds nothing
    refine ⟨hlen, ?_⟩
    rw [h0] at hu
    rw [hval, Nat.mod_pow_succ, ← hu]
    simp
  · have hrow := mulRow_spec self other w (j := j) (by omega)
    generalize mulRow self other j w = st at hrow ⊢
    obtain ⟨x, k⟩ := st
    obtain ⟨hxlen, habove, hsum⟩ := hrow
    simp only at hxlen habove hsum
    -- the limb `j + m` is still the zero limb of `w`
    have hwlt : w.value < B ^ (j + other.len) := by
      rw [hval, pow_add]
      exact Nat.mul_lt_mul_of_lt_of_le (Nat.mod_lt _ (pow_B_pos _)) other.value_lt.le
        (pow_B_pos _)
    have hzero : x.get (j + other.len) = 0 := by
      rw [habove _ (by omega) (by omega)]
      exact get_eq_zero_of_value_lt (by omega) hwlt
    have hV : other.value % B ^ other.len = other.value := Nat.mod_eq_of_lt other.value_lt
    refine ⟨by simp [hxlen, hlen], ?_⟩
    rw [value_set_of_get_eq_zero (by omega) hzero, Nat.mod_pow_succ, ← hu]
    rw [hV, hval, show other.len + j = j + other.len by omega] at hsum
    linear_combination hsum

theorem mul_loop (self other : BigUint) :
    MulInv self.value other.value self.len other.len self.len (self.mul other) :=
  foldl_range_invariant _ _ _ ⟨by simp [Nat.add_comm], by simp [Nat.mod_one]⟩
    (fun _ hj _ h => h.step hj)

theorem len_mul (self other : BigUint) : (self.mul other).len = max (other.len + self.len) 1 :=
  (mul_loop self other).len

theorem value_mul (self other : BigUint) : (self.mul other).value = self.value * other.value := by
  rw [(mul_loop self other).value, Nat.mod_eq_of_lt self.value_lt]

/-! ## `div_unit` -/

/-- The state of `div_unit`'s loop with the limbs below `d` still to divide:
the quotient of the limbs from `d` up is written at `d`, and the remainder
carried. -/
structure DivUnitInv (U c L d : ℕ) (st : BigUint × UInt32) : Prop where
  len : st.1.len = max L 1
  rem : st.2.toNat = U / B ^ d % c
  quot : st.1.value = U / B ^ d / c * B ^ d

theorem div_pow_eq (U d : ℕ) : U / B ^ d = U / B ^ (d + 1) * B + U / B ^ d % B := by
  rw [pow_succ, ← Nat.div_div_eq_div_mul, Nat.div_add_mod']

theorem DivUnitInv.step {self : BigUint} {c d : ℕ} (hc : 0 < c) (hcB : c < B)
    {st : BigUint × UInt32} (h : DivUnitInv self.value c self.len (d + 1) st) (hd : d < self.len) :
    let x := st.2.toNat * B + (self.get d).toNat
    DivUnitInv self.value c self.len d (st.1.set d (UInt32.ofNat (x / c)), UInt32.ofNat (x % c)) := by
  obtain ⟨out, r⟩ := st
  obtain ⟨hlen, hrem, hquot⟩ := h
  simp only at hlen hrem hquot ⊢
  rw [toNat_get hd]
  -- the digits from `d + 1` up, and the remainder of their quotient
  obtain ⟨A, hA⟩ : ∃ A, A = self.value / B ^ (d + 1) := ⟨_, rfl⟩
  obtain ⟨x, hx⟩ : ∃ x, x = r.toNat * B + self.value / B ^ d % B := ⟨_, rfl⟩
  rw [← hx]
  have hsplit : self.value / B ^ d = A / c * c * B + x := by
    rw [div_pow_eq, ← hA, hx, hrem, ← hA]
    have := Nat.div_add_mod' A c
    linear_combination B * this.symm
  have hxc : x < c * B := by
    have hr : r.toNat < c := hrem ▸ Nat.mod_lt _ hc
    have hdig : self.value / B ^ d % B < B := mod_B_lt _
    calc x = r.toNat * B + self.value / B ^ d % B := hx
      _ < r.toNat * B + B := by omega
      _ = (r.toNat + 1) * B := by ring
      _ ≤ c * B := Nat.mul_le_mul_right _ hr
  have hq : x / c < B := Nat.div_lt_of_lt_mul hxc
  have hdiv : self.value / B ^ d / c = A / c * B + x / c := by
    rw [hsplit, show A / c * c * B + x = x + c * (A / c * B) by ring,
      Nat.add_mul_div_left _ _ hc]
    ring
  have hzero : out.get d = 0 := by
    apply UInt32.toNat_inj.1
    rw [toNat_get (by omega), hquot, ← hA, pow_succ,
      show A / c * (B ^ d * B) = A / c * B * B ^ d by ring, Nat.mul_div_cancel _ (pow_B_pos d),
      Nat.mul_mod_left]
    rfl
  refine ⟨by simp [hlen], ?_, ?_⟩
  · rw [toNat_ofNat_of_lt ((Nat.mod_lt _ hc).trans hcB), hsplit, Nat.mul_assoc, Nat.add_comm,
      Nat.mul_comm c, ← Nat.mul_assoc, Nat.add_mul_mod_self_right]
  · rw [value_set_of_get_eq_zero (by omega) hzero, toNat_ofNat_of_lt hq, hquot, ← hA, hdiv]
    ring

theorem divUnitLoop_spec (self : BigUint) {other : UInt32} (hc : 0 < other.toNat) :
    ∀ d st, d ≤ self.len → DivUnitInv self.value other.toNat self.len d st →
      DivUnitInv self.value other.toNat self.len 0 (divUnitLoop self other d st)
  | 0, _, _, h => h
  | d + 1, st, hd, h => by
      unfold divUnitLoop
      exact divUnitLoop_spec self hc d _ (by omega) (h.step hc other.toNat_lt hd)

theorem value_divUnit (self : BigUint) (other : UInt32) :
    (self.divUnit other).value = self.value / max other.toNat 1 := by
  have hc : (max other 1).toNat = max other.toNat 1 := UInt32.toNat_max other 1
  have hinit : DivUnitInv self.value (max other 1).toNat self.len self.len
      (withCapacity self.len, 0) := by
    refine ⟨by simp, ?_, by simp [Nat.div_eq_of_lt self.value_lt]⟩
    simp [Nat.div_eq_of_lt self.value_lt]
  have hrun := (divUnitLoop_spec self (by rw [hc]; omega) _ _ le_rfl hinit).quot
  simp only [pow_zero, Nat.div_one, Nat.mul_one] at hrun
  rw [divUnit, hrun, hc]

end SocialNetwork.Arithmetic.BigUint
