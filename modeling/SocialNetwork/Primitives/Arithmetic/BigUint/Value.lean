import SocialNetwork.Primitives.Arithmetic.BigUint
import SocialNetwork.Lib.Positional

/-!
# The number a `BigUint` denotes

`value` reads the limbs in base `B`, the least significant first
(`limbs`). Reading a limb with `get` or `checked_get` is a digit of the value
(`toNat_get`, `toNat_checkedGet`), and `set` moves the value by the change of
one digit (`value_set`); a window of limbs is a window of digits
(`value_window`). Padding and stripping leave the value as it is.
-/

namespace SocialNetwork.Arithmetic.BigUint

open Positional

def limbs (x : BigUint) : List ℕ := (x.digits.map UInt32.toNat).reverse

def value (x : BigUint) : ℕ := Nat.ofDigits B x.limbs

theorem one_lt_B : 1 < B := by decide

theorem pow_B_pos (k : ℕ) : 0 < B ^ k := pow_pos (by decide) k

theorem toNat_lt_B (a : UInt32) : a.toNat < B := a.toNat_lt

theorem toNat_ofNat_of_lt {n : ℕ} (h : n < B) : (UInt32.ofNat n).toNat = n := by
  rw [UInt32.toNat_ofNat']
  exact Nat.mod_eq_of_lt h

theorem digits_limbs (x : BigUint) : Digits B x.limbs := by
  intro d hd
  obtain ⟨a, -, rfl⟩ := List.mem_map.1 (List.mem_reverse.1 hd)
  exact toNat_lt_B a

@[simp] theorem length_limbs (x : BigUint) : x.limbs.length = x.len := by
  simp [limbs, len]

theorem value_lt (x : BigUint) : x.value < B ^ x.len := by
  rw [value, ← length_limbs]
  exact ofDigits_lt_pow one_lt_B x.digits_limbs

/-! ## Reading and writing one limb -/

theorem checkedGet_of_lt {x : BigUint} {j : ℕ} (h : j < x.len) :
    x.checkedGet j = some (x.digits.getD (x.len - 1 - j) 0) := by
  have hj : x.len - 1 - j < x.digits.length := by simp only [len] at h ⊢; omega
  simp only [checkedGet, Unsigned.checkedSub, if_pos (show 1 ≤ x.len by omega),
    if_pos (show j ≤ x.len - 1 by omega), Option.bind_eq_bind, Option.bind_some]
  rw [List.getElem?_eq_getElem hj, List.getD_eq_getElem _ _ hj]

theorem checkedGet_of_le {x : BigUint} {j : ℕ} (h : x.len ≤ j) : x.checkedGet j = none := by
  simp only [checkedGet, Unsigned.checkedSub]
  split_ifs <;> simp_all [len]; omega

theorem get_of_lt {x : BigUint} {j : ℕ} (h : j < x.len) :
    x.get j = x.digits.getD (x.len - 1 - j) 0 := by
  rw [get, checkedGet_of_lt h]
  rfl

theorem limbs_getD {x : BigUint} {j : ℕ} (h : j < x.len) :
    x.limbs.getD j 0 = (x.get j).toNat := by
  have hj : x.len - 1 - j < x.digits.length := by simp only [len] at h ⊢; omega
  rw [get_of_lt h, List.getD_eq_getElem _ _ hj, limbs, List.getD_eq_getElem _ _ (by simpa [len] using h),
    List.getElem_reverse, List.getElem_map]
  simp [len]

theorem toNat_get {x : BigUint} {j : ℕ} (h : j < x.len) :
    (x.get j).toNat = x.value / B ^ j % B := by
  rw [← limbs_getD h, getD_eq_ofDigits_div_mod one_lt_B x.digits_limbs, value]

theorem toNat_checkedGet (x : BigUint) (j : ℕ) :
    ((x.checkedGet j).getD 0).toNat = x.value / B ^ j % B := by
  by_cases h : j < x.len
  · have hsome : x.checkedGet j = some (x.get j) := by
      rw [checkedGet_of_lt h, get_of_lt h]
    rw [hsome, Option.getD_some, toNat_get h]
  · -- past the last limb the value has no digit
    have hnone : x.checkedGet j = none := checkedGet_of_le (by omega)
    have hlt : x.value < B ^ j :=
      (x.value_lt).trans_le (Nat.pow_le_pow_right (by decide) (by omega))
    rw [hnone, Nat.div_eq_of_lt hlt]
    rfl

@[simp] theorem len_set (x : BigUint) (j : ℕ) (v : UInt32) : (x.set j v).len = x.len := by
  simp [set, len]

theorem limbs_set {x : BigUint} {j : ℕ} (h : j < x.len) (v : UInt32) :
    (x.set j v).limbs = x.limbs.set j v.toNat := by
  have hj : x.len - 1 - j < (x.digits.map UInt32.toNat).length := by
    simp only [len, List.length_map] at h ⊢
    omega
  rw [limbs, set, List.map_set, reverse_set _ hj, limbs]
  simp only [List.length_map, len] at h ⊢
  congr 1
  omega

theorem value_set {x : BigUint} {j : ℕ} (h : j < x.len) (v : UInt32) :
    (x.set j v).value + B ^ j * (x.get j).toNat = x.value + B ^ j * v.toNat := by
  rw [value, limbs_set h, ← limbs_getD h, value]
  exact ofDigits_set x.limbs j v.toNat (by simpa using h)

theorem value_set_of_get_eq_zero {x : BigUint} {j : ℕ} (h : j < x.len) (h0 : x.get j = 0)
    (v : UInt32) : (x.set j v).value = x.value + B ^ j * v.toNat := by
  have := value_set h v
  rw [h0] at this
  simpa using this

theorem get_set_self {x : BigUint} {j : ℕ} (h : j < x.len) (v : UInt32) :
    (x.set j v).get j = v := by
  rw [get_of_lt (by rwa [len_set])]
  have hj : x.digits.length - 1 - j < x.digits.length := by simp only [len] at h; omega
  simp only [set, len, List.length_set, List.getD_eq_getElem?_getD]
  rw [List.getElem?_set_self hj, Option.getD_some]

theorem get_set_of_ne {x : BigUint} {i j : ℕ} (hi : i < x.len) (hj : j < x.len) (hij : i ≠ j)
    (v : UInt32) : (x.set i v).get j = x.get j := by
  rw [get_of_lt (by rwa [len_set]), get_of_lt hj]
  simp only [len] at hi hj
  simp only [set, len, List.length_set, List.getD_eq_getElem?_getD]
  rw [List.getElem?_set_ne (by omega)]

theorem get_eq_zero_of_value_lt {x : BigUint} {j : ℕ} (h : j < x.len) (hlt : x.value < B ^ j) :
    x.get j = 0 := by
  apply UInt32.toNat_inj.1
  rw [toNat_get h, Nat.div_eq_of_lt hlt]
  rfl

theorem value_set_of_value_lt {x : BigUint} {j : ℕ} (h : j < x.len) (hlt : x.value < B ^ j)
    (v : UInt32) : (x.set j v).value = x.value + B ^ j * v.toNat :=
  value_set_of_get_eq_zero h (get_eq_zero_of_value_lt h hlt) v

theorem len_foldl_set (x : BigUint) (f : ℕ → ℕ) (g : ℕ → UInt32) (is : List ℕ) :
    (is.foldl (fun s i => s.set (f i) (g i)) x).len = x.len := by
  induction is generalizing x with
  | nil => rfl
  | cons i is ih => rw [List.foldl_cons, ih, len_set]

/-- Writing the limbs `0` to `m - 1` in order, each limb below `m` reads back
what was written there. -/
theorem get_foldl_set_range (x : BigUint) (g : ℕ → UInt32) :
    ∀ m, m ≤ x.len → ∀ k < m, ((List.range m).foldl (fun s d => s.set d (g d)) x).get k = g k
  | 0, _, _, hk => absurd hk (Nat.not_lt_zero _)
  | m + 1, hm, k, hk => by
      have hlen : ((List.range m).foldl (fun s d => s.set d (g d)) x).len = x.len :=
        len_foldl_set x (fun d => d) g _
      rw [List.range_succ, List.foldl_append, List.foldl_cons, List.foldl_nil]
      by_cases hkm : k = m
      · rw [hkm]
        exact get_set_self (by omega) _
      · rw [get_set_of_ne (by omega) (by omega) (Ne.symm hkm)]
        exact get_foldl_set_range x g m (by omega) k (by omega)

theorem limbs_foldl_set (x : BigUint) (j : ℕ) (g : ℕ → UInt32) (is : List ℕ)
    (h : ∀ i ∈ is, j + i < x.len) :
    (is.foldl (fun s i => s.set (j + i) (g i)) x).limbs =
      is.foldl (fun l i => l.set (j + i) (g i).toNat) x.limbs := by
  induction is generalizing x with
  | nil => rfl
  | cons i is ih =>
      simp only [List.foldl_cons]
      rw [ih (x.set (j + i) (g i)) (fun k hk => by rw [len_set]; exact h k (by simp [hk])),
        limbs_set (h i (by simp))]

/-- A number is determined by its limbs: one long enough whose every limb is
the limb of `N` there denotes `N`. -/
theorem value_eq_of_get {x : BigUint} {N : ℕ} (hN : N < B ^ x.len)
    (h : ∀ k < x.len, (x.get k).toNat = N / B ^ k % B) : x.value = N := by
  apply ofDigits_eq_of_getD one_lt_B (by rwa [length_limbs])
  intro k hk
  rw [length_limbs] at hk
  rw [limbs_getD hk, h k hk]

/-- Writing the low `n + 1` limbs of `y`, in any order, over the limbs `j` to
`j + n` of `x` moves the value by `B ^ j` times the change of that window. -/
theorem value_foldl_set_window {x y : BigUint} {j n : ℕ} {is : List ℕ}
    (hperm : is.Perm (List.range (n + 1))) (hx : j + n < x.len) (hy : n < y.len) :
    (is.foldl (fun s i => s.set (j + i) (y.get i)) x).value +
        B ^ j * (x.value / B ^ j % B ^ (n + 1)) =
      x.value + B ^ j * (y.value % B ^ (n + 1)) := by
  have hin : ∀ i ∈ is, j + i < x.len := fun i hi => by
    have := List.mem_range.1 (hperm.subset hi)
    omega
  -- the low limbs of `y`, least significant first
  have hlow : (List.range (n + 1)).map (fun i => (y.get i).toNat) = y.limbs.take (n + 1) := by
    apply List.ext_getElem (by simp; omega)
    intro i hi _
    simp only [List.getElem_map, List.getElem_range, List.getElem_take]
    rw [← limbs_getD (by simp at hi; omega), List.getD_eq_getElem]
  have hlen : (y.limbs.take (n + 1)).length = n + 1 := by simp; omega
  have hlimbs : (is.foldl (fun s i => s.set (j + i) (y.get i)) x).limbs =
      x.limbs.take j ++ y.limbs.take (n + 1) ++ x.limbs.drop (j + (n + 1)) := by
    rw [limbs_foldl_set x j _ is hin, foldl_set_perm x.limbs j _ hperm (by simp; omega), hlow]
  have hsplice := ofDigits_splice one_lt_B x.digits_limbs j (y.limbs.take (n + 1))
    (by simp; omega)
  rw [hlen, ← Nat.ofDigits_mod_pow_eq_ofDigits_take (n + 1) (by decide) y.limbs y.digits_limbs]
    at hsplice
  rw [value, hlimbs, value, value]
  exact hsplice

/-! ## Fresh, padded and stripped numbers -/

@[simp] theorem len_withCapacity (size : ℕ) : (withCapacity size).len = max size 1 := by
  simp [withCapacity, len]

@[simp] theorem value_withCapacity (size : ℕ) : (withCapacity size).value = 0 := by
  simp [withCapacity, value, limbs]

theorem get_withCapacity (size j : ℕ) : (withCapacity size).get j = 0 := by
  by_cases h : j < (withCapacity size).len
  · rw [get_of_lt h]
    simp [withCapacity, List.getD_eq_getElem?_getD, List.getElem?_replicate]
    split_ifs <;> rfl
  · -- out of range the read panics, with the default limb
    rw [get, checkedGet_of_le (by omega)]
    rfl

theorem value_lpad (x : BigUint) (size : ℕ) : (x.lpad size).value = x.value := by
  unfold lpad
  split_ifs
  · rfl
  · simp [value, limbs, Nat.ofDigits_append]

theorem len_lpad (x : BigUint) (size : ℕ) : (x.lpad size).len = max size x.len := by
  unfold lpad
  split_ifs with h
  · simp [max_eq_right h]
  · simp [len]
    omega

theorem value_drop_of_zeros {x : BigUint} {k : ℕ} (hzero : ∀ i < k, x.digits[i]? = some 0) :
    (⟨x.digits.drop k⟩ : BigUint).value = x.value := by
  have htake : x.digits.take k = List.replicate k 0 := by
    apply List.ext_getElem?
    intro i
    rw [List.getElem?_take, List.getElem?_replicate]
    split_ifs with hi
    · exact hzero i hi
    · rfl
  have hsplit : x.value = (⟨List.replicate k 0 ++ x.digits.drop k⟩ : BigUint).value := by
    rw [← htake, List.take_append_drop]
  rw [hsplit]
  simp [value, limbs, Nat.ofDigits_append]

theorem zeros_before_findIdx (x : BigUint) :
    ∀ i < (x.digits.findIdx? fun e => e != 0).getD (x.len - 1), x.digits[i]? = some 0 := by
  intro i hi
  rcases hfind : x.digits.findIdx? (fun e => e != 0) with _ | k
  · -- no non-zero limb at all
    have hall := List.findIdx?_eq_none_iff.1 hfind
    have hi' : i < x.digits.length := by
      simp only [hfind, Option.getD_none, len] at hi
      omega
    rw [List.getElem?_eq_getElem hi']
    simpa using hall _ (List.getElem_mem hi')
  · obtain ⟨hk, -, hbefore⟩ := List.findIdx?_eq_some_iff_getElem.1 hfind
    have hik : i < k := by simpa [hfind] using hi
    rw [List.getElem?_eq_getElem (by omega)]
    simpa using hbefore i hik

theorem value_lstrip (x : BigUint) : x.lstrip.value = x.value := by
  unfold lstrip
  split_ifs with h0
  · rfl
  · dsimp only
    split_ifs
    · exact value_drop_of_zeros (zeros_before_findIdx x)
    · rfl

/-- `lstrip` drops the limbs before the first non-zero one, or all but the
last when every limb is zero. -/
theorem lstrip_eq (x : BigUint) :
    x.lstrip = ⟨x.digits.drop ((x.digits.findIdx? fun e => e != 0).getD (x.len - 1))⟩ := by
  unfold lstrip
  split_ifs with h0
  · -- no limbs at all
    obtain ⟨digits⟩ := x
    simp only [len, List.length_eq_zero_iff] at h0
    simp [h0]
  · dsimp only
    split_ifs with hpos
    · rfl
    · rw [show (x.digits.findIdx? fun e => e != 0).getD (x.len - 1) = 0 by omega, List.drop_zero]

theorem toNat_msb {x : BigUint} (h : 0 < x.len) : x.msb.toNat = x.value / B ^ (x.len - 1) := by
  have hget : x.msb = x.get (x.len - 1) := by
    obtain ⟨_ | ⟨d, ds⟩⟩ := x
    · simp [len] at h
    · rw [get_of_lt (by omega)]
      simp [msb, len]
  have hlt : x.value / B ^ (x.len - 1) < B := by
    rw [Nat.div_lt_iff_lt_mul (pow_B_pos _), ← pow_succ', Nat.sub_add_cancel h]
    exact x.value_lt
  rw [hget, toNat_get (by omega), Nat.mod_eq_of_lt hlt]

/-- A number with no leading zero limb, or with at most one limb: what
`lstrip` returns. -/
def Stripped (x : BigUint) : Prop := x.len ≤ 1 ∨ x.msb ≠ 0

theorem stripped_lstrip (x : BigUint) : x.lstrip.Stripped := by
  rw [lstrip_eq, Stripped]
  rcases hfind : x.digits.findIdx? (fun e => e != 0) with _ | i
  · -- every limb is zero: one is kept
    left
    simp [len]
    omega
  · -- the first non-zero limb is the most significant one kept
    right
    obtain ⟨hi, hne, -⟩ := List.findIdx?_eq_some_iff_getElem.1 hfind
    rw [Option.getD_some, List.drop_eq_getElem_cons hi]
    simpa [msb, List.getElem?_eq_getElem hi] using hne

theorem stripped_of_lstrip_eq {x : BigUint} (h : x.lstrip = x) : x.Stripped :=
  h ▸ stripped_lstrip x

theorem pow_le_value {x : BigUint} (h : x.msb ≠ 0) : B ^ (x.len - 1) ≤ x.value := by
  have hlen : 0 < x.len := by
    obtain ⟨_ | ⟨d, ds⟩⟩ := x
    · exact absurd rfl h
    · simp [len]
  have hmsb : 0 < x.msb.toNat := by
    rcases Nat.eq_zero_or_pos x.msb.toNat with h0 | h0
    · exact absurd (UInt32.toNat_inj.1 h0) h
    · exact h0
  rw [toNat_msb hlen] at hmsb
  exact (Nat.one_le_div_iff (pow_B_pos _)).1 hmsb

theorem Stripped.len_eq {x : BigUint} (hs : x.Stripped) {k : ℕ} (hk : 1 ≤ k)
    (hlo : B ^ (k - 1) ≤ x.value) (hhi : x.value < B ^ k) : x.len = k := by
  have hB : 1 < B := one_lt_B
  have hx := x.value_lt
  rcases hs with hs | hs
  · -- one limb: the value is below `B`, so `k = 1`
    have hk1 : k = 1 := by
      by_contra hne
      have h1 : B ^ x.len ≤ B ^ (k - 1) := Nat.pow_le_pow_right (by omega) (by omega)
      omega
    have hpos : 0 < x.value := lt_of_lt_of_le (pow_B_pos _) hlo
    have h0 : x.len ≠ 0 := by
      rintro h0
      rw [h0, pow_zero] at hx
      omega
    omega
  · have hp := pow_le_value hs
    rcases lt_trichotomy x.len k with hlt | heq | hgt
    · have : B ^ x.len ≤ B ^ (k - 1) := Nat.pow_le_pow_right (by omega) (by omega)
      omega
    · exact heq
    · have : B ^ k ≤ B ^ (x.len - 1) := Nat.pow_le_pow_right (by omega) (by omega)
      omega

theorem Stripped.value_lt_pow_iff {x : BigUint} (hs : x.Stripped) {k : ℕ} (hk : 1 ≤ k) :
    x.value < B ^ k ↔ x.len ≤ k := by
  have hB : 1 < B := one_lt_B
  constructor
  · intro hlt
    rcases hs with hs | hs
    · omega
    · have hp := pow_le_value hs
      by_contra hgt
      have : B ^ k ≤ B ^ (x.len - 1) := Nat.pow_le_pow_right (by omega) (by omega)
      omega
  · intro hle
    exact x.value_lt.trans_le (Nat.pow_le_pow_right (by omega) hle)

/-! ## Windows of limbs -/

theorem limbs_window (x : BigUint) (j n : ℕ) :
    (x.window j n).limbs = (List.range (n + 1)).map fun i => (x.get (j + i)).toNat := by
  simp [window, limbs, List.map_reverse]

theorem value_window {x : BigUint} {j n : ℕ} (h : j + n < x.len) :
    (x.window j n).value = x.value / B ^ j % B ^ (n + 1) := by
  have hlimbs : (x.window j n).limbs = (x.limbs.drop j).take (n + 1) := by
    rw [limbs_window]
    apply List.ext_getElem (by simp; omega)
    intro i hi _
    have hi1 : i < n + 1 := by simpa using hi
    simp only [List.getElem_map, List.getElem_range, List.getElem_take, List.getElem_drop]
    rw [← limbs_getD (by omega), List.getD_eq_getElem]
  rw [value, hlimbs, ofDigits_drop_take one_lt_B x.digits_limbs, value]

end SocialNetwork.Arithmetic.BigUint
