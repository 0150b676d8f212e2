import SocialNetwork.Primitives.Arithmetic.BigUint.Arith
import SocialNetwork.Lib.LongDivision

/-!
# `div` (Algorithm D) on values

Each pass of `div`'s loop computes the quotient limb `j` of the normalised
dividend by the normalised divisor `V`, from the window `W` of limbs `j` to
`j + n`, which is below `V * B`:

* `estimate_spec`: step D3 ends with `qhat` equal to `W / V` or one more, and
  below `B` (the library `LongDivision` at base `B`, through the loop
  invariant `Estimate`);
* `divStep_spec`: steps D4 to D6 write `W / V` at limb `j` of the quotient
  and `W % V` in place of the window, whether or not the subtraction went
  below zero and the divisor was added back;
* `divLoop_spec`: over all quotient limbs, the invariant `DivInv` gives the
  quotient and the remainder of the normalised numbers;
* `div_spec`: normalising both numbers by `2 ^ normalizer_bits` and shifting
  the remainder back gives the quotient and the remainder of `self` by
  `other`.
-/

namespace SocialNetwork.Arithmetic.BigUint

open Positional LongDivision

/-! ## Step D3: the estimate -/

/-- What step D3 keeps of its estimate `qh` with remainder `rh`: they still
divide the top part `T` by `vt`, and `qh` is never below the quotient `q`. -/
structure Estimate (q vt T qh rh : ℕ) : Prop where
  eq : qh * vt + rh = T
  le : q ≤ qh

theorem test_false {vt vn u2 qh rh qh' rh' : ℕ} (h : test vt vn u2 qh rh = (false, qh', rh')) :
    qh' = qh ∧ rh' = rh ∧ qh < B ∧ qh * vn ≤ B * rh + u2 := by
  unfold test at h
  split_ifs at h with hc
  · cases h
  · simp only [Prod.mk.injEq] at h
    obtain ⟨-, rfl, rfl⟩ := h
    simp only [not_or, not_le, not_lt] at hc
    exact ⟨rfl, rfl, hc.1, hc.2⟩

section Estimate

variable {P V W vt vn T u2 : ℕ}

theorem div_lt_B (hV : TopDigits B P V vt vn) (hvt : 0 < vt) (hWV : W < V * B) : W / V < B :=
  (Nat.div_lt_iff_lt_mul (hV.pos hvt)).2 (by rw [Nat.mul_comm]; exact hWV)

theorem test_true (hV : TopDigits B P V vt vn) (hW : TopDigits B P W T u2) (hvt : 0 < vt)
    (hWV : W < V * B) {qh rh qh' rh' : ℕ} (h : Estimate (W / V) vt T qh rh)
    (ht : test vt vn u2 qh rh = (true, qh', rh')) : Estimate (W / V) vt T qh' rh' := by
  unfold test at ht
  split_ifs at ht with hc
  · obtain ⟨-, rfl, rfl⟩ : true = true ∧ qh - 1 = qh' ∧ rh + vt = rh' := by simpa using ht
    have hlt : W / V < qh := by
      rcases hc with hB | htest
      · exact lt_of_lt_of_le (div_lt_B hV hvt hWV) hB
      · exact div_lt_of_test hV hW hvt h.eq htest
    refine ⟨?_, Nat.le_sub_one_of_lt hlt⟩
    have hq := h.eq
    have hpos : 0 < qh := lt_of_le_of_lt (Nat.zero_le _) hlt
    obtain ⟨q', rfl⟩ : ∃ q', qh = q' + 1 := ⟨qh - 1, by omega⟩
    simp only [Nat.add_sub_cancel] at hq ⊢
    linear_combination hq
  · cases ht

/-- An estimate that ends the loop, by a test that passes or by a remainder
that has reached `B`, is the quotient or one more, and below `B`. -/
theorem estimate_exit (hV : TopDigits B P V vt vn) (hW : TopDigits B P W T u2) (hvt : 0 < vt)
    {qh rh : ℕ} (h : Estimate (W / V) vt T qh rh) (hqB : qh < B)
    (hpass : qh * vn ≤ B * rh + u2) : W / V ≤ qh ∧ qh ≤ W / V + 1 ∧ qh < B := by
  have hqb : qh ≤ vt * B + vn + 1 :=
    calc qh ≤ 1 * B := by omega
      _ ≤ vt * B := Nat.mul_le_mul_right _ hvt
      _ ≤ vt * B + vn + 1 := by omega
  exact ⟨h.le, le_div_succ hV hW hvt h.eq hpass hqb, hqB⟩

/-- The loop `while rhat < B { if !test() { break; } }` ends with the quotient
or one more, below `B`. -/
theorem qhatLoop_spec (hV : TopDigits B P V vt vn) (hW : TopDigits B P W T u2) (hvt : 0 < vt)
    (hWV : W < V * B) :
    ∀ qh rh, Estimate (W / V) vt T qh rh →
      W / V ≤ qhatLoop vt vn u2 qh rh ∧ qhatLoop vt vn u2 qh rh ≤ W / V + 1 ∧
        qhatLoop vt vn u2 qh rh < B := by
  intro qh
  induction qh using Nat.strong_induction_on with
  | _ qh ih =>
    intro rh h
    rw [qhatLoop]
    split_ifs with hrh
    · split
      · -- the test fired: the loop goes on with a smaller estimate
        rename_i qh' rh' htest
        exact ih qh' (lt_of_test_eq_true htest) rh' (test_true hV hW hvt hWV h htest)
      · -- the test passed
        rename_i qh' rh' htest
        obtain ⟨-, -, hqB, hpass⟩ := test_false htest
        exact estimate_exit hV hW hvt h hqB hpass
    · -- the remainder reached `B`
      have hT := top_lt hV hW hWV
      have hqB := lt_base_of_le_rem hT h.eq (by omega)
      exact estimate_exit hV hW hvt h hqB (pass_of_le_rem hV.lo_lt hqB (by omega))

end Estimate

/-- The limbs of a number in range at `d`, `d + 1` and `d + 2`, as top digits
of its digits from `d` up. -/
theorem topDigits_div (x d k : ℕ) :
    TopDigits B (B ^ k) (x / B ^ d)
      (x / B ^ (d + k + 2) * B + x / B ^ (d + k + 1) % B) (x / B ^ (d + k) % B) := by
  apply TopDigits.of_div (pow_B_pos k) _ (mod_B_lt _)
  rw [Nat.div_div_eq_div_mul, ← pow_add]
  conv_lhs => rw [div_pow_eq x (d + k), div_pow_eq x (d + k + 1)]

theorem div_pow_mod_of_lt {x d : ℕ} (hx : x < B ^ (d + 1)) : x / B ^ d % B = x / B ^ d :=
  Nat.mod_eq_of_lt ((Nat.div_lt_iff_lt_mul (pow_B_pos _)).2 (by rw [← pow_succ']; exact hx))

/-- Step D3 on a window below `V * B`: the estimate is the quotient of the
window by the divisor, or one more, and below `B`. -/
theorem estimate_spec {otherNorm r : BigUint} {n j : ℕ} (hn : 2 ≤ n) (hlen : otherNorm.len = n)
    (hvt : 0 < (otherNorm.get (n - 1)).toNat) (hr : j + n < r.len)
    (hrem : r.value < otherNorm.value * B ^ (j + 1)) :
    r.value / B ^ j / otherNorm.value ≤ estimate n otherNorm r j ∧
      estimate n otherNorm r j ≤ r.value / B ^ j / otherNorm.value + 1 ∧
      estimate n otherNorm r j < B := by
  obtain ⟨k, rfl⟩ : ∃ k, n = k + 2 := ⟨n - 2, by omega⟩
  have hVlt : otherNorm.value < B ^ (k + 2) := hlen ▸ otherNorm.value_lt
  have hrlt : r.value < B ^ (j + k + 3) :=
    calc r.value < otherNorm.value * B ^ (j + 1) := hrem
      _ ≤ B ^ (k + 2) * B ^ (j + 1) := Nat.mul_le_mul_right _ hVlt.le
      _ = B ^ (j + k + 3) := by rw [← pow_add]; ring_nf
  -- the limbs that step D3 reads, as digits
  have hvt_eq : (otherNorm.get (k + 2 - 1)).toNat = otherNorm.value / B ^ (k + 1) := by
    rw [toNat_get (by omega), show k + 2 - 1 = k + 1 by omega, div_pow_mod_of_lt hVlt]
  have hvn_eq : (otherNorm.get (k + 2 - 2)).toNat = otherNorm.value / B ^ k % B := by
    rw [toNat_get (by omega), show k + 2 - 2 = k by omega]
  have hut : (r.get (j + (k + 2))).toNat = r.value / B ^ (j + k + 2) := by
    rw [toNat_get (by omega), show j + (k + 2) = j + k + 2 by omega, div_pow_mod_of_lt hrlt]
  have hu1 : (r.get (j + (k + 2) - 1)).toNat = r.value / B ^ (j + k + 1) % B := by
    rw [toNat_get (by omega), show j + (k + 2) - 1 = j + k + 1 by omega]
  have hu2 : (r.get (j + (k + 2) - 2)).toNat = r.value / B ^ (j + k) % B := by
    rw [toNat_get (by omega), show j + (k + 2) - 2 = j + k by omega]
  have hV : TopDigits B (B ^ k) otherNorm.value (otherNorm.value / B ^ (k + 1))
      (otherNorm.value / B ^ k % B) :=
    TopDigits.of_div (pow_B_pos k) (div_pow_eq _ k) (mod_B_lt _)
  have hW := topDigits_div r.value j k
  have hWV : r.value / B ^ j < otherNorm.value * B := by
    rw [Nat.div_lt_iff_lt_mul (pow_B_pos j)]
    calc r.value < otherNorm.value * B ^ (j + 1) := hrem
      _ = otherNorm.value * B * B ^ j := by ring
  have hvt' : 0 < otherNorm.value / B ^ (k + 1) := hvt_eq ▸ hvt
  have hvtB : otherNorm.value / B ^ (k + 1) < B := hvt_eq ▸ toNat_lt_B _
  obtain ⟨T, hT⟩ : ∃ T, T = r.value / B ^ (j + k + 2) * B + r.value / B ^ (j + k + 1) % B :=
    ⟨_, rfl⟩
  rw [← hT] at hW
  have hrh0 : (UInt32.ofNat (T % (otherNorm.value / B ^ (k + 1)))).toNat =
      T % (otherNorm.value / B ^ (k + 1)) :=
    toNat_ofNat_of_lt ((Nat.mod_lt _ hvt').trans hvtB)
  have h0 : Estimate (r.value / B ^ j / otherNorm.value) (otherNorm.value / B ^ (k + 1)) T
      (T / (otherNorm.value / B ^ (k + 1))) (T % (otherNorm.value / B ^ (k + 1))) :=
    ⟨Nat.div_add_mod' _ _, le_estimate hV hW hvt'⟩
  unfold estimate
  simp only [divSingle, hvt_eq, hvn_eq, hut, hu1, hu2, ← hT, hrh0]
  generalize htest : test _ _ _ _ _ = res
  obtain ⟨fired, qh, rh⟩ := res
  have hest : Estimate (r.value / B ^ j / otherNorm.value) (otherNorm.value / B ^ (k + 1)) T qh rh := by
    cases fired
    · obtain ⟨rfl, rfl, -, -⟩ := test_false htest
      exact h0
    · exact test_true hV hW hvt' hWV h0 htest
  exact qhatLoop_spec hV hW hvt' hWV qh rh hest

/-! ## Steps D4 to D6: subtract, and add back -/

theorem len_ofDouble (a : ℕ) : (ofDouble a).len = 2 := rfl

theorem value_ofDouble {a : ℕ} (ha : a < B * B) : (ofDouble a).value = a := by
  have hlo : (UInt32.ofNat a).toNat = a % B := UInt32.toNat_ofNat'
  have hhi : (UInt32.ofNat (a >>> 32)).toNat = a / B := by
    rw [UInt32.toNat_ofNat', Nat.shiftRight_eq_div_pow]
    exact Nat.mod_eq_of_lt (Nat.div_lt_of_lt_mul ha)
  simp only [ofDouble, split, value, limbs, List.map_cons, List.map_nil, List.reverse_cons,
    List.reverse_nil, List.nil_append, List.cons_append, Nat.ofDigits_cons, Nat.ofDigits_nil,
    hlo, hhi]
  have := Nat.mod_add_div a B
  omega

theorem len_window (x : BigUint) (j n : ℕ) : (x.window j n).len = n + 1 := by
  simp [window, len]

/-- Writing the low `n + 1` limbs of `y` as the limbs `j` to `j + n` of a
number below `B ^ (j + n + 1)`: its limbs below `j` stay, and the window
holds the low limbs of `y`. -/
theorem value_writeWindow {x y : BigUint} {j n : ℕ} {is : List ℕ}
    (hperm : is.Perm (List.range (n + 1))) (hx : j + n < x.len) (hy : n < y.len)
    (hxlt : x.value < B ^ (j + n + 1)) :
    (is.foldl (fun s i => s.set (j + i) (y.get i)) x).value =
      x.value % B ^ j + B ^ j * (y.value % B ^ (n + 1)) := by
  have hwrite := value_foldl_set_window hperm hx hy
  have hwin : x.value / B ^ j % B ^ (n + 1) = x.value / B ^ j := by
    apply Nat.mod_eq_of_lt
    rw [Nat.div_lt_iff_lt_mul (pow_B_pos j), ← pow_add]
    calc x.value < B ^ (j + n + 1) := hxlt
      _ = B ^ (n + 1 + j) := by ring_nf
  have hsplit := Nat.mod_add_div x.value (B ^ j)
  rw [hwin] at hwrite
  omega

theorem len_writeWindow (x y : BigUint) (j : ℕ) (is : List ℕ) :
    (is.foldl (fun s i => s.set (j + i) (y.get i)) x).len = x.len :=
  len_foldl_set x (fun i => j + i) y.get is

theorem len_divStep (n : ℕ) (otherNorm : BigUint) (st : BigUint × BigUint) (j : ℕ) :
    (divStep n otherNorm st j).1.len = st.1.len ∧ (divStep n otherNorm st j).2.len = st.2.len := by
  unfold divStep
  dsimp only
  split_ifs <;> simp only [len_set, len_writeWindow, and_self]

/-- The divisor of `div`'s loop: `n ≥ 2` limbs with a non-zero top limb. -/
structure NormDivisor (n : ℕ) (otherNorm : BigUint) : Prop where
  two_le : 2 ≤ n
  len : otherNorm.len = n
  top_pos : 0 < (otherNorm.get (n - 1)).toNat

/-- What one pass of `div`'s loop needs for the quotient limb `j`: a remainder
below `V * B ^ (j + 1)`, and a quotient whose limbs from `j` down are still
zero. -/
structure StepPre (n j : ℕ) (otherNorm q r : BigUint) : Prop extends NormDivisor n otherNorm where
  r_len : j + n < r.len
  q_len : j < q.len
  rem : r.value < otherNorm.value * B ^ (j + 1)
  low : q.value % B ^ (j + 1) = 0

section StepPre

variable {n j : ℕ} {otherNorm q r : BigUint}

theorem StepPre.value_pos (h : StepPre n j otherNorm q r) : 0 < otherNorm.value := by
  have htop := h.top_pos
  rw [toNat_get (by have := h.len; have := h.two_le; omega)] at htop
  rcases Nat.eq_zero_or_pos otherNorm.value with h0 | h0
  · simp [h0] at htop
  · exact h0

theorem StepPre.window_lt (h : StepPre n j otherNorm q r) : r.value / B ^ j < B ^ (n + 1) := by
  rw [Nat.div_lt_iff_lt_mul (pow_B_pos j)]
  calc r.value < otherNorm.value * B ^ (j + 1) := h.rem
    _ ≤ B ^ n * B ^ (j + 1) := Nat.mul_le_mul_right _ (h.len ▸ otherNorm.value_lt).le
    _ = B ^ (n + 1) * B ^ j := by rw [← pow_add, ← pow_add]; ring_nf

theorem StepPre.value_lt (h : StepPre n j otherNorm q r) : r.value < B ^ (j + n + 1) := by
  have hw := h.window_lt
  rw [Nat.div_lt_iff_lt_mul (pow_B_pos j), ← pow_add] at hw
  calc r.value < B ^ (n + 1 + j) := hw
    _ = B ^ (j + n + 1) := by ring_nf

theorem StepPre.value_window (h : StepPre n j otherNorm q r) :
    (r.window j n).value = r.value / B ^ j := by
  rw [BigUint.value_window h.r_len]
  exact Nat.mod_eq_of_lt h.window_lt

theorem StepPre.product (h : StepPre n j otherNorm q r) {qh : ℕ} (hqB : qh < B) :
    (otherNorm.mul (ofDouble qh)).value = otherNorm.value * qh ∧
      (otherNorm.mul (ofDouble qh)).len = n + 2 := by
  refine ⟨?_, ?_⟩
  · rw [value_mul, value_ofDouble (lt_of_lt_of_le hqB (by decide))]
  · rw [len_mul, len_ofDouble, h.len]
    omega

theorem StepPre.value_setQuotient (h : StepPre n j otherNorm q r) {qh : ℕ} (hqB : qh < B) :
    (q.set j (UInt32.ofNat qh)).value = q.value + B ^ j * qh := by
  have hzero : q.get j = 0 := by
    apply UInt32.toNat_inj.1
    obtain ⟨c, hc⟩ := Nat.dvd_of_mod_eq_zero h.low
    rw [toNat_get h.q_len, hc, pow_succ, show B ^ j * B * c = B * c * B ^ j by ring,
      Nat.mul_div_cancel _ (pow_B_pos j), Nat.mul_mod_right]
    rfl
  rw [value_set_of_get_eq_zero h.q_len hzero, toNat_ofNat_of_lt hqB]

theorem StepPre.value_lowerQuotient (h : StepPre n j otherNorm q r) {qh : ℕ} (hqB : qh < B)
    (hq1 : 1 ≤ qh) :
    let q1 := q.set j (UInt32.ofNat qh)
    (q1.set j (q1.get j - 1)).value = q.value + B ^ j * (qh - 1) := by
  intro q1
  have hget : q1.get j = UInt32.ofNat qh := get_set_self h.q_len _
  have hsub : (q1.get j - 1).toNat = qh - 1 := by
    rw [hget, UInt32.toNat_sub_of_le _ _ (UInt32.le_iff_toNat_le.2 (by
      rw [toNat_ofNat_of_lt hqB]; exact hq1)), toNat_ofNat_of_lt hqB]
    rfl
  have hgetNat : (q1.get j).toNat = qh := by rw [hget, toNat_ofNat_of_lt hqB]
  have hset := value_set (show j < q1.len by simp [q1, h.q_len]) (q1.get j - 1)
  rw [hsub, hgetNat, h.value_setQuotient hqB] at hset
  have : B ^ j * qh = B ^ j * (qh - 1) + B ^ j := by
    rw [← Nat.mul_succ]
    congr 1
    omega
  omega

theorem writeBack_lt {a X : ℕ} (ha : a < B ^ j) (hX : X < B ^ (n + 1)) :
    a + B ^ j * X < B ^ (j + n + 1) :=
  calc a + B ^ j * X < B ^ j * (X + 1) := by rw [Nat.mul_succ]; omega
    _ ≤ B ^ j * B ^ (n + 1) := Nat.mul_le_mul_left _ hX
    _ = B ^ (j + n + 1) := by rw [← pow_add]; ring_nf

/-- Steps D4 and D5 when `qhat * V` fits under the window: no borrow, and
`qhat` is the quotient limb. -/
theorem StepPre.divStep_of_le (h : StepPre n j otherNorm q r)
    (hle : otherNorm.value * estimate n otherNorm r j ≤ r.value / B ^ j) :
    (divStep n otherNorm (q, r) j).1.value =
        q.value + B ^ j * (r.value / B ^ j / otherNorm.value) ∧
      (divStep n otherNorm (q, r) j).2.value =
        r.value % B ^ j + B ^ j * (r.value / B ^ j % otherNorm.value) := by
  obtain ⟨hqt, -, hqB⟩ := estimate_spec h.two_le h.len h.top_pos h.r_len h.rem
  obtain ⟨hrhs, hrhslen⟩ := h.product hqB
  -- the estimate is the quotient limb
  have hqeq : estimate n otherNorm r j = r.value / B ^ j / otherNorm.value :=
    le_antisymm ((Nat.le_div_iff_mul_le h.value_pos).2 (by rw [Nat.mul_comm]; exact hle)) hqt
  have hle' : (otherNorm.mul (ofDouble (estimate n otherNorm r j))).value ≤
      (r.window j n).value := by
    rw [h.value_window, hrhs]
    exact hle
  obtain ⟨t, hsub, htval, htlen⟩ := sub_of_le hle'
  rw [h.value_window, hrhs] at htval
  rw [len_window, hrhslen] at htlen
  have htmod : t.value % B ^ (n + 1) = r.value / B ^ j % otherNorm.value := by
    rw [Nat.mod_eq_of_lt (lt_of_le_of_lt (htval ▸ Nat.sub_le _ _) h.window_lt), htval, hqeq,
      ← Nat.mod_eq_sub_mul_div]
  unfold divStep
  simp only [hsub, subOutcome, Bool.false_eq_true, if_false]
  refine ⟨by rw [h.value_setQuotient hqB, hqeq], ?_⟩
  rw [value_writeWindow (List.Perm.refl _) h.r_len (by omega) h.value_lt, htmod]

/-- Steps D4 to D6 when `qhat * V` exceeds the window: the subtraction goes
below zero, `qhat` is one above the quotient limb, and adding the divisor back,
its carry dropped, leaves the remainder. -/
theorem StepPre.divStep_of_lt (h : StepPre n j otherNorm q r)
    (hlt : r.value / B ^ j < otherNorm.value * estimate n otherNorm r j) :
    (divStep n otherNorm (q, r) j).1.value =
        q.value + B ^ j * (r.value / B ^ j / otherNorm.value) ∧
      (divStep n otherNorm (q, r) j).2.value =
        r.value % B ^ j + B ^ j * (r.value / B ^ j % otherNorm.value) := by
  obtain ⟨hqt, hqt1, hqB⟩ := estimate_spec h.two_le h.len h.top_pos h.r_len h.rem
  obtain ⟨hrhs, hrhslen⟩ := h.product hqB
  have hVpos := h.value_pos
  have hVlt : otherNorm.value < B ^ n := h.len ▸ otherNorm.value_lt
  have hVlt' : otherNorm.value < B ^ (n + 1) :=
    hVlt.trans_le (Nat.pow_le_pow_right (by decide) (by omega))
  -- the estimate is one above the quotient limb
  have hqeq : estimate n otherNorm r j = r.value / B ^ j / otherNorm.value + 1 := by
    have hne : ¬ estimate n otherNorm r j ≤ r.value / B ^ j / otherNorm.value := by
      intro hle
      have := (Nat.le_div_iff_mul_le hVpos).1 hle
      rw [Nat.mul_comm] at this
      omega
    omega
  have hdm := Nat.div_add_mod (r.value / B ^ j) otherNorm.value
  have hmodV := Nat.mod_lt (r.value / B ^ j) hVpos
  have hlt' : (r.window j n).value < (otherNorm.mul (ofDouble (estimate n otherNorm r j))).value := by
    rw [h.value_window, hrhs]
    exact hlt
  obtain ⟨t, hsub, htval, htlen⟩ := sub_of_lt hlt'
  rw [h.value_window, hrhs, len_window, hrhslen, show max (n + 1) (n + 2) = n + 2 by omega,
    hqeq] at htval
  rw [len_window, hrhslen] at htlen
  obtain ⟨X, hX⟩ : ∃ X, X = r.value / B ^ j % otherNorm.value + B ^ (n + 1) - otherNorm.value :=
    ⟨_, rfl⟩
  have hXlt : X < B ^ (n + 1) := by omega
  have hpow : B ^ (n + 2) = B ^ (n + 1) * (B - 1) + B ^ (n + 1) := by
    rw [pow_succ B (n + 1), Nat.mul_sub_one]
    have : B ^ (n + 1) ≤ B ^ (n + 1) * B := Nat.le_mul_of_pos_right _ (by decide)
    omega
  have hexp : otherNorm.value * (r.value / B ^ j / otherNorm.value + 1) =
      otherNorm.value * (r.value / B ^ j / otherNorm.value) + otherNorm.value := by ring
  have htX : t.value = X + B ^ (n + 1) * (B - 1) := by
    rw [hexp] at htval
    omega
  have htmod : t.value % B ^ (n + 1) = X := by
    rw [htX, Nat.add_mul_mod_self_left, Nat.mod_eq_of_lt hXlt]
  have hq1 : 1 ≤ estimate n otherNorm r j := hqeq ▸ Nat.le_add_left 1 _
  unfold divStep
  simp only [hsub, subOutcome, if_true]
  refine ⟨?_, ?_⟩
  · -- D6 lowers the quotient limb back to the quotient
    rw [h.value_lowerQuotient hqB hq1, hqeq, Nat.add_sub_cancel]
  · -- the window after D4, and the sum of D6
    have hrmod : r.value % B ^ j < B ^ j := Nat.mod_lt _ (pow_B_pos j)
    have htn : n < t.len := by omega
    have hs1 := value_writeWindow (List.Perm.refl _) h.r_len htn h.value_lt
    rw [htmod] at hs1
    generalize hs1def : (List.range (n + 1)).foldl (fun s i => s.set (j + i) (t.get i)) r = s1
      at hs1 ⊢
    have hs1len : j + n < s1.len := by rw [← hs1def, len_writeWindow]; exact h.r_len
    have hs1lt : s1.value < B ^ (j + n + 1) := hs1 ▸ writeBack_lt hrmod hXlt
    have hwin1 : (s1.window j n).value = X := by
      rw [BigUint.value_window hs1len, hs1, Nat.add_mul_div_left _ _ (pow_B_pos j),
        Nat.div_eq_of_lt hrmod, Nat.zero_add, Nat.mod_eq_of_lt hXlt]
    have hr2len : n < (otherNorm.add (s1.window j n)).len := by
      rw [len_add, len_window, h.len]
      omega
    have hsum : (otherNorm.value + X) % B ^ (n + 1) = r.value / B ^ j % otherNorm.value := by
      have : otherNorm.value + X = r.value / B ^ j % otherNorm.value + B ^ (n + 1) := by omega
      rw [this, Nat.add_mod_right, Nat.mod_eq_of_lt (hmodV.trans hVlt')]
    rw [value_writeWindow (List.reverse_perm _) hs1len hr2len hs1lt, value_add, hwin1, hsum, hs1,
      Nat.add_mul_mod_self_left, Nat.mod_eq_of_lt hrmod]

/-- One pass of `div`'s loop: with `W` the remainder from limb `j` up, the
quotient gains `W / V` at limb `j` and the remainder's limbs from `j` up are
replaced by `W % V`. -/
theorem StepPre.divStep_spec (h : StepPre n j otherNorm q r) :
    (divStep n otherNorm (q, r) j).1.value =
        q.value + B ^ j * (r.value / B ^ j / otherNorm.value) ∧
      (divStep n otherNorm (q, r) j).2.value =
        r.value % B ^ j + B ^ j * (r.value / B ^ j % otherNorm.value) := by
  by_cases hle : otherNorm.value * estimate n otherNorm r j ≤ r.value / B ^ j
  · exact h.divStep_of_le hle
  · exact h.divStep_of_lt (Nat.lt_of_not_le hle)

end StepPre

/-- The invariant of `div`'s loop with `k` quotient limbs left, for a dividend
of value `U`: the quotient so far times the divisor, plus the remainder, is
`U`; the remainder is below `V * B ^ k`; the quotient's limbs below `k` are
zero. -/
structure DivInv (otherNorm : BigUint) (n U k : ℕ) (st : BigUint × BigUint) : Prop where
  q_len : k ≤ st.1.len
  r_len : k + n ≤ st.2.len
  low : st.1.value % B ^ k = 0
  rem : st.2.value < otherNorm.value * B ^ k
  sum : st.1.value * otherNorm.value + st.2.value = U

section DivInv

variable {n U j : ℕ} {otherNorm : BigUint}

theorem DivInv.stepPre (hd : NormDivisor n otherNorm) {q r : BigUint}
    (h : DivInv otherNorm n U (j + 1) (q, r)) : StepPre n j otherNorm q r :=
  { hd with
    r_len := by have := h.r_len; simp only at this; omega
    q_len := by have := h.q_len; simp only at this; omega
    rem := h.rem
    low := h.low }

theorem stepRem_lt {V R W : ℕ} (hR : R < B ^ j) (hW : W < V) :
    R + B ^ j * W < V * B ^ j :=
  calc R + B ^ j * W < B ^ j * (W + 1) := by rw [Nat.mul_succ]; omega
    _ ≤ B ^ j * V := Nat.mul_le_mul_left _ hW
    _ = V * B ^ j := Nat.mul_comm _ _

theorem DivInv.step (hd : NormDivisor n otherNorm) {st : BigUint × BigUint}
    (h : DivInv otherNorm n U (j + 1) st) : DivInv otherNorm n U j (divStep n otherNorm st j) := by
  obtain ⟨q, r⟩ := st
  have hpre := h.stepPre hd
  obtain ⟨hq, hr⟩ := hpre.divStep_spec
  obtain ⟨hqlen, hrlen⟩ := len_divStep n otherNorm (q, r) j
  have hVpos := hpre.value_pos
  -- `W`, the remainder from limb `j` up, and its division by `V`
  have hdm := Nat.div_add_mod (r.value / B ^ j) otherNorm.value
  have hrdm := Nat.mod_add_div r.value (B ^ j)
  refine ⟨?_, ?_, ?_, ?_, ?_⟩
  · rw [hqlen]
    exact Nat.le_of_succ_le hpre.q_len
  · rw [hrlen]
    exact Nat.le_of_lt (by have := hpre.r_len; omega)
  · -- the quotient's limbs below `j + 1` were zero, and the new one is at `j`
    rw [hq, Nat.add_mul_mod_self_left, ← Nat.mod_mod_of_dvd _ (pow_dvd_pow B (Nat.le_succ j)), h.low,
      Nat.zero_mod]
  · rw [hr]
    exact stepRem_lt (Nat.mod_lt _ (pow_B_pos j)) (Nat.mod_lt _ hVpos)
  · rw [hq, hr, ← h.sum]
    simp only
    linear_combination (B ^ j) * hdm + hrdm

/-- Over all its passes, `div`'s loop keeps the invariant down to no limb
left: the remainder is then below the divisor. -/
theorem DivInv.divLoop (hd : NormDivisor n otherNorm) {k : ℕ} {st : BigUint × BigUint}
    (h : DivInv otherNorm n U k st) : DivInv otherNorm n U 0 (divLoop n otherNorm k st) := by
  induction k generalizing st with
  | zero => exact h
  | succ k ih => exact ih (h.step hd)

end DivInv

/-! ## Step D1: normalisation -/

theorem len_ofSingle (a : UInt32) : (ofSingle a).len = 1 := rfl

theorem value_ofSingle (a : UInt32) : (ofSingle a).value = a.toNat := by
  simp [ofSingle, value, limbs]

theorem leadingZeros_lt {x : UInt32} (hx : x ≠ 0) : leadingZeros x < 32 := by
  have hpos : 0 < x.toNat := Nat.pos_of_ne_zero fun h => hx (UInt32.toNat_inj.1 h)
  have : 0 < x.toNat.size := Nat.size_pos.2 hpos
  unfold leadingZeros
  omega

theorem succ_mul_two_pow_leadingZeros_le (x : UInt32) : (x.toNat + 1) * 2 ^ leadingZeros x ≤ B := by
  have hsize : x.toNat.size ≤ 32 := Nat.size_le.2 x.toNat_lt
  calc (x.toNat + 1) * 2 ^ leadingZeros x ≤ 2 ^ x.toNat.size * 2 ^ leadingZeros x :=
        Nat.mul_le_mul_right _ (Nat.lt_size_self _)
    _ = B := by rw [← pow_add, leadingZeros, Nat.add_sub_cancel' hsize]; rfl

theorem toNat_normalizer {x : UInt32} (hx : x ≠ 0) :
    (UInt32.ofNat (2 ^ leadingZeros x)).toNat = 2 ^ leadingZeros x :=
  toNat_ofNat_of_lt (Nat.pow_lt_pow_right (by decide) (leadingZeros_lt hx))

section Normalize

variable {self other : BigUint}

/-- The normalised divisor of `div` has the limbs of `other`, a non-zero top
limb, and the value of `other` times `2 ^ normalizer_bits`. -/
theorem normDivisor (h2 : 2 ≤ other.len) (hmsb : other.msb ≠ 0) :
    NormDivisor other.len (other.mul (ofSingle (UInt32.ofNat (2 ^ leadingZeros other.msb)))).lstrip ∧
      (other.mul (ofSingle (UInt32.ofNat (2 ^ leadingZeros other.msb)))).lstrip.value =
        other.value * 2 ^ leadingZeros other.msb := by
  have hval : (other.mul (ofSingle (UInt32.ofNat (2 ^ leadingZeros other.msb)))).lstrip.value =
      other.value * 2 ^ leadingZeros other.msb := by
    rw [value_lstrip, value_mul, value_ofSingle, toNat_normalizer hmsb]
  refine ⟨?_, hval⟩
  -- `B ^ (n - 1) ≤ V < B ^ n`: the top limb of `other` shifted stays a limb
  have hpow : 0 < 2 ^ leadingZeros other.msb := Nat.two_pow_pos _
  have hlo : B ^ (other.len - 1) ≤ other.value * 2 ^ leadingZeros other.msb :=
    (pow_le_value hmsb).trans (Nat.le_mul_of_pos_right _ hpow)
  have hmsbv := toNat_msb (show 0 < other.len by omega)
  have hhi : other.value * 2 ^ leadingZeros other.msb < B ^ other.len := by
    have hdm := Nat.div_add_mod other.value (B ^ (other.len - 1))
    have hmod := Nat.mod_lt other.value (pow_B_pos (other.len - 1))
    have hlt : other.value < (other.msb.toNat + 1) * B ^ (other.len - 1) := by
      rw [hmsbv]
      linarith
    calc other.value * 2 ^ leadingZeros other.msb
        < (other.msb.toNat + 1) * B ^ (other.len - 1) * 2 ^ leadingZeros other.msb :=
          Nat.mul_lt_mul_of_pos_right hlt hpow
      _ = (other.msb.toNat + 1) * 2 ^ leadingZeros other.msb * B ^ (other.len - 1) := by ring
      _ ≤ B * B ^ (other.len - 1) :=
          Nat.mul_le_mul_right _ (succ_mul_two_pow_leadingZeros_le _)
      _ = B ^ other.len := by rw [← pow_succ', Nat.sub_add_cancel (by omega)]
  rw [← hval] at hlo hhi
  have hlen := (stripped_lstrip _).len_eq (by omega) hlo hhi
  refine ⟨h2, hlen, ?_⟩
  rw [toNat_get (by omega), Nat.mod_eq_of_lt]
  · exact (Nat.le_div_iff_mul_le (pow_B_pos _)).2 (by rw [Nat.one_mul]; exact hlo)
  · rw [Nat.div_lt_iff_lt_mul (pow_B_pos _), ← pow_succ', Nat.sub_add_cancel (by omega)]
    exact hhi

/-- The loop of `div` starts from its invariant with all `m + 1` quotient limbs
left: the normalised dividend is below `V * B ^ (m + 1)`. -/
theorem divInv_init (h2 : 2 ≤ other.len) (hmsb : other.msb ≠ 0) (hlt : other.len < self.len) :
    DivInv (other.mul (ofSingle (UInt32.ofNat (2 ^ leadingZeros other.msb)))).lstrip other.len
      (self.value * 2 ^ leadingZeros other.msb) (self.len - other.len + 1)
      (withCapacity (self.len - other.len + 1),
        (self.mul (ofSingle (UInt32.ofNat (2 ^ leadingZeros other.msb)))).lpad
          (other.len + (self.len - other.len) + 1)) := by
  have hU : ((self.mul (ofSingle (UInt32.ofNat (2 ^ leadingZeros other.msb)))).lpad
      (other.len + (self.len - other.len) + 1)).value = self.value * 2 ^ leadingZeros other.msb := by
    rw [value_lpad, value_mul, value_ofSingle, toNat_normalizer hmsb]
  have hV : (other.mul (ofSingle (UInt32.ofNat (2 ^ leadingZeros other.msb)))).lstrip.value =
      other.value * 2 ^ leadingZeros other.msb := by
    rw [value_lstrip, value_mul, value_ofSingle, toNat_normalizer hmsb]
  -- `self < B ^ (n + m) ≤ other * B ^ (m + 1)`, both sides then shifted
  have hrem : self.value < other.value * B ^ (self.len - other.len + 1) :=
    calc self.value < B ^ self.len := self.value_lt
      _ = B ^ (other.len - 1) * B ^ (self.len - other.len + 1) := by rw [← pow_add]; congr 1; omega
      _ ≤ other.value * B ^ (self.len - other.len + 1) := Nat.mul_le_mul_right _ (pow_le_value hmsb)
  refine ⟨?_, ?_, ?_, ?_, ?_⟩
  · simp
  · dsimp only
    rw [len_lpad, len_mul, len_ofSingle]
    omega
  · simp
  · dsimp only
    rw [hU, hV]
    calc self.value * 2 ^ leadingZeros other.msb
        < other.value * B ^ (self.len - other.len + 1) * 2 ^ leadingZeros other.msb :=
          Nat.mul_lt_mul_of_pos_right hrem (Nat.two_pow_pos _)
      _ = other.value * 2 ^ leadingZeros other.msb * B ^ (self.len - other.len + 1) := by ring
  · dsimp only
    rw [hU, value_withCapacity, Nat.zero_mul, Nat.zero_add]

end Normalize

/-! ## Step D8: the remainder shifted back -/

/-- One limb of step D8: the limb `d` shifted right by `0 < s < 32` bits,
under the low `s` bits of the limb `d + 1`. -/
theorem toNat_shiftLimb {s : ℕ} (hs0 : 0 < s) (hs : s < 32) (a b : UInt32) :
    (a >>> UInt32.ofNat s ||| b <<< UInt32.ofNat (32 - s)).toNat =
      a.toNat / 2 ^ s + 2 ^ (32 - s) * (b.toNat % 2 ^ s) := by
  have hB : (2 : ℕ) ^ 32 = 2 ^ (32 - s) * 2 ^ s := by rw [← pow_add]; congr 1; omega
  have hhi : a.toNat / 2 ^ s < 2 ^ (32 - s) := by
    rw [Nat.div_lt_iff_lt_mul (Nat.two_pow_pos s), ← hB]
    exact a.toNat_lt
  rw [UInt32.toNat_or, UInt32.toNat_shiftRight, UInt32.toNat_shiftLeft,
    toNat_ofNat_of_lt (hs.trans (by decide)), toNat_ofNat_of_lt ((Nat.sub_le 32 s).trans_lt (by decide)),
    Nat.mod_eq_of_lt hs, Nat.mod_eq_of_lt (show 32 - s < 32 by omega),
    Nat.shiftRight_eq_div_pow, Nat.shiftLeft_eq, Nat.mul_comm, hB, Nat.mul_mod_mul_left,
    Nat.lor_comm, ← Nat.two_pow_add_eq_or_of_lt hhi, Nat.add_comm]



/-- Step D8 on a remainder below `B ^ n`: each of its low `n` limbs shifted
right by `0 < s < 32` bits, under the low bits of the limb above, is the
remainder divided by `2 ^ s`. -/
theorem value_denormalize {n s : ℕ} {x : BigUint} (hn : 1 ≤ n) (hs0 : 0 < s) (hs : s < 32)
    (hx : n ≤ x.len) (hlt : x.value < B ^ n) :
    (denormalize n s x (withCapacity n)).value = x.value / 2 ^ s := by
  -- each limb of `x / 2 ^ s` from those of `x`
  have hdigit : ∀ d, x.value / 2 ^ s / B ^ d % B =
      x.value / B ^ d % B / 2 ^ s + 2 ^ (32 - s) * (x.value / B ^ (d + 1) % 2 ^ s) :=
    div_two_pow_digit (w := 32) hs.le x.value
  have hdvd : 2 ^ s ∣ B := pow_dvd_pow 2 hs.le
  have hlow : ∀ d, d + 1 < n →
      (x.get d >>> UInt32.ofNat s ||| x.get (d + 1) <<< UInt32.ofNat (32 - s)).toNat =
        x.value / 2 ^ s / B ^ d % B := by
    intro d hd
    rw [toNat_shiftLimb hs0 hs, toNat_get (by omega), toNat_get (by omega), hdigit,
      Nat.mod_mod_of_dvd _ hdvd]
  have htop : (x.get (n - 1) >>> UInt32.ofNat s).toNat = x.value / 2 ^ s / B ^ (n - 1) % B := by
    rw [UInt32.toNat_shiftRight, toNat_ofNat_of_lt (hs.trans (by decide)), Nat.mod_eq_of_lt hs,
      Nat.shiftRight_eq_div_pow, toNat_get (by omega), hdigit, Nat.sub_add_cancel hn,
      Nat.div_eq_of_lt hlt, Nat.zero_mod, Nat.mul_zero, Nat.add_zero]
  have hlen0 : (withCapacity n).len = n := by simp; omega
  unfold denormalize
  dsimp only
  apply value_eq_of_get
  · rw [len_set, len_foldl_set, hlen0]
    exact lt_of_le_of_lt (Nat.div_le_self _ _) hlt
  · intro k hk
    rw [len_set, len_foldl_set, hlen0] at hk
    rcases Nat.lt_or_ge k (n - 1) with hk' | hk'
    · rw [get_set_of_ne (by rw [len_foldl_set, hlen0]; omega) (by rw [len_foldl_set, hlen0]; omega)
        (by omega), get_foldl_set_range _ _ (n - 1) (by omega) k hk']
      exact hlow k (by omega)
    · obtain rfl : k = n - 1 := by omega
      rw [get_set_self (by rw [len_foldl_set, hlen0]; omega)]
      exact htop

/-! ## `div` -/

/-- `div` of stripped numbers, the divisor of at least two limbs and the
dividend longer: the quotient, and when asked for, the remainder. -/
theorem div_spec {self other : BigUint} (h2 : 2 ≤ other.len) (hmsb : other.msb ≠ 0)
    (hself : self.msb ≠ 0) (hlt : other.len < self.len) (rem : Bool) :
    ∃ q r, self.div other rem = some (q, r) ∧ q.value = self.value / other.value ∧
      (rem = true → r.value = self.value % other.value) := by
  obtain ⟨hd, hV⟩ := normDivisor h2 hmsb
  have hinv := (divInv_init h2 hmsb hlt).divLoop hd
  have hs := leadingZeros_lt hmsb
  have hpow := Nat.two_pow_pos (leadingZeros other.msb)
  have hVpos : 0 < other.value := lt_of_lt_of_le (pow_B_pos _) (pow_le_value hmsb)
  unfold div
  rw [if_neg (by simp only [not_or, not_le]; exact ⟨by omega, hmsb, hself, hlt⟩)]
  dsimp only
  generalize divLoop _ _ _ _ = st at hinv ⊢
  obtain ⟨-, hrlen, -, hrem, hsum⟩ := hinv
  rw [hV, pow_zero, Nat.mul_one] at hrem
  rw [hV] at hsum
  -- the loop leaves the quotient and remainder of the shifted numbers
  have hdm : st.2.value + other.value * 2 ^ leadingZeros other.msb * st.1.value =
      self.value * 2 ^ leadingZeros other.msb := by
    rw [← hsum]
    ring
  obtain ⟨hq, hr⟩ := (Nat.div_mod_unique (Nat.mul_pos hVpos hpow)).2 ⟨hdm, hrem⟩
  rw [Nat.mul_div_mul_right _ _ hpow] at hq
  rw [Nat.mul_mod_mul_right] at hr
  refine ⟨_, _, rfl, hq.symm, fun hrem' => ?_⟩
  rw [if_pos hrem']
  split_ifs with hs0
  · rw [value_denormalize (by omega) hs0 hs (by omega), ← hr, Nat.mul_div_cancel _ hpow]
    calc st.2.value < other.value * 2 ^ leadingZeros other.msb := hrem
      _ = (other.mul (ofSingle (UInt32.ofNat (2 ^ leadingZeros other.msb)))).lstrip.value := hV.symm
      _ < B ^ other.len := hd.len ▸ value_lt _
  · rw [← hr, Nat.eq_zero_of_not_pos hs0, pow_zero, Nat.mul_one]

end SocialNetwork.Arithmetic.BigUint
