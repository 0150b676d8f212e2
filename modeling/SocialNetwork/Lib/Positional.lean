import Mathlib

/-!
# Numbers as lists of digits

A list of digits, least significant first, denotes `Nat.ofDigits b` of it.
Limb-by-limb algorithms read one digit, replace one, or read and write a
window of consecutive digits; here is what each does to the value.

* `getD_eq_ofDigits_div_mod`: the digit at `j` is the value divided by `b ^ j`,
  modulo `b`, and `0` past the end.
* `ofDigits_set`: replacing the digit at `j` by `d` adds `b ^ j` times the
  difference.
* `ofDigits_drop_take`: a window of `k` digits from `j` is the value divided
  by `b ^ j`, modulo `b ^ k`.
* `ofDigits_splice`: replacing that window by other digits moves the value by
  `b ^ j` times the change of the window.
* `ofDigits_eq_of_getD`: a list whose every digit is the digit of `N` there,
  and which is long enough, denotes `N`.

Code that stores the most significant digit first indexes the reversed list
(`reverse_set`), and a loop that writes a window one digit a step, in any
order, builds the spliced list (`foldl_set_range`, `foldl_set_perm`). A loop
`for i in 0..n` is proved by its invariant (`foldl_range_invariant`).
-/

namespace Positional

variable {b : ℕ}

def Digits (b : ℕ) (l : List ℕ) : Prop := ∀ x ∈ l, x < b

theorem Digits.drop {l : List ℕ} (h : Digits b l) (j : ℕ) : Digits b (l.drop j) :=
  fun x hx => h x (List.mem_of_mem_drop hx)

theorem Digits.take {l : List ℕ} (h : Digits b l) (k : ℕ) : Digits b (l.take k) :=
  fun x hx => h x (List.mem_of_mem_take hx)

theorem Digits.set {l : List ℕ} (h : Digits b l) (j : ℕ) {d : ℕ} (hd : d < b) :
    Digits b (l.set j d) := by
  intro x hx
  rcases List.mem_or_eq_of_mem_set hx with hx | rfl
  · exact h x hx
  · exact hd

theorem ofDigits_lt_pow (hb : 1 < b) {l : List ℕ} (h : Digits b l) :
    Nat.ofDigits b l < b ^ l.length :=
  Nat.ofDigits_lt_base_pow_length hb h

/-- Replacing the digit at `j` by `d` moves the value by `b ^ j` times the
difference. -/
theorem ofDigits_set : ∀ (l : List ℕ) (j d : ℕ), j < l.length →
    Nat.ofDigits b (l.set j d) + b ^ j * l.getD j 0 = Nat.ofDigits b l + b ^ j * d
  | [], _, _, h => absurd h (Nat.not_lt_zero _)
  | x :: xs, 0, d, _ => by
      simp only [List.set_cons_zero, Nat.ofDigits_cons, pow_zero, Nat.one_mul, List.getD_cons_zero]
      omega
  | x :: xs, j + 1, d, h => by
      have ih := ofDigits_set xs j d (by simpa using h)
      calc Nat.ofDigits b ((x :: xs).set (j + 1) d) + b ^ (j + 1) * (x :: xs).getD (j + 1) 0
          = x + b * (Nat.ofDigits b (xs.set j d) + b ^ j * xs.getD j 0) := by
            simp only [List.set_cons_succ, Nat.ofDigits_cons, List.getD_cons_succ, pow_succ]
            ring
        _ = x + b * (Nat.ofDigits b xs + b ^ j * d) := by rw [ih]
        _ = Nat.ofDigits b (x :: xs) + b ^ (j + 1) * d := by
            simp only [Nat.ofDigits_cons, pow_succ]
            ring

/-- The digit at `j`: the value divided by `b ^ j`, modulo `b`; `0` past the
end. -/
theorem getD_eq_ofDigits_div_mod (hb : 1 < b) {l : List ℕ} (h : Digits b l) (j : ℕ) :
    l.getD j 0 = Nat.ofDigits b l / b ^ j % b := by
  rw [Nat.ofDigits_div_pow_eq_ofDigits_drop j (by omega) l h]
  rcases hdrop : l.drop j with _ | ⟨d, ds⟩
  · -- past the end
    have hlen : l.length ≤ j := List.drop_eq_nil_iff.1 hdrop
    simp [List.getD_eq_getElem?_getD, List.getElem?_eq_none hlen]
  · have hd : l[j]? = some d := by
      rw [← List.head?_drop, hdrop]
      rfl
    have hdb : d < b := h d (List.mem_of_mem_drop (hdrop ▸ List.mem_cons_self))
    rw [List.getD_eq_getElem?_getD, hd, Option.getD_some, Nat.ofDigits_cons, Nat.add_mul_mod_self_left,
      Nat.mod_eq_of_lt hdb]

theorem ofDigits_drop_take (hb : 1 < b) {l : List ℕ} (h : Digits b l) (j k : ℕ) :
    Nat.ofDigits b ((l.drop j).take k) = Nat.ofDigits b l / b ^ j % b ^ k := by
  rw [Nat.ofDigits_div_pow_eq_ofDigits_drop j (by omega) l h,
    Nat.ofDigits_mod_pow_eq_ofDigits_take k (by omega) _ (h.drop j)]

theorem ofDigits_replicate_zero (n : ℕ) : Nat.ofDigits b (List.replicate n 0) = 0 := by
  induction n with
  | zero => rfl
  | succ n ih => simp [List.replicate_succ, Nat.ofDigits_cons, ih]

theorem ofDigits_splice (hb : 1 < b) {l : List ℕ} (h : Digits b l) (j : ℕ) (m : List ℕ)
    (hjm : j + m.length ≤ l.length) :
    Nat.ofDigits b (l.take j ++ m ++ l.drop (j + m.length)) +
        b ^ j * (Nat.ofDigits b l / b ^ j % b ^ m.length) =
      Nat.ofDigits b l + b ^ j * Nat.ofDigits b m := by
  have hsplit : Nat.ofDigits b l = Nat.ofDigits b (l.take j) +
      b ^ j * (Nat.ofDigits b ((l.drop j).take m.length) +
        b ^ m.length * Nat.ofDigits b (l.drop (j + m.length))) := by
    conv_lhs => rw [← List.take_append_drop j l, ← List.take_append_drop m.length (l.drop j)]
    rw [Nat.ofDigits_append, Nat.ofDigits_append, List.drop_drop, List.length_take,
      List.length_take, List.length_drop, min_eq_left (by omega), min_eq_left (by omega)]
  rw [← ofDigits_drop_take hb h, Nat.ofDigits_append, Nat.ofDigits_append, List.length_append,
    List.length_take, min_eq_left (by omega), hsplit]
  ring

/-- A list whose every digit is the digit of `N` at its place, and which has
room for all of `N`, denotes `N`. -/
theorem ofDigits_eq_of_getD (hb : 1 < b) : ∀ {l : List ℕ} {N : ℕ}, N < b ^ l.length →
    (∀ k < l.length, l.getD k 0 = N / b ^ k % b) → Nat.ofDigits b l = N
  | [], N, hN, _ => by simp at hN; simp [hN]
  | d :: ds, N, hN, hd => by
      have h0 : d = N % b := by simpa using hd 0 (by simp)
      have ih : Nat.ofDigits b ds = N / b := by
        apply ofDigits_eq_of_getD hb
        · rw [Nat.div_lt_iff_lt_mul (by omega)]
          simpa [pow_succ] using hN
        · intro k hk
          have hk' := hd (k + 1) (by simpa using hk)
          rwa [List.getD_cons_succ, pow_succ', ← Nat.div_div_eq_div_mul] at hk'
      rw [Nat.ofDigits_cons, ih, h0, Nat.mod_add_div]

/-! ## Loops over the places -/

/-- The invariant rule of a loop `for i in 0..n`: what holds before the first
step and is kept by each step holds after the last. -/
theorem foldl_range_invariant {σ : Type*} (f : σ → ℕ → σ) (P : ℕ → σ → Prop) (n : ℕ)
    {init : σ} (h0 : P 0 init) (hstep : ∀ i < n, ∀ s, P i s → P (i + 1) (f s i)) :
    P n ((List.range n).foldl f init) := by
  suffices h : ∀ k ≤ n, P k ((List.range k).foldl f init) from h n le_rfl
  intro k hk
  induction k with
  | zero => exact h0
  | succ k ih =>
      rw [List.range_succ, List.foldl_append, List.foldl_cons, List.foldl_nil]
      exact hstep k (by omega) _ (ih (by omega))

/-! ## Lists indexed from the other end, and windows written a digit at a time -/

/-- Reversing turns the place `k` from one end into `length - 1 - k` from the
other. -/
theorem reverse_set {α : Type*} (l : List α) {k : ℕ} (hk : k < l.length) (a : α) :
    (l.set k a).reverse = l.reverse.set (l.length - 1 - k) a := by
  apply List.ext_getElem?
  intro i
  by_cases hi : i < l.length
  · rw [List.getElem?_reverse (by simpa using hi), List.getElem?_set, List.getElem?_set,
      List.getElem?_reverse hi]
    simp only [List.length_set, List.length_reverse]
    by_cases hik : k = l.length - 1 - i
    · rw [if_pos hik, if_pos hk, if_pos (by omega), if_pos (by omega)]
    · rw [if_neg hik, if_neg (by omega)]
  · rw [List.getElem?_eq_none (by simpa using hi), List.getElem?_eq_none (by simpa using hi)]

/-- Writing `g 0`, ..., `g (k - 1)` at the places `j` to `j + k - 1`, one place
a step, splices them in. -/
theorem foldl_set_range {α : Type*} (l : List α) (j : ℕ) (g : ℕ → α) :
    ∀ k, j + k ≤ l.length →
      (List.range k).foldl (fun l i => l.set (j + i) (g i)) l =
        l.take j ++ (List.range k).map g ++ l.drop (j + k)
  | 0, _ => by simp
  | k + 1, h => by
      rw [List.range_succ, List.foldl_append, foldl_set_range l j g k (by omega)]
      have hlen : (l.take j ++ (List.range k).map g).length = j + k := by
        simp only [List.length_append, List.length_take, List.length_map, List.length_range]
        omega
      simp only [List.foldl_cons, List.foldl_nil]
      rw [List.set_append_right _ _ (by omega), hlen, Nat.sub_self,
        List.drop_eq_getElem_cons (by omega), List.set_cons_zero]
      simp [Nat.add_assoc]

theorem foldl_set_perm {α : Type*} (l : List α) (j : ℕ) (g : ℕ → α) {k : ℕ} {is : List ℕ}
    (hperm : is.Perm (List.range k)) (h : j + k ≤ l.length) :
    is.foldl (fun l i => l.set (j + i) (g i)) l =
      l.take j ++ (List.range k).map g ++ l.drop (j + k) := by
  have hcomm : ∀ x ∈ is, ∀ y ∈ is, ∀ (z : List α),
      (z.set (j + x) (g x)).set (j + y) (g y) = (z.set (j + y) (g y)).set (j + x) (g x) := by
    intro x _ y _ z
    by_cases hxy : x = y
    · rw [hxy]
    · exact List.set_comm _ _ (by omega)
  rw [hperm.foldl_eq' hcomm, foldl_set_range l j g k h]

/-! ### Shifting digits in base `2 ^ w` -/

section Shift

variable {w s : ℕ}

/-- Below `2 ^ w`, the top `w - s` bits and `2 ^ (w - s)` times a number below
`2 ^ s` sum to a digit. -/
theorem div_add_mul_mod_lt (hs : s ≤ w) {a : ℕ} (ha : a < 2 ^ w) (z : ℕ) :
    a / 2 ^ s + 2 ^ (w - s) * (z % 2 ^ s) < 2 ^ w := by
  have hw : 2 ^ w = 2 ^ (w - s) * 2 ^ s := by rw [← pow_add, Nat.sub_add_cancel hs]
  have hhi : a / 2 ^ s < 2 ^ (w - s) := by
    rw [Nat.div_lt_iff_lt_mul (Nat.two_pow_pos s), ← hw]
    exact ha
  have hlo : z % 2 ^ s + 1 ≤ 2 ^ s := Nat.mod_lt _ (Nat.two_pow_pos s)
  calc a / 2 ^ s + 2 ^ (w - s) * (z % 2 ^ s)
      < 2 ^ (w - s) * (z % 2 ^ s + 1) := by rw [Nat.mul_succ]; omega
    _ ≤ 2 ^ (w - s) * 2 ^ s := Nat.mul_le_mul_left _ hlo
    _ = 2 ^ w := hw.symm

/-- Shifted right by `s ≤ w` bits, the digit `d` in base `2 ^ w` is the top
`w - s` bits of the digit `d` under the low `s` bits of the digit `d + 1`. -/
theorem div_two_pow_digit (hs : s ≤ w) (x d : ℕ) :
    x / 2 ^ s / (2 ^ w) ^ d % 2 ^ w =
      x / (2 ^ w) ^ d % 2 ^ w / 2 ^ s + 2 ^ (w - s) * (x / (2 ^ w) ^ (d + 1) % 2 ^ s) := by
  have hw : 2 ^ w = 2 ^ s * 2 ^ (w - s) := by rw [← pow_add, Nat.add_sub_cancel' hs]
  -- `y`, the digits from `d` up, is its digit `a` and `2 ^ w` times the rest `z`
  obtain ⟨y, hy⟩ : ∃ y, y = x / (2 ^ w) ^ d := ⟨_, rfl⟩
  have hshift : x / 2 ^ s / (2 ^ w) ^ d = y / 2 ^ s := by
    rw [hy, Nat.div_div_eq_div_mul, Nat.div_div_eq_div_mul, Nat.mul_comm]
  have hnext : x / (2 ^ w) ^ (d + 1) = y / 2 ^ w := by
    rw [hy, pow_succ, Nat.div_div_eq_div_mul]
  rw [hshift, hnext, ← hy]
  have hy' : y = y % 2 ^ w + 2 ^ s * (2 ^ (w - s) * (y / 2 ^ w)) := by
    linear_combination (Nat.mod_add_div y (2 ^ w)).symm + y / 2 ^ w * hw
  have hz : 2 ^ (w - s) * (y / 2 ^ w) =
      2 ^ (w - s) * (y / 2 ^ w % 2 ^ s) + 2 ^ w * (y / 2 ^ w / 2 ^ s) := by
    linear_combination 2 ^ (w - s) * (Nat.mod_add_div (y / 2 ^ w) (2 ^ s)).symm +
      y / 2 ^ w / 2 ^ s * hw.symm
  have hdiv : y / 2 ^ s =
      (y % 2 ^ w / 2 ^ s + 2 ^ (w - s) * (y / 2 ^ w % 2 ^ s)) + 2 ^ w * (y / 2 ^ w / 2 ^ s) := by
    conv_lhs => rw [hy']
    rw [Nat.add_mul_div_left _ _ (Nat.two_pow_pos s), hz, Nat.add_assoc]
  rw [hdiv, Nat.add_mul_mod_self_left,
    Nat.mod_eq_of_lt (div_add_mul_mod_lt hs (Nat.mod_lt _ (Nat.two_pow_pos w)) _)]

end Shift

end Positional
