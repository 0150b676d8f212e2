import Mathlib

/-!
# The quotient digit of schoolbook long division

Knuth's Algorithm D (TAOCP vol. 2, 4.3.1) finds each digit of a quotient
from the top digits alone. With `P` the weight of the digits below those
looked at, a divisor `V` has top digits `vt`, `vn` and a window `W` of the
dividend has top part `T` (its first two digits) and next digit `u2`
(`TopDigits`). With `q = W / V`:

* `le_estimate`: the estimate `T / vt` is never below `q`;
* `div_lt_of_test`: an estimate `qh`, with `qh * vt + rh = T`, that the
  next digits show too large (`b * rh + u2 < qh * vn`) is above `q`;
* `le_div_succ`: an estimate that passes that test is at most `q + 1`;
* `top_lt` and `lt_base_of_le_rem`: when `W < V * b`, an estimate whose
  remainder `rh` has reached `b` is below `b`.
-/

namespace LongDivision

/-- `x / P = hi * b + lo` with `lo` a digit: the digits of `x` above `P` are
`hi` followed by `lo`. -/
structure TopDigits (b P x hi lo : ℕ) : Prop where
  lo_lt : lo < b
  ge : (hi * b + lo) * P ≤ x
  lt : x < (hi * b + lo + 1) * P

theorem TopDigits.of_div {b P x hi lo : ℕ} (hP : 0 < P) (h : x / P = hi * b + lo)
    (hlo : lo < b) : TopDigits b P x hi lo := by
  refine ⟨hlo, ?_, ?_⟩
  · rw [← h]
    exact Nat.div_mul_le_self x P
  · have hdm : P * (x / P) + x % P = x := Nat.div_add_mod x P
    have hmod : x % P < P := Nat.mod_lt x hP
    rw [h] at hdm
    linarith

variable {b P V W vt vn T u2 qh rh : ℕ}

theorem TopDigits.pos (hV : TopDigits b P V vt vn) (hvt : 0 < vt) : 0 < V := by
  have hP : 0 < P := by
    rcases Nat.eq_zero_or_pos P with h0 | h0
    · have := hV.lt
      rw [h0, Nat.mul_zero] at this
      omega
    · exact h0
  have hb : 0 < b := by have := hV.lo_lt; omega
  exact lt_of_lt_of_le (Nat.mul_pos (by nlinarith) hP) hV.ge

theorem le_estimate (hV : TopDigits b P V vt vn) (hW : TopDigits b P W T u2) (hvt : 0 < vt) :
    W / V ≤ T / vt := by
  have hWlt : W < (T + 1) * (b * P) :=
    calc W < (T * b + u2 + 1) * P := hW.lt
      _ ≤ (T * b + b) * P := Nat.mul_le_mul_right _ (by have := hW.lo_lt; omega)
      _ = (T + 1) * (b * P) := by ring
  have hVge : vt * (b * P) ≤ V :=
    calc vt * (b * P) ≤ (vt * b + vn) * P := by nlinarith
      _ ≤ V := hV.ge
  have hq : W / V * vt * (b * P) < (T + 1) * (b * P) :=
    calc W / V * vt * (b * P) = W / V * (vt * (b * P)) := by ring
      _ ≤ W / V * V := Nat.mul_le_mul_left _ hVge
      _ ≤ W := Nat.div_mul_le_self W V
      _ < (T + 1) * (b * P) := hWlt
  have hqvt : W / V * vt < T + 1 := Nat.lt_of_mul_lt_mul_right hq
  rw [Nat.le_div_iff_mul_le hvt]
  omega

theorem div_lt_of_test (hV : TopDigits b P V vt vn) (hW : TopDigits b P W T u2) (hvt : 0 < vt)
    (hqr : qh * vt + rh = T) (htest : b * rh + u2 < qh * vn) : W / V < qh := by
  have hkey : T * b + u2 + 1 ≤ qh * (vt * b + vn) :=
    calc T * b + u2 + 1 = qh * vt * b + (b * rh + u2 + 1) := by rw [← hqr]; ring
      _ ≤ qh * vt * b + qh * vn := by omega
      _ = qh * (vt * b + vn) := by ring
  rw [Nat.div_lt_iff_lt_mul (hV.pos hvt)]
  calc W < (T * b + u2 + 1) * P := hW.lt
    _ ≤ qh * (vt * b + vn) * P := Nat.mul_le_mul_right _ hkey
    _ = qh * ((vt * b + vn) * P) := by ring
    _ ≤ qh * V := Nat.mul_le_mul_left _ hV.ge

/-- An estimate that passes the test, and is at most one more than the top
digits of the divisor, is at most one above the quotient. -/
theorem le_div_succ (hV : TopDigits b P V vt vn) (hW : TopDigits b P W T u2) (hvt : 0 < vt)
    (hqr : qh * vt + rh = T) (hpass : qh * vn ≤ b * rh + u2) (hqb : qh ≤ vt * b + vn + 1) :
    qh ≤ W / V + 1 := by
  rcases Nat.eq_zero_or_pos qh with h0 | hpos
  · rw [h0]
    exact Nat.zero_le _
  obtain ⟨q', rfl⟩ : ∃ q', qh = q' + 1 := ⟨qh - 1, by omega⟩
  have htop : (q' + 1) * (vt * b + vn) ≤ T * b + u2 :=
    calc (q' + 1) * (vt * b + vn) = (q' + 1) * vt * b + (q' + 1) * vn := by ring
      _ ≤ (q' + 1) * vt * b + (b * rh + u2) := by omega
      _ = T * b + u2 := by rw [← hqr]; ring
  have hmul : q' * V ≤ W :=
    calc q' * V ≤ q' * ((vt * b + vn + 1) * P) := Nat.mul_le_mul_left _ hV.lt.le
      _ = (q' * (vt * b + vn) + q') * P := by ring
      _ ≤ (q' * (vt * b + vn) + (vt * b + vn)) * P := Nat.mul_le_mul_right _ (by omega)
      _ = (q' + 1) * (vt * b + vn) * P := by ring
      _ ≤ (T * b + u2) * P := Nat.mul_le_mul_right _ htop
      _ ≤ W := hW.ge
  have : q' ≤ W / V := (Nat.le_div_iff_mul_le (hV.pos hvt)).2 hmul
  omega

theorem top_lt (hV : TopDigits b P V vt vn) (hW : TopDigits b P W T u2) (hWV : W < V * b) :
    T < (vt + 1) * b := by
  have hb : 0 < b := by have := hV.lo_lt; omega
  have hVlt : V < (vt + 1) * b * P :=
    calc V < (vt * b + vn + 1) * P := hV.lt
      _ ≤ (vt * b + b) * P := Nat.mul_le_mul_right _ (by have := hV.lo_lt; omega)
      _ = (vt + 1) * b * P := by ring
  have hlt : T * (b * P) < (vt + 1) * b * (b * P) :=
    calc T * (b * P) ≤ (T * b + u2) * P := by nlinarith
      _ ≤ W := hW.ge
      _ < V * b := hWV
      _ ≤ (vt + 1) * b * P * b := Nat.mul_le_mul_right _ hVlt.le
      _ = (vt + 1) * b * (b * P) := by ring
  exact Nat.lt_of_mul_lt_mul_right hlt

theorem lt_base_of_le_rem (hT : T < (vt + 1) * b) (hqr : qh * vt + rh = T)
    (hrh : b ≤ rh) : qh < b := by
  have : qh * vt < b * vt :=
    calc qh * vt = T - rh := by omega
      _ < (vt + 1) * b - b := by omega
      _ = b * vt := by rw [Nat.add_mul, Nat.one_mul, Nat.add_sub_cancel, Nat.mul_comm]
  exact Nat.lt_of_mul_lt_mul_right this

theorem pass_of_le_rem (hvn : vn < b) (hqb : qh < b) (hrh : b ≤ rh) :
    qh * vn ≤ b * rh + u2 :=
  calc qh * vn ≤ b * b := Nat.mul_le_mul hqb.le hvn.le
    _ ≤ b * rh := Nat.mul_le_mul_left _ hrh
    _ ≤ b * rh + u2 := Nat.le_add_right _ _

end LongDivision
