import SocialNetwork.Lib.PrimInt

/-!
# `I129`: sign and magnitude

`fixed_point.rs` moves each operand of a checked operation to an `I129`, a
`u128` magnitude and a sign (`From<N> for I129`), computes on magnitudes, and
moves the result back with `from_i129`, which fails when the signed result is
not a value of the target type. `to_bound` is the bound a saturating
operation falls back to.

An `I129` denotes `±value` (`toInt`). The conversion in is exact, also on
`N::min_value()`, whose magnitude `N::max_value() + 1` is no `N`
(`toInt_ofVal`); `from_i129` is `checked` of what its argument denotes
(`fromI129_eq`), so the round trip is the identity (`fromI129_ofVal`).
-/

namespace SocialNetwork.Arithmetic

open PrimInt

/-- `I129`: a `u128` magnitude and a sign. -/
structure I129 where
  value : ℕ
  negative : Bool
  deriving DecidableEq, Repr

namespace I129

def toInt (n : I129) : ℤ := if n.negative then -(n.value : ℤ) else n.value

/-- `From<N> for I129`: a negative `n` has magnitude `-n`, or
`N::max_value() + 1` where `n.checked_neg()` fails. -/
def ofVal {N : IntType} (n : Val N) : I129 :=
  if n.val < 0 then
    { value := (n.checkedNeg.map Val.saturatedIntoU128).getD
        (Unsigned.saturatingAdd 128 N.maxVal.saturatedIntoU128 1)
      negative := true }
  else { value := n.saturatedIntoU128, negative := false }

end I129

/-- `from_i129`. -/
def fromI129 (N : IntType) (n : I129) : Option (Val N) :=
  let maxPlusOne := Unsigned.saturatingAdd 128 N.maxVal.saturatedIntoU128 1
  if n.negative = true ∧ N.minVal.val < N.zero.val ∧ n.value = maxPlusOne then some N.minVal
  else
    (N.tryFromU128 n.value).bind fun unsignedInner =>
      if n.negative then unsignedInner.checkedNeg else some unsignedInner

/-- `to_bound`: `R::min_value()` when exactly one of `n` and `m` is negative,
else `R::max_value()`. -/
def toBound {N D : IntType} (R : IntType) (n : Val N) (m : Val D) : Val R :=
  if decide (n.val < N.zero.val) != decide (m.val < D.zero.val) then R.minVal else R.maxVal

variable {N : IntType}

/-- `N::max_value() + 1` as `from_i129` computes it in `u128`: exact for a
signed type. -/
theorem maxPlusOne_of_signed (h : N.signed = true) :
    ((Unsigned.saturatingAdd 128 N.maxVal.saturatedIntoU128 1 : ℕ) : ℤ) = N.maxValue + 1 := by
  have hmin := N.minValue_of_signed h
  have hle := N.le_minValue
  have hpos := N.maxValue_pos
  rw [Val.saturatedIntoU128_eq, IntType.val_maxVal]
  unfold Unsigned.saturatingAdd Unsigned.maxValue
  omega

/-! ## Into `I129` -/

theorem ofVal_value (n : Val N) : (I129.ofVal n).value = n.val.natAbs := by
  unfold I129.ofVal
  by_cases hn : n.val < 0
  · rw [if_pos hn]
    dsimp only
    by_cases hneg : N.Mem (-n.val)
    · rw [Val.checkedNeg, IntType.checked_of_mem hneg, Option.map_some, Option.getD_some,
        Val.saturatedIntoU128_eq]
      dsimp only
      omega
    · -- `-n` is no `N`: `n` is `min_value()` of a signed type
      have hs : N.signed = true := by
        cases hs : N.signed
        · have := n.mem.1
          rw [N.minValue_of_unsigned hs] at this
          omega
        · rfl
      have hmin := N.minValue_of_signed hs
      have hmem := n.mem
      unfold IntType.Mem at hneg hmem
      rw [Val.checkedNeg, IntType.checked_of_not_mem (by unfold IntType.Mem; exact hneg),
        Option.map_none, Option.getD_none]
      have := maxPlusOne_of_signed hs
      omega
  · rw [if_neg hn]
    dsimp only
    rw [Val.saturatedIntoU128_eq]
    omega

theorem ofVal_negative (n : Val N) : (I129.ofVal n).negative = decide (n.val < 0) := by
  unfold I129.ofVal
  by_cases hn : n.val < 0
  · rw [if_pos hn, decide_eq_true hn]
  · rw [if_neg hn, decide_eq_false hn]

theorem toInt_ofVal (n : Val N) : (I129.ofVal n).toInt = n.val := by
  unfold I129.toInt
  rw [ofVal_negative, ofVal_value]
  by_cases hn : n.val < 0
  · rw [decide_eq_true hn, if_pos rfl]
    omega
  · rw [decide_eq_false hn, if_neg Bool.false_ne_true]
    omega

/-! ## Out of `I129` -/

/-- `from_i129` succeeds exactly when what its argument denotes is a value of
`N`, and returns it. -/
theorem fromI129_eq (N : IntType) (n : I129) : fromI129 N n = N.checked n.toInt := by
  unfold fromI129
  dsimp only
  rw [IntType.val_minVal, IntType.val_zero]
  by_cases hmin : n.negative = true ∧ N.minValue < 0 ∧
      n.value = Unsigned.saturatingAdd 128 N.maxVal.saturatedIntoU128 1
  · -- the magnitude `max_value() + 1`: `min_value()`
    obtain ⟨hneg, hlt, hval⟩ := hmin
    have hs : N.signed = true := by
      cases hs : N.signed
      · rw [N.minValue_of_unsigned hs] at hlt
        exact absurd hlt (lt_irrefl 0)
      · rfl
    have htoInt : n.toInt = N.minValue := by
      rw [I129.toInt, if_pos hneg, N.minValue_of_signed hs, hval, maxPlusOne_of_signed hs]
    rw [if_pos ⟨hneg, hlt, hval⟩, htoInt, IntType.checked_of_mem N.mem_minValue]
    rfl
  · rw [if_neg hmin, IntType.tryFromU128]
    by_cases hfit : N.Mem n.value
    · rw [IntType.checked_of_mem hfit, Option.bind_some]
      unfold I129.toInt
      cases n.negative
      · rw [if_neg Bool.false_ne_true, if_neg Bool.false_ne_true, IntType.checked_of_mem hfit]
      · rw [if_pos rfl, if_pos rfl, Val.checkedNeg]
    · -- a magnitude above `max_value()`: only `-(max_value() + 1)` would fit
      rw [IntType.checked_of_not_mem hfit, Option.bind_none, eq_comm, IntType.checked_eq_none_iff]
      have hpos := N.maxValue_pos
      unfold IntType.Mem at hfit ⊢
      unfold I129.toInt
      cases hneg : n.negative
      · rw [if_neg Bool.false_ne_true]
        exact hfit
      · rw [if_pos rfl]
        cases hs : N.signed
        · rw [N.minValue_of_unsigned hs] at hfit ⊢
          omega
        · have hne : (n.value : ℤ) ≠ N.maxValue + 1 := by
            rw [← maxPlusOne_of_signed hs]
            exact fun h => hmin ⟨hneg, by rw [N.minValue_of_signed hs]; omega, by exact_mod_cast h⟩
          rw [N.minValue_of_signed hs] at hfit ⊢
          omega

theorem fromI129_ofVal (n : Val N) : fromI129 N (I129.ofVal n) = some n := by
  rw [fromI129_eq, toInt_ofVal, IntType.checked_of_mem n.mem]

theorem checked_toInt_of_le {n : I129} (h : 2 ^ 128 ≤ n.value) : N.checked n.toInt = none := by
  rw [IntType.checked_eq_none_iff]
  have := N.maxValue_lt
  have := N.le_minValue
  unfold IntType.Mem I129.toInt
  split_ifs <;> omega

end SocialNetwork.Arithmetic
