import SocialNetwork.Frame.SocialSwap.Reserves

/-!
# `pallet_social_swap`: prices and slippage

`input_price_u128` and `output_price_u128` price a swap from the stored
reserves, with a fee of 0.3%: the input price is a floor quotient, the
output price adds one to its quotient. Read over ℕ (`inputPrice`,
`outputPrice`) the rounding is in the pool's favour: the input that the
output price asks for buys at least that output again
(`le_inputPrice_outputPrice`), and a swap at the input price never lowers
the product of the reserves (`reserves_product_le_after_swap`). The `u128`
helpers compute these quotients while nothing wraps (`run_inputPriceU128`,
`run_outputPriceU128`).

What the callers do with the prices is another matter. The two input swaps
take a minimum output and only check that it is positive
(`nativeToTradeInput_eq_of_pos`), so a swap pays whatever the price gives,
below the minimum too (`swap_pays_below_minimum`). `output_price_u128`
divides by `output_reserve - output_amount`, which no caller bounds: asking
for the whole reserve divides by zero (`outputPriceU128_of_whole_reserve`,
`buying_whole_reserve_panics`).
-/

namespace SocialNetwork.SocialSwap

open Dispatch Unsigned

/-- `input_price_u128` over ℕ. -/
def inputPrice (inputAmount inputReserve outputReserve : ℕ) : ℕ :=
  inputAmount * 997 * outputReserve / (inputReserve * 1000 + inputAmount * 997)

/-- `output_price_u128` over ℕ. -/
def outputPrice (outputAmount inputReserve outputReserve : ℕ) : ℕ :=
  inputReserve * outputAmount * 1000 / ((outputReserve - outputAmount) * 997) + 1

/-! ## The prices over ℕ -/

theorem inputPrice_mul_le (a rIn rOut : ℕ) :
    inputPrice a rIn rOut * (rIn * 1000 + a * 997) ≤ a * 997 * rOut :=
  Nat.div_mul_le_self _ _

/-- The output price rounds its quotient up: it pays strictly more than the
output is worth at the reserves' ratio. -/
theorem lt_outputPrice_mul (rIn : ℕ) {out rOut : ℕ} (hout : out < rOut) :
    rIn * out * 1000 < (rOut - out) * 997 * outputPrice out rIn rOut := by
  have hden : 0 < (rOut - out) * 997 := by
    have : 0 < rOut - out := by omega
    positivity
  exact Nat.lt_mul_div_succ _ hden

/-- **Buying back.** The input the output price asks for buys at least the
output again at the input price. -/
theorem le_inputPrice_outputPrice {out rIn rOut : ℕ} (hout : out < rOut) :
    out ≤ inputPrice (outputPrice out rIn rOut) rIn rOut := by
  set p := outputPrice out rIn rOut with hp
  have hround := lt_outputPrice_mul rIn hout
  rw [← hp] at hround
  obtain ⟨d, rfl⟩ : ∃ d, rOut = out + d := ⟨rOut - out, by omega⟩
  rw [Nat.add_sub_cancel_left] at hround
  have hp1 : 1 ≤ p := Nat.le_add_left 1 _
  unfold inputPrice
  rw [Nat.le_div_iff_mul_le (by positivity)]
  calc out * (rIn * 1000 + p * 997)
      = rIn * out * 1000 + p * 997 * out := by ring
    _ ≤ d * 997 * p + p * 997 * out := by omega
    _ = p * 997 * (out + d) := by ring

theorem inputPrice_le_reserve (a rOut : ℕ) {rIn : ℕ} (hin : 0 < rIn) : inputPrice a rIn rOut ≤ rOut := by
  have hmul := inputPrice_mul_le a rIn rOut
  by_contra hlt
  rw [Nat.not_le] at hlt
  have hden : a * 997 < rIn * 1000 + a * 997 := by omega
  have : rOut * (rIn * 1000 + a * 997) < inputPrice a rIn rOut * (rIn * 1000 + a * 997) :=
    Nat.mul_lt_mul_of_pos_right hlt (by omega)
  nlinarith

/-- **The constant product.** A swap of `a` at the input price never lowers
the product of the reserves. -/
theorem reserves_product_le_after_swap (a rIn rOut : ℕ) :
    rIn * rOut ≤ (rIn + a) * (rOut - inputPrice a rIn rOut) := by
  rcases Nat.eq_zero_or_pos rIn with hin | hin
  · simp [hin]
  set y := inputPrice a rIn rOut with hy
  have hmul : y * (rIn * 1000 + a * 997) ≤ a * 997 * rOut := inputPrice_mul_le a rIn rOut
  obtain ⟨z, hz⟩ : ∃ z, rOut = y + z := ⟨rOut - y, by have := inputPrice_le_reserve a rOut hin; omega⟩
  rw [hz, Nat.add_sub_cancel_left]
  have hfee : rIn * y * 1000 ≤ a * z * 997 := by
    rw [hz] at hmul
    nlinarith
  nlinarith

/-! ## The `u128` helpers -/

section Helpers

variable {AccountId E : Type} {s : State AccountId E}

/-- While its products and sum stay below `2^128`, `input_price_u128` is the
quotient over ℕ. -/
theorem run_inputPriceU128 {a rIn rOut : ℕ} (hnum : a * 997 * rOut < 2 ^ balanceBits)
    (hden : rIn * 1000 + a * 997 < 2 ^ balanceBits) (hpos : 0 < rIn * 1000 + a * 997) :
    (inputPriceU128 a rIn rOut : SwapCall AccountId E ℕ).run s = .ok (inputPrice a rIn rOut) s := by
  have hfee : wrappingMul balanceBits a 997 = a * 997 :=
    Nat.mod_eq_of_lt (lt_of_le_of_lt (Nat.le_add_left _ _) hden)
  have hreserve : wrappingMul balanceBits rIn 1000 = rIn * 1000 :=
    Nat.mod_eq_of_lt (lt_of_le_of_lt (Nat.le_add_right _ _) hden)
  have hsum : wrappingAdd balanceBits (rIn * 1000) (a * 997) = rIn * 1000 + a * 997 :=
    wrappingAdd_of_lt hden
  have hprod : wrappingMul balanceBits (a * 997) rOut = a * 997 * rOut := Nat.mod_eq_of_lt hnum
  simp only [inputPriceU128, hfee, hreserve, hsum, hprod, divide, Nat.pos_iff_ne_zero.mp hpos,
    if_false]
  rfl

/-- While its products stay below `2^128`, `output_price_u128` is the
rounded-up quotient over ℕ. -/
theorem run_outputPriceU128 {out rIn rOut : ℕ} (hout : out < rOut) (hrOut : rOut < 2 ^ balanceBits)
    (hnum : rIn * out * 1000 < 2 ^ balanceBits) (hden : (rOut - out) * 997 < 2 ^ balanceBits)
    (hprice : outputPrice out rIn rOut < 2 ^ balanceBits) :
    (outputPriceU128 out rIn rOut : SwapCall AccountId E ℕ).run s = .ok (outputPrice out rIn rOut) s := by
  have hin : rIn * out < 2 ^ balanceBits := by
    have : rIn * out ≤ rIn * out * 1000 := Nat.le_mul_of_pos_right _ (by norm_num)
    omega
  have hmul : wrappingMul balanceBits rIn out = rIn * out := Nat.mod_eq_of_lt hin
  have hnum' : wrappingMul balanceBits (rIn * out) 1000 = rIn * out * 1000 := Nat.mod_eq_of_lt hnum
  have hsub : wrappingSub balanceBits rOut out = rOut - out := wrappingSub_of_le hout.le hrOut
  have hden' : wrappingMul balanceBits (rOut - out) 997 = (rOut - out) * 997 := Nat.mod_eq_of_lt hden
  have hne : (rOut - out) * 997 ≠ 0 := by
    have : 0 < rOut - out := by omega
    positivity
  have hadd : wrappingAdd balanceBits (rIn * out * 1000 / ((rOut - out) * 997)) 1 = outputPrice out rIn rOut :=
    wrappingAdd_of_lt hprice
  simp only [outputPriceU128, hmul, hnum', hsub, hden', divide, hne, if_false]
  exact congrArg (fun p => EStateM.Result.ok p s) hadd

theorem wrappingSub_self (w a : ℕ) : wrappingSub w a a = 0 := by
  unfold wrappingSub
  have hlt : a % 2 ^ w < 2 ^ w := Nat.mod_lt _ (by positivity)
  have hsplit : a + (2 ^ w - a % 2 ^ w) = (a / 2 ^ w + 1) * 2 ^ w := by
    have := Nat.div_add_mod' a (2 ^ w)
    rw [Nat.add_mul, Nat.one_mul]
    omega
  rw [hsplit, Nat.mul_mod_left]

/-- **Buying the whole reserve.** `output_price_u128` of an amount equal to
the output reserve divides by zero. -/
theorem outputPriceU128_of_whole_reserve (out rIn : ℕ) :
    (outputPriceU128 out rIn out : SwapCall AccountId E ℕ).run s = .error .panic s := by
  simp [outputPriceU128, wrappingSub_self, wrappingMul, divide]

end Helpers

/-! ## The callers -/

section Callers

variable {AccountId E : Type} [DecidableEq AccountId] (env : Env AccountId E) (T : Config AccountId)

/-- `native_to_trade_input` checks only that the minimum output is
positive: any two positive minimums run alike. -/
theorem nativeToTradeInput_eq_of_pos (x : Exchange) (nativeIn deadline : ℕ) {m m' : ℕ}
    (hm : 0 < m) (hm' : 0 < m') (buyer recipient : AccountId) :
    nativeToTradeInput env T x nativeIn m deadline buyer recipient =
      nativeToTradeInput env T x nativeIn m' deadline buyer recipient := by
  simp only [nativeToTradeInput, ensure, gt_iff_lt, hm, hm', and_true]

theorem tradeToNativeInput_eq_of_pos (x : Exchange) (tradeIn deadline : ℕ) {m m' : ℕ}
    (hm : 0 < m) (hm' : 0 < m') (buyer recipient : AccountId) :
    tradeToNativeInput env T x tradeIn m deadline buyer recipient =
      tradeToNativeInput env T x tradeIn m' deadline buyer recipient := by
  simp only [tradeToNativeInput, ensure, gt_iff_lt, hm, hm', and_true]

/-- `native_to_trade_token_output` of the whole trade reserve of an existing
exchange, before its deadline, panics: the price divides by zero before any
transfer. -/
theorem nativeToTradeTokenOutput_panics_of_whole_reserve {s : State AccountId E} {exchangeId : ℕ}
    {x : Exchange} (hx : s.exchanges exchangeId = some x) (hpos : 0 < x.tradeTokenAmount)
    {deadline : ℕ} (hdeadline : env.blockNumber s.assets.env ≤ deadline) (buyer recipient : AccountId) :
    (nativeToTradeTokenOutput env T (.signed buyer) exchangeId x.tradeTokenAmount deadline recipient).run s =
      .error .panic s := by
  have hprice : (outputPriceU128 x.tradeTokenAmount x.nativeTokenAmount x.tradeTokenAmount :
      SwapCall AccountId E ℕ).run s = .error .panic s :=
    outputPriceU128_of_whole_reserve _ _
  simp [nativeToTradeTokenOutput, nativeToTradeOutput, ensureDeadline, EStateM.run_bind, hx, hpos,
    hdeadline, hprice, ensure, run_dropResult]

end Callers

/-! ## Runs in the runtime of the tests -/

/-- Account 1 creates asset 2, mints 1000 of it, opens an exchange for it
and adds 100 native and 100 trade tokens. -/
def liquidityTrace : List (Entry ℕ) :=
  [.assets (.forceCreate .root 2 1 3 1), .assets (.mint (.signed 1) 2 1 1000),
   .createExchange (.signed 1) 2 3 1, .addLiquidity (.signed 1) 0 100 0 100 10]

/-- Selling 10 native tokens with a minimum of 1000 trade tokens succeeds
and pays 9, the input price of 10 against reserves of 100 and 100. -/
theorem swap_pays_below_minimum :
    ∃ s s', Reachable mockApply (· = mockGenesis) s ∧
      (mockApply (.nativeToTradeTokenInput (.signed 1) 0 10 1000 10 1)).run s = .ok () s' ∧
      Assets.balance s'.assets 2 1 = Assets.balance s.assets 2 1 + 9 := by
  have h : (execute mockApply liquidityTrace mockGenesis).map (fun s => okAnd
      (fun s s' => Assets.balance s'.assets 2 1 = Assets.balance s.assets 2 1 + 9) s
      ((mockApply (.nativeToTradeTokenInput (.signed 1) 0 10 1000 10 1)).run s)) = some true := by
    decide
  exact Reachable.exists_ok_of_execute rfl h

/-- Buying all 100 trade tokens of the exchange panics. -/
theorem buying_whole_reserve_panics :
    ∃ s, Reachable mockApply (· = mockGenesis) s ∧
      (mockApply (.nativeToTradeTokenOutput (.signed 1) 0 100 10 1)).run s = .error .panic s := by
  have h : (execute mockApply liquidityTrace mockGenesis).map (fun s => decide
      ((s.exchanges 0).map (·.tradeTokenAmount) = some 100 ∧ mockEnv.blockNumber s.assets.env ≤ 10)) =
      some true := by
    decide
  obtain ⟨s, hs, hx, hblock⟩ : ∃ s, Reachable mockApply (· = mockGenesis) s ∧
      (s.exchanges 0).map (·.tradeTokenAmount) = some 100 ∧ mockEnv.blockNumber s.assets.env ≤ 10 :=
    Reachable.exists_of_execute rfl h
  obtain ⟨x, hx, hamount⟩ := Option.map_eq_some_iff.mp hx
  refine ⟨s, hs, ?_⟩
  have hpanic := nativeToTradeTokenOutput_panics_of_whole_reserve mockEnv mockConfig hx
    (by omega) hblock 1 1
  rw [hamount] at hpanic
  exact hpanic

end SocialNetwork.SocialSwap
