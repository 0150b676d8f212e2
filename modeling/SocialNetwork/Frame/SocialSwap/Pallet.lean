import SocialNetwork.Frame.Assets.Pallet

/-!
# `pallet_social_swap`

The exchange of `src/frame/social-swap/src/lib.rs`: one pot account (the
account of `T::ModuleId`) holds the reserves of every exchange, native
tokens in `pallet_balances` and trade tokens in `pallet_assets`, and the
liquidity providers of an exchange hold its LP asset.

Storage is `State`: `Exchanges`, `TradeTokenToExchange`,
`LPTokenToExchange` and `NextExchangeId`, beside `assets`, the state of
`pallet_assets`, which holds the rest of the runtime in its turn. The
pallet is a `decl_module!`: its calls are not transactional, and an `Err`
keeps whatever was written before it.

The helpers of the source mutate a local `Exchange` through `&mut`; here
they return the copy. `add_liquidity` writes it back; `remove_liquidity`
and the four swaps drop it, as the source does. The swaps also drop the
`DispatchResult` of the helper they call (`let _ =`, in the source a bare
statement).

Arithmetic is that of the node runtime, whose `CurrencyOf` and `BalanceOf`
are both `u128`, in a release build: unchecked `+`, `-` and `*` wrap, `/`
panics on zero, and the `unique_saturated_into` and `saturated_from`
conversions between the two `u128` types are the identity. `T::Handler` is
a parameter (the identity in the runtime).
-/

namespace SocialNetwork.SocialSwap

open Dispatch Unsigned

/-- `Exchange`. -/
structure Exchange where
  lpToken : ℕ
  tradeToken : ℕ
  tradeTokenAmount : ℕ
  nativeTokenAmount : ℕ
  deriving DecidableEq, Repr

/-- `Exchange::new`. -/
def Exchange.new (lpToken tradeToken : ℕ) : Exchange :=
  { lpToken, tradeToken, tradeTokenAmount := 0, nativeTokenAmount := 0 }

/-- What `pallet_social_swap::Config` fixes. -/
structure Config (AccountId : Type) where
  /-- `Self::account_id()`, the pot of every exchange. -/
  accountId : AccountId
  /-- `T::Handler::convert`. -/
  handler : ℕ → ℕ

/-- The storage of `pallet_social_swap`, beside that of `pallet_assets`. -/
structure State (AccountId E : Type) where
  exchanges : ℕ → Option Exchange
  tradeTokenToExchange : ℕ → Option ℕ
  lpTokenToExchange : ℕ → ℕ
  nextExchangeId : ℕ
  assets : Assets.State AccountId E

def State.init (assets : Assets.State AccountId E) : State AccountId E where
  exchanges _ := none
  tradeTokenToExchange _ := none
  lpTokenToExchange _ := 0
  nextExchangeId := 0
  assets := assets

abbrev SwapCall (AccountId E : Type) := Call DispatchError (State AccountId E)

variable {AccountId E α : Type} [DecidableEq AccountId]

def onAssets (m : Assets.AssetsCall AccountId E α) : SwapCall AccountId E α :=
  zoom State.assets (fun s a => { s with assets := a }) m

def setExchange (id : ℕ) (exchange : Exchange) : SwapCall AccountId E Unit :=
  modify fun s => { s with exchanges := Function.update s.exchanges id (some exchange) }

section Helpers

variable (env : Env AccountId E) (T : Config AccountId)

def currencyTransfer (source dest : AccountId) (value : ℕ) : SwapCall AccountId E Unit :=
  onAssets (Assets.onEnv (Env.currency fun e => env.transfer e source dest value .keepAlive))

/-- `input_liquidity`: native and trade tokens from `who` into the pot. -/
def inputLiquidity (who : AccountId) (nativeTokenAmount tradeTokenId tradeTokenAmount : ℕ)
    (exchange : Exchange) : SwapCall AccountId E Exchange := do
  currencyTransfer env who T.accountId nativeTokenAmount
  let exchange := { exchange with
    nativeTokenAmount := wrappingAdd balanceBits exchange.nativeTokenAmount nativeTokenAmount }
  onAssets (Assets.Fungible.transfer env tradeTokenId who T.accountId tradeTokenAmount)
  pure { exchange with
    tradeTokenAmount := wrappingAdd balanceBits exchange.tradeTokenAmount tradeTokenAmount }

/-- `withdraw_liquidity`: native and trade tokens from the pot to `who`. -/
def withdrawLiquidity (who : AccountId) (nativeTokenAmount tradeTokenId tradeTokenAmount : ℕ)
    (exchange : Exchange) : SwapCall AccountId E Exchange := do
  currencyTransfer env T.accountId who nativeTokenAmount
  let exchange := { exchange with
    nativeTokenAmount := wrappingSub balanceBits exchange.nativeTokenAmount nativeTokenAmount }
  onAssets (Assets.Fungible.transfer env tradeTokenId T.accountId who tradeTokenAmount)
  pure { exchange with
    tradeTokenAmount := wrappingSub balanceBits exchange.tradeTokenAmount tradeTokenAmount }

/-- `native_to_trade_swap`: native tokens from the buyer, trade tokens to
the recipient. -/
def nativeToTradeSwap (exchange : Exchange) (nativeIn tradeTokenId tradeOut : ℕ)
    (buyer recipient : AccountId) : SwapCall AccountId E Exchange := do
  currencyTransfer env buyer T.accountId nativeIn
  let exchange := { exchange with
    nativeTokenAmount := wrappingAdd balanceBits exchange.nativeTokenAmount nativeIn }
  onAssets (Assets.Fungible.transfer env tradeTokenId T.accountId recipient tradeOut)
  pure { exchange with tradeTokenAmount := wrappingSub balanceBits exchange.tradeTokenAmount tradeOut }

/-- `trade_to_native_swap`: native tokens to the buyer, trade tokens from
the recipient. -/
def tradeToNativeSwap (exchange : Exchange) (tradeIn tradeTokenId nativeOut : ℕ)
    (buyer recipient : AccountId) : SwapCall AccountId E Exchange := do
  currencyTransfer env T.accountId buyer nativeOut
  let exchange := { exchange with
    nativeTokenAmount := wrappingSub balanceBits exchange.nativeTokenAmount nativeOut }
  onAssets (Assets.Fungible.transfer env tradeTokenId recipient T.accountId tradeIn)
  pure { exchange with tradeTokenAmount := wrappingAdd balanceBits exchange.tradeTokenAmount tradeIn }

/-- `input_price_u128`. -/
def inputPriceU128 (inputAmount inputReserve outputReserve : ℕ) : SwapCall AccountId E ℕ :=
  let inputAmountWithFee := wrappingMul balanceBits inputAmount 997
  let numerator := wrappingMul balanceBits inputAmountWithFee outputReserve
  let demonator := wrappingAdd balanceBits (wrappingMul balanceBits inputReserve 1000) inputAmountWithFee
  divide numerator demonator

/-- `output_price_u128`. -/
def outputPriceU128 (outputAmount inputReserve outputReserve : ℕ) : SwapCall AccountId E ℕ := do
  let numerator := wrappingMul balanceBits (wrappingMul balanceBits inputReserve outputAmount) 1000
  let denominator := wrappingMul balanceBits (wrappingSub balanceBits outputReserve outputAmount) 997
  let price ← divide numerator denominator
  pure (wrappingAdd balanceBits price 1)

def ensureDeadline (deadline : ℕ) : SwapCall AccountId E Unit := do
  let s ← get
  ensure (deadline ≥ env.blockNumber s.assets.env) (.socialSwap .tooLate)

/-- `native_to_trade_input`. -/
def nativeToTradeInput (exchange : Exchange) (nativeIn minTradeTokens deadline : ℕ)
    (buyer recipient : AccountId) : SwapCall AccountId E Exchange := do
  ensureDeadline env deadline
  ensure (nativeIn > 0 ∧ minTradeTokens > 0) (.socialSwap .tooLow)
  let tradeTokenBought ←
    inputPriceU128 nativeIn exchange.nativeTokenAmount exchange.tradeTokenAmount
  nativeToTradeSwap env T exchange nativeIn exchange.tradeToken tradeTokenBought buyer recipient

/-- `trade_to_native_input`. -/
def tradeToNativeInput (exchange : Exchange) (tradeIn minNativeTokens deadline : ℕ)
    (buyer recipient : AccountId) : SwapCall AccountId E Exchange := do
  ensureDeadline env deadline
  ensure (tradeIn > 0 ∧ minNativeTokens > 0) (.socialSwap .tooLow)
  let nativeTokenBought ←
    inputPriceU128 tradeIn exchange.tradeTokenAmount exchange.nativeTokenAmount
  tradeToNativeSwap env T exchange tradeIn exchange.tradeToken nativeTokenBought buyer recipient

/-- `native_to_trade_output`. -/
def nativeToTradeOutput (exchange : Exchange) (tradeTokenBought deadline : ℕ)
    (buyer recipient : AccountId) : SwapCall AccountId E Exchange := do
  ensureDeadline env deadline
  ensure (tradeTokenBought > 0) (.socialSwap .tooLow)
  let nativeSold ←
    outputPriceU128 tradeTokenBought exchange.nativeTokenAmount exchange.tradeTokenAmount
  nativeToTradeSwap env T exchange nativeSold exchange.tradeToken tradeTokenBought buyer recipient

/-- `trade_to_native_output`. -/
def tradeToNativeOutput (exchange : Exchange) (nativeTokenBought deadline : ℕ)
    (buyer recipient : AccountId) : SwapCall AccountId E Exchange := do
  ensureDeadline env deadline
  ensure (nativeTokenBought > 0) (.socialSwap .tooLow)
  let tradeTokensSold ←
    outputPriceU128 nativeTokenBought exchange.tradeTokenAmount exchange.nativeTokenAmount
  tradeToNativeSwap env T exchange tradeTokensSold exchange.tradeToken nativeTokenBought buyer
    recipient

end Helpers

/-! ## Dispatchables -/

section Calls

variable (env : Env AccountId E) (TA : Assets.Config AccountId) (T : Config AccountId)

/-- `create_exchange`. It takes no signed origin, and reads `NextExchangeId`
without advancing it. -/
def createExchange (_origin : Origin AccountId) (tokenId maxZombies minBalance : ℕ) :
    SwapCall AccountId E Unit := do
  let s ← get
  ensure (Assets.IssueAndBurn.exists s.assets tokenId) (.socialSwap .tradeTokenNotExists)
  ensure (s.tradeTokenToExchange tokenId = none) (.socialSwap .exchangeExists)
  let exchangeId := s.nextExchangeId
  -- `create_lp_token`: a new asset owned by the pot
  let lpAssetId ←
    onAssets (Assets.IssueAndBurn.createNewAsset env TA T.accountId maxZombies minBalance)
  setExchange exchangeId (Exchange.new lpAssetId tokenId)
  modify fun s => { s with
    tradeTokenToExchange := Function.update s.tradeTokenToExchange tokenId (some exchangeId)
    lpTokenToExchange := Function.update s.lpTokenToExchange lpAssetId exchangeId }

/-- `add_liquidity`. The exchange is unwrapped before the check that it
exists; the LP tokens of a later provider are issued after the reserves are
written, and the result of that issue is dropped. -/
def addLiquidity (origin : Origin AccountId)
    (exchangeId nativeTokenTransferred minLiquidity maxTradeTokens deadline : ℕ) :
    SwapCall AccountId E Unit := do
  let who ← ensureSigned origin
  let s ← get
  let exchange ← unwrap (s.exchanges exchangeId)
  let lpTokenId := exchange.lpToken
  let tradeTokenId := exchange.tradeToken
  ensure (deadline > env.blockNumber s.assets.env) (.socialSwap .tooLate)
  ensure ((s.exchanges exchangeId).isSome ∧ Assets.totalSupply s.assets tradeTokenId ≠ 0)
    (.socialSwap .tradeTokenNotExists)
  let lpTotalSupply := Assets.totalSupply s.assets lpTokenId
  if lpTotalSupply > 0 then
    let nativeTokenBalance := exchange.nativeTokenAmount
    let tradeTokenBalance := exchange.tradeTokenAmount
    let product ← okOr (checkedMul balanceBits (T.handler nativeTokenTransferred) tradeTokenBalance)
      (.socialSwap .overFlow)
    let share ← divide product (T.handler nativeTokenBalance)
    let tradeTokenAmount ← okOr (checkedAdd balanceBits share 1) (.socialSwap .overFlow)
    let product ← okOr (checkedMul balanceBits (T.handler nativeTokenTransferred) lpTotalSupply)
      (.socialSwap .overFlow)
    let liquidityMinted ← divide product (T.handler nativeTokenBalance)
    ensure (maxTradeTokens ≥ tradeTokenAmount ∧ liquidityMinted ≥ minLiquidity)
      (.socialSwap .notQualifiedMint)
    let exchange ← inputLiquidity env T who nativeTokenTransferred tradeTokenId tradeTokenAmount exchange
    setExchange exchangeId exchange
    dropResult (onAssets (Assets.IssueAndBurn.issue env lpTokenId who liquidityMinted))
  else
    let initialLiquidity := T.handler nativeTokenTransferred
    onAssets (Assets.IssueAndBurn.issue env lpTokenId who initialLiquidity)
    let exchange ← inputLiquidity env T who nativeTokenTransferred tradeTokenId maxTradeTokens exchange
    setExchange exchangeId exchange

/-- `remove_liquidity`. The payouts are shares of the stored reserves, and
the reserves `withdraw_liquidity` lowers are never written back. -/
def removeLiquidity (origin : Origin AccountId)
    (exchangeId liquidityBurned minNativeTokens minTradeTokens deadline : ℕ) :
    SwapCall AccountId E Unit := do
  let who ← ensureSigned origin
  let s ← get
  let exchange ← unwrap (s.exchanges exchangeId)
  let lpTokenId := exchange.lpToken
  let tradeTokenId := exchange.tradeToken
  ensure (deadline > env.blockNumber s.assets.env) (.socialSwap .tooLate)
  ensure ((s.exchanges exchangeId).isSome ∧ Assets.totalSupply s.assets tradeTokenId ≠ 0)
    (.socialSwap .tradeTokenNotExists)
  ensure (liquidityBurned > 0 ∧ minNativeTokens > 0 ∧ minTradeTokens > 0)
    (.socialSwap .notQualifiedBurn)
  let totalLiquidity := Assets.totalSupply s.assets lpTokenId
  ensure (totalLiquidity > 0) (.socialSwap .notEnoughLiquidity)
  let exchange ← unwrap (s.exchanges exchangeId)
  let tradeTokenBalance := exchange.tradeTokenAmount
  let nativeTokenBalance := exchange.nativeTokenAmount
  let product ← okOr (checkedMul balanceBits liquidityBurned (T.handler nativeTokenBalance))
    (.socialSwap .overFlow)
  let nativeTokenShouldTransfer ← divide product totalLiquidity
  let product ← okOr (checkedMul balanceBits liquidityBurned tradeTokenBalance) (.socialSwap .overFlow)
  let tradeTokenShouldTransfer ← divide product totalLiquidity
  ensure (nativeTokenShouldTransfer > minNativeTokens ∧ tradeTokenShouldTransfer > minTradeTokens)
    (.socialSwap .tooLow)
  onAssets (Assets.IssueAndBurn.burn env lpTokenId who liquidityBurned)
  let _ ← withdrawLiquidity env T who nativeTokenShouldTransfer tradeTokenId tradeTokenShouldTransfer
    exchange

/-- `native_to_trade_token_input`. -/
def nativeToTradeTokenInput (origin : Origin AccountId) (exchangeId nativeSold minTradeTokens deadline : ℕ)
    (recipient : AccountId) : SwapCall AccountId E Unit := do
  let buyer ← ensureSigned origin
  let s ← get
  let exchange ← okOr (s.exchanges exchangeId) (.socialSwap .exchangeNotExists)
  dropResult (nativeToTradeInput env T exchange nativeSold minTradeTokens deadline buyer recipient)

/-- `trade_to_native_token_input`. -/
def tradeToNativeTokenInput (origin : Origin AccountId)
    (exchangeId tradeTokenSold minNativeTokens deadline : ℕ) (recipient : AccountId) :
    SwapCall AccountId E Unit := do
  let buyer ← ensureSigned origin
  let s ← get
  let exchange ← okOr (s.exchanges exchangeId) (.socialSwap .exchangeNotExists)
  dropResult (tradeToNativeInput env T exchange tradeTokenSold minNativeTokens deadline buyer recipient)

/-- `native_to_trade_token_output`. -/
def nativeToTradeTokenOutput (origin : Origin AccountId) (exchangeId tradeTokenBought deadline : ℕ)
    (recipient : AccountId) : SwapCall AccountId E Unit := do
  let buyer ← ensureSigned origin
  let s ← get
  let exchange ← okOr (s.exchanges exchangeId) (.socialSwap .exchangeNotExists)
  dropResult (nativeToTradeOutput env T exchange tradeTokenBought deadline buyer recipient)

/-- `trade_to_native_token_output`. -/
def tradeToNativeTokenOutput (origin : Origin AccountId) (exchangeId nativeTokenBought deadline : ℕ)
    (recipient : AccountId) : SwapCall AccountId E Unit := do
  let buyer ← ensureSigned origin
  let s ← get
  let exchange ← okOr (s.exchanges exchangeId) (.socialSwap .exchangeNotExists)
  dropResult (tradeToNativeOutput env T exchange nativeTokenBought deadline buyer recipient)

end Calls

/-! ## Entry points -/

/-- The calls that change the exchanges' state: the pallet's dispatchables,
and the calls of `pallet_assets` that share its ledger. -/
inductive Entry (AccountId : Type) where
  | createExchange (origin : Origin AccountId) (tokenId maxZombies minBalance : ℕ)
  | addLiquidity (origin : Origin AccountId)
      (exchangeId nativeTokenTransferred minLiquidity maxTradeTokens deadline : ℕ)
  | removeLiquidity (origin : Origin AccountId)
      (exchangeId liquidityBurned minNativeTokens minTradeTokens deadline : ℕ)
  | nativeToTradeTokenInput (origin : Origin AccountId)
      (exchangeId nativeSold minTradeTokens deadline : ℕ) (recipient : AccountId)
  | tradeToNativeTokenInput (origin : Origin AccountId)
      (exchangeId tradeTokenSold minNativeTokens deadline : ℕ) (recipient : AccountId)
  | nativeToTradeTokenOutput (origin : Origin AccountId) (exchangeId tradeTokenBought deadline : ℕ)
      (recipient : AccountId)
  | tradeToNativeTokenOutput (origin : Origin AccountId) (exchangeId nativeTokenBought deadline : ℕ)
      (recipient : AccountId)
  | assets (c : Assets.Entry AccountId)

/-- Run an entry point. -/
def Entry.apply (env : Env AccountId E) (TA : Assets.Config AccountId) (T : Config AccountId) :
    Entry AccountId → SwapCall AccountId E Unit
  | .createExchange o tokenId z b => SocialSwap.createExchange env TA T o tokenId z b
  | .addLiquidity o id native minLiquidity maxTrade deadline =>
      SocialSwap.addLiquidity env T o id native minLiquidity maxTrade deadline
  | .removeLiquidity o id burned minNative minTrade deadline =>
      SocialSwap.removeLiquidity env T o id burned minNative minTrade deadline
  | .nativeToTradeTokenInput o id sold minTrade deadline recipient =>
      SocialSwap.nativeToTradeTokenInput env T o id sold minTrade deadline recipient
  | .tradeToNativeTokenInput o id sold minNative deadline recipient =>
      SocialSwap.tradeToNativeTokenInput env T o id sold minNative deadline recipient
  | .nativeToTradeTokenOutput o id bought deadline recipient =>
      SocialSwap.nativeToTradeTokenOutput env T o id bought deadline recipient
  | .tradeToNativeTokenOutput o id bought deadline recipient =>
      SocialSwap.tradeToNativeTokenOutput env T o id bought deadline recipient
  | .assets c => onAssets (c.apply env TA)

end SocialNetwork.SocialSwap
