import SocialNetwork.Frame.Assets.Pallet

/-!
# `pallet_social_swap2`

The pair of `src/frame/social-swap2/src/lib.rs`, after Uniswap V2. The two
reserves are the balances of the one asset `AssetId` held by two accounts,
`Token0` and `Token1`; the LP token is that same asset, issued to liquidity
providers and burned from them. `Reserve0` and `Reserve1` are the balances
the pallet saw at its last `update`.

Storage is `State`, beside `assets`, the state of `pallet_assets`, which
holds the rest of the runtime in its turn. The pallet is a `decl_module!`:
its calls are not transactional. `mint`, `burn` and `swap` drop the result
of `update`, and `burn` and `swap` drop those of their transfers.

Arithmetic is that of the node runtime, where the asset balance is `u128`,
in a release build: unchecked `+`, `-` and `*` wrap, `/` panics on zero, and
the `saturated_into` conversions between `u128` types are the identity.
`integer_sqrt` is `Nat.sqrt`.
-/

namespace SocialNetwork.SocialSwap2

open Dispatch Unsigned

/-- What `pallet_social_swap2::Config` fixes. -/
structure Config where
  /-- `T::MinimumLiquidity`. -/
  minimumLiquidity : ℕ

/-- The storage of `pallet_social_swap2`, beside that of `pallet_assets`. -/
structure State (AccountId E : Type) where
  assetId : ℕ
  feeTo : AccountId
  address0 : AccountId
  treasury : AccountId
  token0 : AccountId
  token1 : AccountId
  reserve0 : ℕ
  reserve1 : ℕ
  price0CumulativeLast : ℕ
  price1CumulativeLast : ℕ
  kLast : ℕ
  blockTimestampLast : ℕ
  assets : Assets.State AccountId E

variable {AccountId E α : Type}

/-- The pallet's storage before any call: every value at its default, and
`AssetId` at 1. -/
def State.init (default : AccountId) (assets : Assets.State AccountId E) : State AccountId E where
  assetId := 1
  feeTo := default
  address0 := default
  treasury := default
  token0 := default
  token1 := default
  reserve0 := 0
  reserve1 := 0
  price0CumulativeLast := 0
  price1CumulativeLast := 0
  kLast := 0
  blockTimestampLast := 0
  assets := assets

variable [DecidableEq AccountId]

def State.balance0 (s : State AccountId E) : ℕ := Assets.balance s.assets s.assetId s.token0

def State.balance1 (s : State AccountId E) : ℕ := Assets.balance s.assets s.assetId s.token1

abbrev PairCall (AccountId E : Type) := Call DispatchError (State AccountId E)

def onAssets (m : Assets.AssetsCall AccountId E α) : PairCall AccountId E α :=
  zoom State.assets (fun s a => { s with assets := a }) m

variable (env : Env AccountId E) (T : Config)

section Helpers

/-- `mint_fee`: with a fee recipient set, mint it a sixth of the growth of
`√k` since `KLast`; without one, clear `KLast`. Returns whether the fee is on. -/
def mintFee (reserve0 reserve1 : ℕ) : PairCall AccountId E Bool := do
  let s ← get
  let feeTo := s.feeTo
  let feeOn := decide (feeTo ≠ s.address0)
  let kLast := s.kLast
  if feeOn then
    if kLast ≠ 0 then
      let rootK := Nat.sqrt (wrappingMul balanceBits reserve0 reserve1)
      let rootKLast := Nat.sqrt kLast
      if rootK > rootKLast then
        let totalSupply := Assets.totalSupply s.assets s.assetId
        let numerator := wrappingMul 128 totalSupply (rootK - rootKLast)
        let denominator := wrappingAdd 128 (wrappingMul 128 rootK 5) rootKLast
        let liquidity ← divide numerator denominator
        if liquidity > 0 then
          onAssets (Assets.IssueAndBurn.issue env s.assetId feeTo liquidity)
  else if kLast ≠ 0 then
    modify fun s => { s with kLast := 0 }
  pure feeOn

/-- `update`: store the balances as the reserves, and accumulate the prices
over the time since the last update. -/
def update (balance0 balance1 reserve0 reserve1 : ℕ) : PairCall AccountId E Unit := do
  ensure (checkedAdd balanceBits balance0 1).isSome (.socialSwap2 .overFlow)
  ensure (checkedAdd balanceBits balance1 1).isSome (.socialSwap2 .overFlow)
  let s ← get
  -- `now` as `u64`, modulo `2^32`: `try_into::<u32>` cannot fail
  let blockTimestamp := saturatedInto 64 (env.now s.assets.env) % 2 ^ 32
  let timeElapsed := wrappingSub 32 blockTimestamp s.blockTimestampLast
  if timeElapsed > 0 ∧ reserve0 ≠ 0 ∧ reserve1 ≠ 0 then
    modify fun s => { s with
      price0CumulativeLast := saturatingAdd 128 s.price0CumulativeLast
        (saturatingMul 128 (saturatingMul 128 reserve1 (2 ^ 64) / reserve0) timeElapsed)
      price1CumulativeLast := saturatingAdd 128 s.price1CumulativeLast
        (saturatingMul 128 (saturatingMul 128 reserve0 (2 ^ 64) / reserve1) timeElapsed) }
  modify fun s => { s with reserve0 := balance0, reserve1 := balance1, blockTimestampLast := blockTimestamp }

end Helpers

/-! ## Dispatchables -/

section Calls

/-- `initialize`, a keyword of Lean. -/
def initialise (origin : Origin AccountId) (feeTo address0 treasury token0 token1 : AccountId) :
    PairCall AccountId E Unit := do
  ensureRoot origin
  modify fun s => { s with feeTo, address0, treasury, token0, token1 }

/-- `mint`: issue LP tokens to `recipient` for what `Token0` and `Token1` hold
above the reserves. The balances are read before the issue, and stored as
the reserves after it. -/
def mint (origin : Origin AccountId) (recipient : AccountId) : PairCall AccountId E Unit := do
  let _sender ← ensureSigned origin
  let s ← get
  let socialTokenId := s.assetId
  let reserve0 := s.reserve0
  let reserve1 := s.reserve1
  let balance0 := s.balance0
  let balance1 := s.balance1
  let amount0 ← okOr (checkedSub balance0 reserve0) (.socialSwap2 .notEnoughLiquidity)
  let amount1 ← okOr (checkedSub balance1 reserve1) (.socialSwap2 .notEnoughLiquidity)
  let feeOn ← mintFee env reserve0 reserve1
  let s ← get
  let totalSupply := Assets.totalSupply s.assets socialTokenId
  let liquidity ←
    if totalSupply = 0 then
      pure (Nat.sqrt (saturatingMul balanceBits amount0 amount1) - T.minimumLiquidity)
    else do
      let liquidity0 ← divide (saturatingMul balanceBits amount0 totalSupply) reserve0
      let liquidity1 ← divide (saturatingMul balanceBits amount1 totalSupply) reserve1
      pure (min liquidity0 liquidity1)
  ensure (liquidity > 0) (.socialSwap2 .insufficientLiquidityMinted)
  if totalSupply = 0 then
    onAssets (Assets.IssueAndBurn.issue env socialTokenId s.address0 T.minimumLiquidity)
  onAssets (Assets.IssueAndBurn.issue env socialTokenId recipient liquidity)
  dropResult (update env balance0 balance1 reserve0 reserve1)
  if feeOn then
    modify fun s => { s with kLast := saturatingMul balanceBits reserve0 reserve1 }

/-- `burn`: the liquidity burned from `recipient` is the `Treasury`'s free native
balance, and `recipient` is paid that share of `Token0`'s and `Token1`'s balances. -/
def burn (origin : Origin AccountId) (recipient : AccountId) : PairCall AccountId E Unit := do
  let _sender ← ensureSigned origin
  let s ← get
  let socialTokenId := s.assetId
  let reserve0 := s.reserve0
  let reserve1 := s.reserve1
  let balance0 := s.balance0
  let balance1 := s.balance1
  let liquidity := env.freeBalance s.assets.env s.treasury
  let feeOn ← mintFee env reserve0 reserve1
  let s ← get
  let totalSupply := Assets.totalSupply s.assets socialTokenId
  let amount0 ← divide (saturatingMul balanceBits liquidity balance0) totalSupply
  let amount1 ← divide (saturatingMul balanceBits liquidity balance1) totalSupply
  ensure (amount0 > 0 ∧ amount1 > 0) (.socialSwap2 .insufficientLiquidityBurned)
  onAssets (Assets.IssueAndBurn.burn env socialTokenId recipient liquidity)
  dropResult (onAssets (Assets.Fungible.transfer env socialTokenId s.token0 recipient amount0))
  dropResult (onAssets (Assets.Fungible.transfer env socialTokenId s.token1 recipient amount1))
  let s ← get
  dropResult (update env s.balance0 s.balance1 reserve0 reserve1)
  if feeOn then
    modify fun s => { s with kLast := saturatingMul balanceBits reserve0 reserve1 }

/-- `swap`: pay out `amount0_out` and `amount1_out`, then require that the
balances, less a fee of 0.3% on what came in, keep the product of the
reserves. The guards on the amounts are disjunctions, and the product check
saturates. -/
def swap (origin : Origin AccountId) (amount0Out amount1Out : ℕ) (recipient : AccountId)
    (_data : List UInt8) : PairCall AccountId E Unit := do
  let _sender ← ensureSigned origin
  ensure (amount0Out > 0 ∨ amount1Out > 0) (.socialSwap2 .insufficientOutputAmount)
  let s ← get
  let socialTokenId := s.assetId
  let reserve0 := s.reserve0
  let reserve1 := s.reserve1
  ensure (amount0Out < reserve0 ∨ amount1Out < reserve1) (.socialSwap2 .insufficientLiquidity)
  let token0 := s.token0
  let token1 := s.token1
  ensure (recipient ≠ token0 ∧ recipient ≠ token1) (.socialSwap2 .invalidTo)
  if amount0Out > 0 then
    dropResult (onAssets (Assets.Fungible.transfer env socialTokenId token0 recipient amount0Out))
  if amount1Out > 0 then
    dropResult (onAssets (Assets.Fungible.transfer env socialTokenId token1 recipient amount1Out))
  let s ← get
  let balance0 := s.balance0
  let balance1 := s.balance1
  -- `reserve0 - amount0_out` is unchecked
  let amount0In := if balance0 > wrappingSub balanceBits reserve0 amount0Out
    then balance0 - wrappingSub balanceBits reserve0 amount0Out else 0
  let amount1In := if balance1 > wrappingSub balanceBits reserve1 amount1Out
    then balance1 - wrappingSub balanceBits reserve1 amount1Out else 0
  ensure (amount0In > 0 ∨ amount1In > 0) (.socialSwap2 .insufficientInputAmount)
  let balance0Adjusted := saturatingMul balanceBits balance0 1000 - saturatingMul balanceBits amount0In 3
  let balance1Adjusted := saturatingMul balanceBits balance1 1000 - saturatingMul balanceBits amount1In 3
  ensure (saturatingMul balanceBits balance0Adjusted balance1Adjusted ≥
      saturatingMul balanceBits (saturatingMul balanceBits reserve0 reserve1) 1000000)
    (.socialSwap2 .invalidK)
  dropResult (update env balance0 balance1 reserve0 reserve1)

end Calls

/-! ## Entry points -/

/-- The calls that change the pair's state: the pallet's dispatchables, the
calls of `pallet_assets` that share its ledger, and the native transfers of
`pallet_balances`, which set the `Treasury`'s balance that `burn` reads. -/
inductive Entry (AccountId : Type) where
  | initialise (origin : Origin AccountId) (feeTo address0 treasury token0 token1 : AccountId)
  | mint (origin : Origin AccountId) (recipient : AccountId)
  | burn (origin : Origin AccountId) (recipient : AccountId)
  | swap (origin : Origin AccountId) (amount0Out amount1Out : ℕ) (recipient : AccountId) (data : List UInt8)
  | transferNative (origin : Origin AccountId) (dest : AccountId) (value : ℕ)
  | assets (c : Assets.Entry AccountId)

/-- `pallet_balances::transfer`, through `Currency::transfer`. -/
def transferNative (origin : Origin AccountId) (dest : AccountId) (value : ℕ) :
    PairCall AccountId E Unit := do
  let who ← ensureSigned origin
  onAssets (Assets.onEnv (Env.currency fun e => env.transfer e who dest value .allowDeath))

/-- Run an entry point. -/
def Entry.apply (TA : Assets.Config AccountId) : Entry AccountId → PairCall AccountId E Unit
  | .initialise o feeTo address0 treasury token0 token1 =>
      SocialSwap2.initialise o feeTo address0 treasury token0 token1
  | .mint o recipient => SocialSwap2.mint env T o recipient
  | .burn o recipient => SocialSwap2.burn env o recipient
  | .swap o amount0Out amount1Out recipient data => SocialSwap2.swap env o amount0Out amount1Out recipient data
  | .transferNative o dest value => SocialSwap2.transferNative env o dest value
  | .assets c => onAssets (c.apply env TA)

end SocialNetwork.SocialSwap2
