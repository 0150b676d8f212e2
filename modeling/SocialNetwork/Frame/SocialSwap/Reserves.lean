import SocialNetwork.Frame.SocialSwap.Pallet

/-!
# `pallet_social_swap`: the stored reserves

An exchange's stored `trade_token_amount` and `native_token_amount` are
meant to be what the pot holds for it: `add_liquidity` prices new liquidity
from them and `remove_liquidity` pays shares of them. Only `create_exchange`
and `add_liquidity` write them (`entry_keeps_exchanges`). The swaps and
`remove_liquidity` move tokens in and out of the pot and leave `Exchanges`
as it was, so the stored reserves and the pot part after the first swap or
withdrawal (`not_reservesHeld_of_keeps`).

`add_liquidity` and `remove_liquidity` unwrap the exchange before checking
that it exists, and panic on an id without one; the swaps drop the result
of the helper they call, so that they never return `Err` on an existing
exchange.

The last section runs the pallet in the runtime of the pallet's tests
(`mock.rs`) and shows each of these on a run from an empty chain.
-/

namespace SocialNetwork.SocialSwap

open Dispatch Unsigned

variable {AccountId E α : Type} [DecidableEq AccountId]

/-- What the stored reserves are for: the stored trade-token reserve of
every exchange is the pot's balance of its trade token. -/
def ReservesHeld (T : Config AccountId) (s : State AccountId E) : Prop :=
  ∀ e, ∀ x ∈ s.exchanges e, x.tradeTokenAmount = Assets.balance s.assets x.tradeToken T.accountId

def Entry.writesExchanges : Entry AccountId → Bool
  | .createExchange .. | .addLiquidity .. => true
  | _ => false

/-! ## What the calls leave alone -/

section Frames

variable (env : Env AccountId E) (TA : Assets.Config AccountId) (T : Config AccountId)

omit [DecidableEq AccountId] in
theorem keeps_onAssets (m : Assets.AssetsCall AccountId E α) :
    Keeps State.exchanges (onAssets m) :=
  keeps_zoom m fun _ _ => rfl

omit [DecidableEq AccountId] in
theorem keeps_currencyTransfer (source dest : AccountId) (value : ℕ) :
    Keeps State.exchanges (currencyTransfer env source dest value) :=
  keeps_onAssets _

omit [DecidableEq AccountId] in
theorem keeps_ensureDeadline (deadline : ℕ) :
    Keeps State.exchanges (ensureDeadline env deadline : SwapCall AccountId E Unit) :=
  keeps_bind keeps_get fun _ => keeps_ensure _

omit [DecidableEq AccountId] in
theorem keeps_outputPriceU128 (a b c : ℕ) :
    Keeps State.exchanges (outputPriceU128 a b c : SwapCall AccountId E ℕ) :=
  keeps_bind (keeps_divide _ _) fun _ => keeps_pure _

/-- The helpers that move tokens through the pot transfer native tokens,
then trade tokens, and return their copy of the exchange without storing it. -/
theorem keeps_nativeToTradeSwap (x : Exchange) (a i b : ℕ) (buyer recipient : AccountId) :
    Keeps State.exchanges (nativeToTradeSwap env T x a i b buyer recipient) :=
  keeps_bind (keeps_currencyTransfer env _ _ _) fun _ =>
    keeps_bind (keeps_onAssets _) fun _ => keeps_pure _

theorem keeps_tradeToNativeSwap (x : Exchange) (a i b : ℕ) (buyer recipient : AccountId) :
    Keeps State.exchanges (tradeToNativeSwap env T x a i b buyer recipient) :=
  keeps_bind (keeps_currencyTransfer env _ _ _) fun _ =>
    keeps_bind (keeps_onAssets _) fun _ => keeps_pure _

theorem keeps_withdrawLiquidity (who : AccountId) (a i b : ℕ) (x : Exchange) :
    Keeps State.exchanges (withdrawLiquidity env T who a i b x) :=
  keeps_bind (keeps_currencyTransfer env _ _ _) fun _ =>
    keeps_bind (keeps_onAssets _) fun _ => keeps_pure _

/-- Each of the four swap helpers checks the deadline and its amounts,
prices the swap and calls one of the two helpers above. -/
theorem keeps_nativeToTradeInput (x : Exchange) (a m d : ℕ) (buyer recipient : AccountId) :
    Keeps State.exchanges (nativeToTradeInput env T x a m d buyer recipient) :=
  keeps_bind (keeps_ensureDeadline env d) fun _ => keeps_bind (keeps_ensure _) fun _ =>
    keeps_bind (keeps_divide _ _) fun _ => keeps_nativeToTradeSwap env T x _ _ _ _ _

theorem keeps_tradeToNativeInput (x : Exchange) (a m d : ℕ) (buyer recipient : AccountId) :
    Keeps State.exchanges (tradeToNativeInput env T x a m d buyer recipient) :=
  keeps_bind (keeps_ensureDeadline env d) fun _ => keeps_bind (keeps_ensure _) fun _ =>
    keeps_bind (keeps_divide _ _) fun _ => keeps_tradeToNativeSwap env T x _ _ _ _ _

theorem keeps_nativeToTradeOutput (x : Exchange) (b d : ℕ) (buyer recipient : AccountId) :
    Keeps State.exchanges (nativeToTradeOutput env T x b d buyer recipient) :=
  keeps_bind (keeps_ensureDeadline env d) fun _ => keeps_bind (keeps_ensure _) fun _ =>
    keeps_bind (keeps_outputPriceU128 _ _ _) fun _ => keeps_nativeToTradeSwap env T x _ _ _ _ _

theorem keeps_tradeToNativeOutput (x : Exchange) (b d : ℕ) (buyer recipient : AccountId) :
    Keeps State.exchanges (tradeToNativeOutput env T x b d buyer recipient) :=
  keeps_bind (keeps_ensureDeadline env d) fun _ => keeps_bind (keeps_ensure _) fun _ =>
    keeps_bind (keeps_outputPriceU128 _ _ _) fun _ => keeps_tradeToNativeSwap env T x _ _ _ _ _

omit [DecidableEq AccountId] in
/-- The four swap dispatchables share one body: look the exchange up, run
a helper on the local copy, drop its result. -/
theorem keeps_swapDispatch (origin : Origin AccountId) (exchangeId : ℕ)
    (helper : Exchange → AccountId → SwapCall AccountId E Exchange)
    (h : ∀ x buyer, Keeps State.exchanges (helper x buyer)) :
    Keeps State.exchanges (do
      let buyer ← ensureSigned origin
      let s ← get
      let exchange ← okOr (s.exchanges exchangeId) (.socialSwap .exchangeNotExists)
      dropResult (helper exchange buyer)) :=
  keeps_bind (keeps_ensureSigned origin) fun buyer => keeps_bind keeps_get fun _ =>
    keeps_bind (keeps_okOr _ _) fun x => keeps_dropResult (h x buyer)

theorem removeLiquidity_keeps_exchanges (origin : Origin AccountId)
    (exchangeId burned minNative minTrade deadline : ℕ) :
    Keeps State.exchanges (removeLiquidity env T origin exchangeId burned minNative minTrade deadline) := by
  unfold removeLiquidity
  refine keeps_bind (keeps_ensureSigned origin) fun who => keeps_bind keeps_get fun _ => ?_
  refine keeps_bind (keeps_unwrap _) fun _ => keeps_bind (keeps_ensure _) fun _ =>
    keeps_bind (keeps_ensure _) fun _ => keeps_bind (keeps_ensure _) fun _ =>
    keeps_bind (keeps_ensure _) fun _ => keeps_bind (keeps_unwrap _) fun x => ?_
  refine keeps_bind (keeps_okOr _ _) fun _ => keeps_bind (keeps_divide _ _) fun _ =>
    keeps_bind (keeps_okOr _ _) fun _ => keeps_bind (keeps_divide _ _) fun _ =>
    keeps_bind (keeps_ensure _) fun _ => ?_
  exact keeps_bind (keeps_onAssets _) fun _ =>
    keeps_bind (keeps_withdrawLiquidity env T who _ _ _ x) fun _ => keeps_pure _

/-- `Exchanges` is written by `create_exchange` and `add_liquidity` only:
every other entry point leaves it as it was, whether it returns `Ok` or
`Err`. -/
theorem entry_keeps_exchanges (c : Entry AccountId) (hc : c.writesExchanges = false) :
    Keeps State.exchanges (c.apply env TA T) := by
  cases c with
  | createExchange => simp [Entry.writesExchanges] at hc
  | addLiquidity => simp [Entry.writesExchanges] at hc
  | removeLiquidity o id burned minNative minTrade deadline =>
      exact removeLiquidity_keeps_exchanges env T o id burned minNative minTrade deadline
  | nativeToTradeTokenInput o id sold minTrade deadline recipient =>
      exact keeps_swapDispatch o id _ fun x buyer =>
        keeps_nativeToTradeInput env T x sold minTrade deadline buyer recipient
  | tradeToNativeTokenInput o id sold minNative deadline recipient =>
      exact keeps_swapDispatch o id _ fun x buyer =>
        keeps_tradeToNativeInput env T x sold minNative deadline buyer recipient
  | nativeToTradeTokenOutput o id bought deadline recipient =>
      exact keeps_swapDispatch o id _ fun x buyer =>
        keeps_nativeToTradeOutput env T x bought deadline buyer recipient
  | tradeToNativeTokenOutput o id bought deadline recipient =>
      exact keeps_swapDispatch o id _ fun x buyer =>
        keeps_tradeToNativeOutput env T x bought deadline buyer recipient
  | assets c => exact keeps_onAssets _

/-- A call that keeps `Exchanges` and moves the pot's balance of an
exchange's trade token leaves the stored reserves apart from the pot. -/
theorem not_reservesHeld_of_keeps {m : SwapCall AccountId E α} (hm : Keeps State.exchanges m)
    {s : State AccountId E} {e : ℕ} {x : Exchange} (hx : s.exchanges e = some x)
    (hs : ReservesHeld T s)
    (hmove : Assets.balance (after (m.run s)).assets x.tradeToken T.accountId ≠
      Assets.balance s.assets x.tradeToken T.accountId) :
    ¬ ReservesHeld T (after (m.run s)) := by
  intro hafter
  have hx' : (after (m.run s)).exchanges e = some x := (congrFun (hm s) e).trans hx
  exact hmove ((hafter e x hx').symm.trans (hs e x hx))

end Frames

/-! ## Errors and panics -/

section Outcomes

variable (env : Env AccountId E) (T : Config AccountId)

/-- `add_liquidity` unwraps `Exchanges[exchange_id]` before it checks that
the exchange exists: on an id without one it panics. -/
theorem addLiquidity_panics_of_none (who : AccountId) (s : State AccountId E)
    (exchangeId native minLiquidity maxTrade deadline : ℕ) (h : s.exchanges exchangeId = none) :
    (addLiquidity env T (.signed who) exchangeId native minLiquidity maxTrade deadline).run s =
      .error .panic s := by
  simp [addLiquidity, EStateM.run_bind, h]

theorem removeLiquidity_panics_of_none (who : AccountId) (s : State AccountId E)
    (exchangeId burned minNative minTrade deadline : ℕ) (h : s.exchanges exchangeId = none) :
    (removeLiquidity env T (.signed who) exchangeId burned minNative minTrade deadline).run s =
      .error .panic s := by
  simp [removeLiquidity, EStateM.run_bind, h]

omit [DecidableEq AccountId] in
/-- A swap dispatchable, signed and on an existing exchange, never returns
`Err`: whether its helper returned `Ok`, `Err(TooLate)`, `Err(TooLow)` or the
error of a transfer, the call returns `Ok`, keeping the writes the helper
made before it failed. -/
theorem wp_swapDispatch_ok {Q : Unit → State AccountId E → Prop}
    {R : DispatchError → State AccountId E → Prop} (buyer : AccountId) (exchangeId : ℕ)
    (helper : Exchange → AccountId → SwapCall AccountId E Exchange) (s : State AccountId E)
    {x : Exchange} (hx : s.exchanges exchangeId = some x)
    (h : Wp (helper x buyer) (fun _ s' => Q () s') (fun _ s' => Q () s') s) :
    Wp (do
      let buyer ← ensureSigned (.signed buyer)
      let s ← get
      let exchange ← okOr (s.exchanges exchangeId) (.socialSwap .exchangeNotExists)
      dropResult (helper exchange buyer)) Q R s := by
  simp only [wp_bind, wp_ensureSigned, wp_get, hx, wp_okOr_some, wp_dropResult]
  exact h

end Outcomes

/-! ## Runs in the runtime of the tests

`mock.rs` runs the pallet with existential deposit 1, asset deposits of 1
and metadata deposits of 1, and gives 1,000,000 native tokens to the
accounts 1 and 2 and to the pot, here the account 0. Its `Handler` is the
identity. Its balances are `u64`; the runs below stay far below either
width. Each run starts from a chain without assets, and its first calls
create and mint the trade token. -/

def mockEnv : Env ℕ (Ledger ℕ) := Ledger.env 1

def mockAssets : Assets.Config ℕ where
  assetDepositBase := 1
  assetDepositPerZombie := 1
  stringLimit := 50
  metadataDepositBase := 1
  metadataDepositPerByte := 1
  forceOrigin o := decide (o = .root)

def mockConfig : Config ℕ := ⟨0, id⟩

def mockLedger : Ledger ℕ where
  free a := if a ≤ 2 then 1000000 else 0
  reserved _ := 0
  providers _ := 1
  consumers _ := 0
  blockNumber := 0
  now := 0

def mockGenesis : State ℕ (Ledger ℕ) := State.init (Assets.State.empty mockLedger)

abbrev mockApply : Entry ℕ → SwapCall ℕ (Ledger ℕ) Unit := Entry.apply mockEnv mockAssets mockConfig

/-- Account 1 creates asset 2, mints 1000 of it, opens an exchange for it,
adds 100 native and 100 trade tokens, and buys trade tokens for 10 native. -/
def swapTrace : List (Entry ℕ) :=
  [.assets (.forceCreate .root 2 1 3 1), .assets (.mint (.signed 1) 2 1 1000),
   .createExchange (.signed 1) 2 3 1, .addLiquidity (.signed 1) 0 100 0 100 10,
   .nativeToTradeTokenInput (.signed 1) 0 10 1 10 1]

/-- After one swap the exchange still stores a trade reserve of 100, while
the pot holds 91 of the trade token. -/
theorem swap_breaks_reservesHeld :
    ∃ s, Reachable mockApply (· = mockGenesis) s ∧ ¬ ReservesHeld mockConfig s := by
  have h : (execute mockApply swapTrace mockGenesis).map (fun s => decide (∃ x ∈ s.exchanges 0,
      x.tradeTokenAmount ≠ Assets.balance s.assets x.tradeToken mockConfig.accountId)) =
      some true := by
    decide
  obtain ⟨s, hs, x, hx, hne⟩ : ∃ s, Reachable mockApply (· = mockGenesis) s ∧
      ∃ x ∈ s.exchanges 0, x.tradeTokenAmount ≠ Assets.balance s.assets x.tradeToken 0 :=
    Reachable.exists_of_execute rfl h
  exact ⟨s, hs, fun held => hne (held 0 x hx)⟩

/-- On a chain without exchanges, `add_liquidity` panics. -/
theorem addLiquidity_panics_at_genesis :
    ∃ s, Reachable mockApply (· = mockGenesis) s ∧
      ∃ c, (mockApply c).run s = .error .panic s :=
  ⟨mockGenesis, Reachable.start rfl, .addLiquidity (.signed 1) 0 100 0 100 10,
    addLiquidity_panics_of_none mockEnv mockConfig 1 mockGenesis 0 100 0 100 10 rfl⟩

/-- Accounts 1 and 2 both provide liquidity, 100 native each, and both
withdraw all of it. The second withdrawal is priced from the reserves stored
before the first, and pays account 2 200 native for its 100; its trade-token
payout then fails, after the burn and the native payout. -/
def lpTrace : List (Entry ℕ) :=
  [.assets (.forceCreate .root 2 1 3 1), .assets (.mint (.signed 1) 2 1 1000),
   .assets (.mint (.signed 1) 2 2 1000), .createExchange (.signed 1) 2 3 1,
   .addLiquidity (.signed 1) 0 100 0 100 10, .addLiquidity (.signed 2) 0 100 0 200 10,
   .removeLiquidity (.signed 1) 0 100 1 1 10, .removeLiquidity (.signed 2) 0 100 1 1 10]

/-- With no swap at all, the two providers end with 100 native more than
they started with: the pot paid them 300 for the 200 they put in. -/
theorem providers_withdraw_more_than_deposited :
    ∃ s, Reachable mockApply (· = mockGenesis) s ∧
      s.assets.env.free 1 + s.assets.env.free 2 = mockLedger.free 1 + mockLedger.free 2 + 100 := by
  have h : (execute mockApply lpTrace mockGenesis).map (fun s => decide
      (s.assets.env.free 1 + s.assets.env.free 2 = mockLedger.free 1 + mockLedger.free 2 + 100)) =
      some true := by
    decide
  exact Reachable.exists_of_execute rfl h

end SocialNetwork.SocialSwap
