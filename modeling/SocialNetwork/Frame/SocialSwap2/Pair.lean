import SocialNetwork.Frame.SocialSwap2.Pallet

/-!
# `pallet_social_swap2`: the reserves and the product check

What the pair is for: the stored reserves are the balances of `Token0` and
`Token1` after each of the pallet's calls (`Synced`), a swap never lowers
their product, and a burn pays out of each side the share that the LP
tokens it burned are of the supply (`PaysProRata`).

What the code does: `swap` and `burn` store the balances they read after
their transfers (`swap_synced`, `burn_synced`); `mint` reads them before it
issues, so an issue to `Token0` or `Token1` leaves the reserve behind. The
product check of `swap` is sound while the product of the reserves, times
`10^6`, fits in `u128` (`swap_product_ge`); beyond that both sides of the
check saturate to `u128::MAX` and it passes whatever the swap takes. `burn`
prices the payout from the `Treasury`'s native balance, not from what it
burns. Neither `mint` nor `burn` checks what it divides by: `burn` divides
by the supply of the pallet's asset, `mint` by the stored reserves, and
both are zero until the pair is opened
(`burn_panics_of_totalSupply_eq_zero`, `mint_panics_of_reserve0_eq_zero`).

The last section runs the pallet in a runtime after its tests' `mock.rs` and
shows each failure on a run from a chain without assets.
-/

namespace SocialNetwork.SocialSwap2

open Dispatch Unsigned

variable {AccountId E : Type} [DecidableEq AccountId]

def Synced (s : State AccountId E) : Prop := s.reserve0 = s.balance0 ∧ s.reserve1 = s.balance1

instance (s : State AccountId E) : Decidable (Synced s) := inferInstanceAs (Decidable (_ ∧ _))

/-- A call from `s` to `s'` paid out of each side, as the drop of its
balance, at most the share of it that the drop of the supply is of the
supply. -/
def PaysProRata (s s' : State AccountId E) : Prop :=
  let supply := Assets.totalSupply s.assets s.assetId
  let burned := supply - Assets.totalSupply s'.assets s.assetId
  (s.balance0 - s'.balance0) * supply ≤ burned * s.balance0 ∧
    (s.balance1 - s'.balance1) * supply ≤ burned * s.balance1

instance (s s' : State AccountId E) : Decidable (PaysProRata s s') :=
  inferInstanceAs (Decidable (_ ∧ _))

/-! ## Specifications of the helpers -/

section Specs

variable (env : Env AccountId E) {Q : Unit → State AccountId E → Prop}
  {R : DispatchError → State AccountId E → Prop} {s : State AccountId E}

@[simp] theorem balance0_assets (t : Assets.State AccountId E) :
    ({ s with assets := t } : State AccountId E).balance0 = Assets.balance t s.assetId s.token0 := rfl

@[simp] theorem balance1_assets (t : Assets.State AccountId E) :
    ({ s with assets := t } : State AccountId E).balance1 = Assets.balance t s.assetId s.token1 := rfl

omit [DecidableEq AccountId] in
/-- A call into `pallet_assets` whose result is dropped: whatever it did to
the assets, the call goes on with the pair's own storage as it was. -/
theorem wp_dropResult_onAssets {α : Type} (m : Assets.AssetsCall AccountId E α)
    (h : ∀ t, Q () { s with assets := t }) : Wp (dropResult (onAssets m)) Q R s := by
  rw [wp_dropResult, onAssets, wp_zoom]
  exact Wp.of_forall (fun _ t => h t) (fun _ t => h t)

omit [DecidableEq AccountId] in
/-- `update`, its result dropped: it fails on a balance of `u128::MAX`,
writing nothing, or stores the balances as the reserves, writing beside them
only the price accumulators and the timestamp. -/
theorem wp_dropResult_update (balance0 balance1 reserve0 reserve1 : ℕ)
    (hok : balance0 < maxValue balanceBits → balance1 < maxValue balanceBits → ∀ p0 p1 t,
      Q () { s with
        price0CumulativeLast := p0
        price1CumulativeLast := p1
        reserve0 := balance0
        reserve1 := balance1
        blockTimestampLast := t })
    (hfail : maxValue balanceBits ≤ balance0 ∨ maxValue balanceBits ≤ balance1 → Q () s) :
    Wp (dropResult (update env balance0 balance1 reserve0 reserve1)) Q R s := by
  rw [wp_dropResult]
  simp only [update, wp_bind, wp_ensure, wp_get, wp_ite, wp_modify]
  by_cases h0 : balance0 < maxValue balanceBits
  · by_cases h1 : balance1 < maxValue balanceBits
    · have hc0 : (checkedAdd balanceBits balance0 1).isSome := by simp [checkedAdd]; omega
      have hc1 : (checkedAdd balanceBits balance1 1).isSome := by simp [checkedAdd]; omega
      rw [if_pos hc0, if_pos hc1]
      split_ifs <;> exact hok h0 h1 _ _ _
    · have hc1 : ¬ (checkedAdd balanceBits balance1 1).isSome := by simp [checkedAdd]; omega
      rw [if_neg hc1]
      split_ifs <;> exact hfail (.inr (by omega))
  · have hc0 : ¬ (checkedAdd balanceBits balance0 1).isSome := by simp [checkedAdd]; omega
    rw [if_neg hc0]
    exact hfail (.inl (by omega))

omit [DecidableEq AccountId] in
theorem wp_optionalTransfer_reserves {c : Prop} [Decidable c] (m : Assets.AssetsCall AccountId E Unit) :
    Wp (if c then dropResult (onAssets m) else pure ())
      (fun _ s' => s'.reserve0 = s.reserve0 ∧ s'.reserve1 = s.reserve1) R s := by
  split_ifs
  · exact wp_dropResult_onAssets m fun _ => ⟨rfl, rfl⟩
  · exact ⟨rfl, rfl⟩

end Specs

/-! ## The product check -/

/-- The product check of `swap`, when its right side does not saturate,
bounds the product of the reserves by that of the balances: the fee only
lowers the adjusted balances. -/
theorem mul_le_mul_of_kCheck {reserve0 reserve1 balance0 balance1 amount0In amount1In : ℕ}
    (hfit : reserve0 * reserve1 * 1000000 ≤ maxValue balanceBits)
    (hk : saturatingMul balanceBits (saturatingMul balanceBits reserve0 reserve1) 1000000 ≤
      saturatingMul balanceBits
        (saturatingMul balanceBits balance0 1000 - saturatingMul balanceBits amount0In 3)
        (saturatingMul balanceBits balance1 1000 - saturatingMul balanceBits amount1In 3)) :
    reserve0 * reserve1 ≤ balance0 * balance1 := by
  have hr : reserve0 * reserve1 ≤ maxValue balanceBits :=
    le_trans (Nat.le_mul_of_pos_right _ (by norm_num)) hfit
  rw [saturatingMul_of_le hr, saturatingMul_of_le hfit] at hk
  have h0 : saturatingMul balanceBits balance0 1000 - saturatingMul balanceBits amount0In 3 ≤
      balance0 * 1000 := (Nat.sub_le _ _).trans saturatingMul_le_mul
  have h1 : saturatingMul balanceBits balance1 1000 - saturatingMul balanceBits amount1In 3 ≤
      balance1 * 1000 := (Nat.sub_le _ _).trans saturatingMul_le_mul
  have : reserve0 * reserve1 * 1000000 ≤ balance0 * balance1 * 1000000 :=
    calc reserve0 * reserve1 * 1000000
        ≤ saturatingMul balanceBits
            (saturatingMul balanceBits balance0 1000 - saturatingMul balanceBits amount0In 3)
            (saturatingMul balanceBits balance1 1000 - saturatingMul balanceBits amount1In 3) := hk
      _ ≤ (saturatingMul balanceBits balance0 1000 - saturatingMul balanceBits amount0In 3) *
            (saturatingMul balanceBits balance1 1000 - saturatingMul balanceBits amount1In 3) :=
          saturatingMul_le_mul
      _ ≤ (balance0 * 1000) * (balance1 * 1000) := Nat.mul_le_mul h0 h1
      _ = balance0 * balance1 * 1000000 := by ring
  exact Nat.le_of_mul_le_mul_right this (by norm_num)

section Swap

variable (env : Env AccountId E)

/-- A swap from reserves whose product, times `10^6`, fits in `u128` never
lowers the product of the stored reserves: either `update` stores balances
that passed the product check, or it fails and the reserves stay. -/
theorem swap_product_ge (origin : Origin AccountId) (amount0Out amount1Out : ℕ)
    (recipient : AccountId) (data : List UInt8) (s : State AccountId E)
    (hfit : s.reserve0 * s.reserve1 * 1000000 ≤ maxValue balanceBits) :
    Wp (swap env origin amount0Out amount1Out recipient data)
      (fun _ s' => s.reserve0 * s.reserve1 ≤ s'.reserve0 * s'.reserve1) (fun _ _ => True) s := by
  refine wp_ensureSigned_bind (fun _ => ?_) trivial
  refine wp_ensure_bind (fun _ => ?_) fun _ => trivial
  rw [wp_bind, wp_get]
  refine wp_ensure_bind (fun _ => ?_) fun _ => trivial
  refine wp_ensure_bind (fun _ => ?_) fun _ => trivial
  -- the transfers keep the reserves that the check reads
  refine wp_ite_bind (P := fun s' => s'.reserve0 = s.reserve0 ∧ s'.reserve1 = s.reserve1)
    (wp_dropResult_onAssets _ fun _ => ⟨rfl, rfl⟩) (fun s2 h2 => ?_) ⟨rfl, rfl⟩
  refine wp_ite_bind (P := fun s' => s'.reserve0 = s.reserve0 ∧ s'.reserve1 = s.reserve1)
    (wp_dropResult_onAssets _ fun _ => h2) (fun s3 h3 => ?_) h2
  beta_reduce
  rw [wp_bind, wp_get]
  refine wp_ensure_bind (fun _ => ?_) fun _ => trivial
  refine wp_ensure_bind (fun hk => ?_) fun _ => trivial
  apply wp_dropResult_update
  · intro _ _ _ _ _
    show s.reserve0 * s.reserve1 ≤ s3.balance0 * s3.balance1
    exact mul_le_mul_of_kCheck hfit hk
  · intro _
    rw [h3.1, h3.2]

/-- After a swap that returns `Ok`, the stored reserves are the balances,
unless one of them is `u128::MAX`, on which `update` fails: the balances are
read after the transfers, and stored. -/
theorem swap_synced (origin : Origin AccountId) (amount0Out amount1Out : ℕ)
    (recipient : AccountId) (data : List UInt8) (s : State AccountId E) :
    Wp (swap env origin amount0Out amount1Out recipient data)
      (fun _ s' => s'.balance0 < maxValue balanceBits → s'.balance1 < maxValue balanceBits →
        Synced s') (fun _ _ => True) s := by
  refine wp_ensureSigned_bind (fun _ => ?_) trivial
  refine wp_bind_of_forall (fun _ _ => ?_) fun _ _ => trivial
  refine wp_bind_of_forall (fun _ _ => ?_) fun _ _ => trivial
  refine wp_bind_of_forall (fun _ _ => ?_) fun _ _ => trivial
  refine wp_bind_of_forall (fun _ _ => ?_) fun _ _ => trivial
  refine wp_ite_bind (P := fun _ => True) (Wp.of_forall (fun _ _ => trivial) fun _ _ => trivial)
    (fun _ _ => ?_) trivial
  refine wp_ite_bind (P := fun _ => True) (Wp.of_forall (fun _ _ => trivial) fun _ _ => trivial)
    (fun s3 _ => ?_) trivial
  beta_reduce
  rw [wp_bind, wp_get]
  refine wp_ensure_bind (fun _ => ?_) fun _ => trivial
  refine wp_ensure_bind (fun _ => ?_) fun _ => trivial
  apply wp_dropResult_update
  · intro _ _ _ _ _ _ _
    exact ⟨rfl, rfl⟩
  · intro hmax h0 h1
    omega

end Swap

section Burn

variable (env : Env AccountId E)

/-- So after a burn that returns `Ok`: whatever `mint_fee`, the burn and the
transfers did, the balances are read after them and stored. -/
theorem burn_synced (origin : Origin AccountId) (recipient : AccountId) (s : State AccountId E) :
    Wp (burn env origin recipient)
      (fun _ s' => s'.balance0 < maxValue balanceBits → s'.balance1 < maxValue balanceBits →
        Synced s') (fun _ _ => True) s := by
  refine wp_ensureSigned_bind (fun _ => ?_) trivial
  iterate 9 refine wp_bind_of_forall (fun _ _ => ?_) fun _ _ => trivial
  rw [wp_bind, wp_get, wp_bind]
  apply wp_dropResult_update
  · intro h0 h1 _ _ _
    split_ifs
    · rw [wp_modify]
      exact fun _ _ => ⟨rfl, rfl⟩
    · exact fun _ _ => ⟨rfl, rfl⟩
  · intro hmax
    split_ifs
    · rw [wp_modify]
      intro h0 h1
      simp only [State.balance0, State.balance1] at h0 h1 hmax
      omega
    · intro h0 h1
      omega

end Burn

/-! ## Division by zero -/

section Divisions

variable (env : Env AccountId E) (T : Config) {s : State AccountId E}

theorem run_mintFee_of_fee_off (hfee : s.feeTo = s.address0) (reserve0 reserve1 : ℕ) :
    ∃ s', (mintFee env reserve0 reserve1).run s = .ok false s' ∧ s'.assets = s.assets := by
  by_cases hk : s.kLast = 0
  · exact ⟨s, by simp [mintFee, hfee, hk], rfl⟩
  · exact ⟨{ s with kLast := 0 }, by simp [mintFee, hfee, hk], rfl⟩

/-- With the fee off, `burn` on a pair whose asset has no supply divides by
that supply. -/
theorem burn_panics_of_totalSupply_eq_zero (hfee : s.feeTo = s.address0)
    (hsupply : Assets.totalSupply s.assets s.assetId = 0) (who recipient : AccountId) :
    ∃ s', (burn env (.signed who) recipient).run s = .error .panic s' := by
  obtain ⟨s₁, hmint, hassets⟩ := run_mintFee_of_fee_off env hfee s.reserve0 s.reserve1
  refine ⟨s₁, ?_⟩
  have hzero : Assets.totalSupply s₁.assets s.assetId = 0 := hassets ▸ hsupply
  rw [burn, run_bind_ok (run_ensureSigned_signed who s), run_get_bind, run_bind_ok hmint, run_get_bind]
  simp [divide, hzero]

/-- With the fee off, `mint` on a pair whose asset has a supply and whose
stored `Reserve0` is zero divides by that reserve. -/
theorem mint_panics_of_reserve0_eq_zero (hfee : s.feeTo = s.address0)
    (hsupply : Assets.totalSupply s.assets s.assetId ≠ 0) (h0 : s.reserve0 = 0)
    (h1 : s.reserve1 ≤ s.balance1) (who recipient : AccountId) :
    ∃ s', (mint env T (.signed who) recipient).run s = .error .panic s' := by
  obtain ⟨s₁, hmint, hassets⟩ := run_mintFee_of_fee_off env hfee s.reserve0 s.reserve1
  have hsupply₁ : Assets.totalSupply s₁.assets s.assetId ≠ 0 := hassets ▸ hsupply
  have hamount0 : checkedSub s.balance0 s.reserve0 = some s.balance0 := by simp [checkedSub, h0]
  have hamount1 : checkedSub s.balance1 s.reserve1 = some (s.balance1 - s.reserve1) := by
    simp [checkedSub, h1]
  refine ⟨s₁, ?_⟩
  rw [mint, run_bind_ok (run_ensureSigned_signed who s), run_get_bind]
  simp only [hamount0, hamount1]
  rw [run_bind_ok run_okOr_some, run_bind_ok run_okOr_some, run_bind_ok hmint, run_get_bind]
  simp [divide, hsupply₁, h0]

end Divisions


/-! ## Runs in the runtime of the tests

`mock.rs` runs the pallet with existential deposit 1, asset deposits of 1
and metadata deposits of 1, `MinimumLiquidity` 1000, and 1,000,000 native
tokens for the accounts 1 and 2; its tests take 10 and 11 for `Token0` and
`Token1`, 12 for `FeeTo`, 13 for `Address0` and 14 for the `Treasury`. Its
genesis writes balances of the pallet's asset without its supply
(`Assets.genesis_supply_ne_balance`), so the runs here start from a chain
without assets and create and mint the asset by calls. `mint` cannot then
open the pair (with a supply, it divides by the zero reserves), so the
first `burn`, paid for by a native transfer to the `Treasury`, does: its
`update` stores the balances. -/

def pairEnv : Env ℕ (Ledger ℕ) := Ledger.env 1

def pairAssets : Assets.Config ℕ where
  assetDepositBase := 1
  assetDepositPerZombie := 1
  stringLimit := 50
  metadataDepositBase := 1
  metadataDepositPerByte := 1
  forceOrigin o := decide (o = .root)

def pairConfig : Config := ⟨1000⟩

def pairLedger : Ledger ℕ where
  free a := if a = 1 ∨ a = 2 then 1000000 else 0
  reserved _ := 0
  providers _ := 1
  consumers _ := 0
  blockNumber := 0
  now := 0

def pairGenesis : State ℕ (Ledger ℕ) := State.init 0 (Assets.State.empty pairLedger)

abbrev pairApply : Entry ℕ → PairCall ℕ (Ledger ℕ) Unit := Entry.apply pairEnv pairConfig pairAssets

/-- Account 1 creates the asset, mints `2^66` of it and sends `2^64` each to
`Token0` and `Token1`; root initialises the pair; account 1 sends 4 native
tokens to the `Treasury` and burns, which stores reserves of `2^64 - 1`. -/
def pairTrace : List (Entry ℕ) :=
  [.assets (.forceCreate .root 1 1 3 1), .assets (.mint (.signed 1) 1 1 (2 ^ 66)),
   .assets (.transfer (.signed 1) 1 10 (2 ^ 64)), .assets (.transfer (.signed 1) 1 11 (2 ^ 64)),
   .initialise .root 12 13 14 10 11, .transferNative (.signed 1) 14 4, .burn (.signed 1) 1]

/-- With reserves of `2^64 - 1`, both sides of the product check saturate.
For one token sent to `Token1`, a swap takes all but `2^50` of `Token0`, and
the product of the reserves falls from about `2^128` to `2^114`. -/
theorem swap_lowers_reserve_product :
    ∃ s s', Reachable pairApply (· = pairGenesis) s ∧
      (pairApply (.swap (.signed 1) (2 ^ 64 - 1 - 2 ^ 50) 0 2 [])).run s = .ok () s' ∧
      s'.reserve0 * s'.reserve1 < s.reserve0 * s.reserve1 := by
  have h : (execute pairApply (pairTrace ++ [.assets (.transfer (.signed 1) 1 11 1)]) pairGenesis).map
      (fun s => okAnd (fun s s' => s'.reserve0 * s'.reserve1 < s.reserve0 * s.reserve1) s
        ((pairApply (.swap (.signed 1) (2 ^ 64 - 1 - 2 ^ 50) 0 2 [])).run s)) = some true := by
    decide
  exact Reachable.exists_ok_of_execute rfl h

/-- A `mint` to `Token0` stores the balance it read before issuing to
`Token0`; a `burn` for an account that holds one LP token, while the
`Treasury` holds 4, burns that one token and pays out as for 4. -/
theorem mint_unsyncs_and_burn_overpays :
    (∃ s s', Reachable pairApply (· = pairGenesis) s ∧
      (pairApply (.mint (.signed 1) 10)).run s = .ok () s' ∧ ¬ Synced s') ∧
    (∃ s s', Reachable pairApply (· = pairGenesis) s ∧
      (pairApply (.burn (.signed 1) 3)).run s = .ok () s' ∧ ¬ PaysProRata s s') := by
  have hmint : (execute pairApply (pairTrace ++ [.assets (.transfer (.signed 1) 1 10 (2 ^ 20)),
      .assets (.transfer (.signed 1) 1 11 (2 ^ 20))]) pairGenesis).map
      (fun s => okAnd (fun _ s' => ¬ Synced s') s ((pairApply (.mint (.signed 1) 10)).run s)) =
      some true := by
    decide
  have hburn : (execute pairApply (pairTrace ++ [.assets (.transfer (.signed 1) 1 3 1)])
      pairGenesis).map
      (fun s => okAnd (fun s s' => ¬ PaysProRata s s') s ((pairApply (.burn (.signed 1) 3)).run s)) =
      some true := by
    decide
  exact ⟨Reachable.exists_ok_of_execute rfl hmint, Reachable.exists_ok_of_execute rfl hburn⟩

/-- On a chain without assets, `burn` divides by the zero supply of the
pallet's asset; once account 1 has created and minted 1000 of the asset,
`mint` divides by the zero reserves. -/
theorem pair_divides_by_zero :
    (∃ s s', Reachable pairApply (· = pairGenesis) s ∧
      (pairApply (.burn (.signed 1) 2)).run s = .error .panic s') ∧
    (∃ s s', Reachable pairApply (· = pairGenesis) s ∧
      (pairApply (.mint (.signed 1) 2)).run s = .error .panic s') := by
  constructor
  · obtain ⟨s', hburn⟩ := burn_panics_of_totalSupply_eq_zero pairEnv (s := pairGenesis) rfl rfl 1 2
    exact ⟨pairGenesis, s', Reachable.start rfl, hburn⟩
  · have h : (execute pairApply [.assets (.forceCreate .root 1 1 3 1), .assets (.mint (.signed 1) 1 1 1000)]
        pairGenesis).map (fun s => decide (s.feeTo = s.address0 ∧ Assets.totalSupply s.assets s.assetId ≠ 0 ∧
          s.reserve0 = 0 ∧ s.reserve1 ≤ s.balance1)) = some true := by
      decide
    obtain ⟨s, hs, hfee, hsupply, h0, h1⟩ : ∃ s, Reachable pairApply (· = pairGenesis) s ∧
        s.feeTo = s.address0 ∧ Assets.totalSupply s.assets s.assetId ≠ 0 ∧ s.reserve0 = 0 ∧
          s.reserve1 ≤ s.balance1 :=
      Reachable.exists_of_execute rfl h
    obtain ⟨s', hmint⟩ := mint_panics_of_reserve0_eq_zero pairEnv pairConfig hfee hsupply h0 h1 1 2
    exact ⟨s, s', hs, hmint⟩

end SocialNetwork.SocialSwap2
