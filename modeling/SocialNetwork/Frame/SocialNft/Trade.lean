import SocialNetwork.Frame.SocialNft.Ownership

/-!
# Settlement of a trade

`set_bid` trades when a bid beats the ask. `execute_trade` pays the creator
its royalty share and the owner the rest with `do_transfer`, and gives the
token to the bidder. It acts only on tokens without royalty, so the
creator's share is a transfer of nothing, and it drops the results of both
payments.

A payment of nothing, or of more than the payer holds, fails before it
writes anything (`run_doTransfer_of_unpaid`). A bidder who cannot pay gets
the token, and every balance stays as it was (`run_executeTrade_of_unpaid`,
`run_setBidToken_of_unpaid`). In the test runtime, account 3 holds 2
units of an existing asset, bids 6 on an ask of 5, and takes the token
without paying (`bid_takes_token_unpaid`).
-/

namespace SocialNetwork.SocialNft

open Dispatch Unsigned

variable {AccountId E : Type} [DecidableEq AccountId] [Inhabited AccountId]

omit [Inhabited AccountId] in
/-- `do_transfer` of nothing, or of more than the source holds, returns an
error and writes nothing. -/
theorem run_doTransfer_of_unpaid (env : Env AccountId E) {s : Assets.State AccountId E} {id : ℕ}
    {source dest : AccountId} {amount : ℕ}
    (h : amount = 0 ∨ (s.getAccount id source).balance < amount) :
    ∃ e, (Assets.doTransfer env id source dest amount).run s = .error (.error e) s := by
  unfold Assets.doTransfer
  rcases h with rfl | hlow
  · exact ⟨_, run_bind_error (run_ensure_neg (by simp))⟩
  · rw [run_bind_ok (run_ensure_pos (by omega : amount ≠ 0)), run_get_bind]
    by_cases hfrozen : (s.getAccount id source).isFrozen = false
    · -- the source holds too little: the checked subtraction fails
      rw [run_bind_ok (run_ensure_pos hfrozen)]
      have hsub : checkedSub (s.getAccount id source).balance amount = none :=
        checkedSub_eq_none_iff.mpr hlow
      simp only [hsub]
      exact ⟨_, run_bind_error run_okOr_none⟩
    · exact ⟨_, run_bind_error (run_ensure_neg hfrozen)⟩

omit [DecidableEq AccountId] [Inhabited AccountId] in
/-- A payment into `pallet_assets` that fails before writing, with its
result dropped, leaves the state as it was. -/
theorem run_dropResult_onAssets_of_error {s : State AccountId E} {m : Assets.AssetsCall AccountId E Unit}
    {e : DispatchError} (h : m.run s.assets = .error (.error e) s.assets) :
    (dropResult (onAssets m)).run s = .ok () s := by
  rw [run_dropResult]
  simp only [onAssets, run_zoom, h]

/-- A trade on a token without royalty, by a bidder holding less of the
asset than the bid, gives the bidder the token and pays nobody. -/
theorem run_executeTrade_of_unpaid (env : Env AccountId E) {s : State AccountId E} {id : NftId}
    {nft : Erc721Token} (hnft : s.tokens.lookup id = some nft) (hroyalty : nft.royalty = 0)
    {sender : AccountId} {tokenId amount : ℕ} (hamount : amount ≤ maxValue balanceBits)
    (hlow : (s.assets.getAccount tokenId sender).balance < amount) :
    (executeTrade env sender id tokenId amount).run s =
      .ok () { s with
        tokenCreatorAndOwner := s.tokenCreatorAndOwner.insert id ((ownerOf s id).1, sender) } := by
  -- the creator's share is nothing, and the owner's is the whole bid
  have hcreator : saturatingMul balanceBits amount nft.royalty = 0 := by
    simp [hroyalty, saturatingMul]
  have howner : saturatingMul balanceBits amount (saturatingSub 1 nft.royalty) = amount := by
    rw [hroyalty, saturatingSub, Nat.sub_zero, saturatingMul_of_le (by omega), Nat.mul_one]
  have hpay₁ : ∃ e, (Assets.doTransfer env tokenId sender (ownerOf s id).1
      (saturatingMul balanceBits amount nft.royalty)).run s.assets = .error (.error e) s.assets :=
    run_doTransfer_of_unpaid env (.inl hcreator)
  have hpay₂ : ∃ e, (Assets.doTransfer env tokenId sender (ownerOf s id).2
      (saturatingMul balanceBits amount (saturatingSub 1 nft.royalty))).run s.assets =
        .error (.error e) s.assets :=
    run_doTransfer_of_unpaid env (.inr (by rw [howner]; exact hlow))
  obtain ⟨e₁, hpay₁⟩ := hpay₁
  obtain ⟨e₂, hpay₂⟩ := hpay₂
  unfold executeTrade
  rw [run_get_bind, run_bind_ok (by rw [hnft]; exact run_okOr_some)]
  dsimp only
  rw [if_pos hroyalty, run_bind_ok (run_dropResult_onAssets_of_error hpay₁),
    run_bind_ok (run_dropResult_onAssets_of_error hpay₂)]
  rfl

/-- `set_bid` above the ask, within the deadline, on a token without
royalty, by a bidder holding less than the bid: the bidder becomes the owner
and no balance moves. -/
theorem run_setBidToken_of_unpaid (env : Env AccountId E) {s : State AccountId E} {id : NftId}
    {nft : Erc721Token} (hnft : s.tokens.lookup id = some nft) (hroyalty : nft.royalty = 0)
    {sender : AccountId} {tokenId amount deadLine : ℕ}
    (hask : (s.tokenAskAmount id tokenId).1 ≠ 0) (hbid : amount > (s.tokenAskAmount id tokenId).1)
    (hdeadline : deadLine ≥ env.now s.assets.env) (hamount : amount ≤ maxValue balanceBits)
    (hlow : (s.assets.getAccount tokenId sender).balance < amount) :
    (setBidToken env sender id tokenId amount deadLine).run s =
      .ok () { s with
        tokenCreatorAndOwner := s.tokenCreatorAndOwner.insert id ((ownerOf s id).1, sender) } := by
  unfold setBidToken
  rw [run_get_bind, run_bind_ok (run_ensure_pos hask), if_pos ⟨hbid, hdeadline⟩, run_dropResult,
    run_executeTrade_of_unpaid env hnft hroyalty hamount hlow]

/-- Account 1 creates asset 7 and mints 2 units of it to account 3, mints
token 0 to itself without royalty and asks 5 of asset 7 for it. Account 3
bids 6: the call returns `Ok` and account 3 owns the token, while account
3 still holds its 2 units and account 1 has received none. -/
theorem bid_takes_token_unpaid :
    ∃ s s', Reachable nftApply (· = nftGenesis) s ∧
      (nftApply (.setBid (.signed 3) 0 7 6 0)).run s = .ok () s' ∧
      (s.assets.asset 7).isSome ∧ (s.tokenAskAmount 0 7).1 = 5 ∧
      (ownerOf s 0).2 = 1 ∧ (ownerOf s' 0).2 = 3 ∧
      (s.assets.getAccount 7 3).balance = 2 ∧ (s'.assets.getAccount 7 3).balance = 2 ∧
      (s'.assets.getAccount 7 1).balance = 0 := by
  have h : (execute nftApply [.assets (.create (.signed 1) 7 1 10 1),
      .assets (.mint (.signed 1) 7 3 2), .mint (.signed 1) 1 0 [] 0,
      .setAsk (.signed 1) 0 7 5] nftGenesis).map
      (fun s => okAnd (fun s s' => (s.assets.asset 7).isSome ∧ (s.tokenAskAmount 0 7).1 = 5 ∧
        (ownerOf s 0).2 = 1 ∧ (ownerOf s' 0).2 = 3 ∧
        (s.assets.getAccount 7 3).balance = 2 ∧ (s'.assets.getAccount 7 3).balance = 2 ∧
        (s'.assets.getAccount 7 1).balance = 0) s
        ((nftApply (.setBid (.signed 3) 0 7 6 0)).run s)) = some true := by
    decide
  exact Reachable.exists_ok_of_execute rfl h

end SocialNetwork.SocialNft
