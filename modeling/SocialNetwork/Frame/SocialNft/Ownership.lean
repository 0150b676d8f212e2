import SocialNetwork.Frame.SocialNft.Registry

/-!
# Who can take a token from its owner

A token leaves its owner through four calls. Two of them check the signer
against the owner: `transfer`, through `transfer_from`, and the bridge's
`transfer_erc721`, through `burn_token`. The other two do not. `burn` looks
up the owner and burns on the owner's behalf, so any signed origin burns
any token. `set_bid` trades at once when the bid beats the ask recorded
under the token and the asset. It never checks who recorded that ask, and
an ask outlives the ownership of whoever set it.

`Retained s id s'`: the token `id` of `s` is still in `s'`, with its owner.
`MayTake` lists the calls that may end that, and the main result says that
no other call does, from any state.
-/

namespace SocialNetwork.SocialNft

open Dispatch Unsigned

variable {AccountId E : Type} [DecidableEq AccountId] [Inhabited AccountId]

def Retained (s : State AccountId E) (id : NftId) (s' : State AccountId E) : Prop :=
  id ∈ s'.tokens ∧ (ownerOf s' id).2 = (ownerOf s id).2

instance (s : State AccountId E) (id : NftId) (s' : State AccountId E) :
    Decidable (Retained s id s') :=
  inferInstanceAs (Decidable (_ ∧ _))

/-- The calls that may take the token `id` of `s` from its owner: a
transfer or a bridge transfer of it signed by the owner, a burn of it signed
by anyone, and a bid on it above a standing ask, within the deadline, on a
token without royalty. -/
def MayTake (env : Env AccountId E) (s : State AccountId E) (id : NftId) :
    SocialBridge.Entry AccountId → Prop
  | .transfer (.signed who) _ i => i = id ∧ who = (ownerOf s id).2
  | .burn (.signed _) i => i = id
  | .setBid (.signed _) i tokenId amount deadLine =>
      i = id ∧ (s.tokenAskAmount id tokenId).1 ≠ 0 ∧ (s.tokenAskAmount id tokenId).1 < amount ∧
        env.now s.assets.env ≤ deadLine ∧ (s.tokens.lookup id).map Erc721Token.royalty = some 0
  | .transferErc721 (.signed who) _ i _ => i = id ∧ who = (ownerOf s id).2
  | _ => False

/-! ## The writes -/

section Writes

variable {s s₁ s₂ : State AccountId E} {id i : NftId}

omit [DecidableEq AccountId] in
theorem Retained.refl (hid : id ∈ s.tokens) : Retained s id s := ⟨hid, rfl⟩

omit [DecidableEq AccountId] in
theorem Retained.of_lookup (h : Retained s id s₁) (ht : id ∈ s₁.tokens → id ∈ s₂.tokens)
    (ho : s₂.tokenCreatorAndOwner.lookup id = s₁.tokenCreatorAndOwner.lookup id) :
    Retained s id s₂ := by
  refine ⟨ht h.1, ?_⟩
  rw [ownerOf, ho]
  exact h.2

omit [DecidableEq AccountId] in
theorem Retained.of_registry_eq (h : Retained s id s₁) (he : s₂.registry = s₁.registry) :
    Retained s id s₂ := by
  simp only [State.registry, Prod.mk.injEq] at he
  exact h.of_lookup (fun h' => he.1 ▸ h') (by rw [he.2.1])

omit [DecidableEq AccountId] in
theorem Retained.of_keeps {α : Type} (h : Retained s id s₁) {m : NftCall AccountId E α}
    (hm : Keeps State.registry m) : Wp m (fun _ => Retained s id) (fun _ => Retained s id) s₁ :=
  hm.wp.mono (fun _ _ he => h.of_registry_eq he) (fun _ _ he => h.of_registry_eq he)

omit [DecidableEq AccountId] in
theorem setOwner_retains (h : Retained s id s₁) (hi : i ≠ id) (dest : AccountId) :
    Wp (setOwner i dest) (fun _ => Retained s id) (fun _ => Retained s id) s₁ := by
  rw [wp_setOwner]
  exact h.of_lookup (fun h' => h') (Finmap.lookup_insert_of_ne _ (Ne.symm hi))

omit [DecidableEq AccountId] in
theorem mintToken_retains (h : Retained s id s₁) (owner : AccountId) (i : NftId)
    (metadata : List UInt8) (royalty : ℕ) :
    Wp (mintToken owner i metadata royalty) (fun _ => Retained s id) (fun _ => Retained s id) s₁ := by
  unfold mintToken
  rw [wp_bind, wp_get]
  refine wp_ensure_bind (fun hfresh => ?_) (fun _ => h)
  have hne : i ≠ id := fun hi => hfresh (hi ▸ h.1)
  simp only [wp_bind, wp_modify]
  split_ifs <;>
    exact h.of_lookup (fun h' => Finmap.mem_insert.mpr (Or.inr h'))
      (Finmap.lookup_insert_of_ne _ (Ne.symm hne))

theorem transferFrom_retains (h : Retained s id s₁) (source dest : AccountId)
    (hne : i = id → (ownerOf s₁ id).2 ≠ source) :
    Wp (transferFrom source dest i) (fun _ => Retained s id) (fun _ => Retained s id) s₁ := by
  unfold transferFrom
  rw [wp_bind, wp_get]
  refine wp_ensure_bind (fun _ => ?_) (fun _ => h)
  refine wp_ensure_bind (fun hown => ?_) (fun _ => h)
  have hi : i ≠ id := fun hi => hne hi (hi ▸ hown)
  exact setOwner_retains h hi dest

theorem burnToken_retains (h : Retained s id s₁) (source : AccountId)
    (hne : i = id → (ownerOf s₁ id).2 ≠ source) :
    Wp (burnToken source i) (fun _ => Retained s id) (fun _ => Retained s id) s₁ := by
  unfold burnToken
  rw [wp_bind, wp_get]
  refine wp_ensure_bind (fun _ => ?_) (fun _ => h)
  refine wp_ensure_bind (fun hown => ?_) (fun _ => h)
  have hi : i ≠ id := fun hi => hne hi (hi ▸ hown)
  simp only [wp_bind, wp_modify]
  exact h.of_lookup (fun h' => Finmap.mem_erase.mpr ⟨Ne.symm hi, h'⟩)
    (Finmap.lookup_erase_ne (Ne.symm hi))

/-- `execute_trade` hands over the token it trades when that token has no
royalty, whoever the buyer. -/
theorem executeTrade_retains (env : Env AccountId E) (h : Retained s id s₁) (sender : AccountId)
    (tokenId amount : ℕ) (hne : i = id → ∀ nft, s₁.tokens.lookup id = some nft → nft.royalty ≠ 0) :
    Wp (executeTrade env sender i tokenId amount) (fun _ => Retained s id)
      (fun _ => Retained s id) s₁ := by
  unfold executeTrade
  rw [wp_bind, wp_get, wp_bind]
  cases hnft : s₁.tokens.lookup i with
  | none => exact h
  | some nft =>
      rw [wp_okOr_some]
      generalize ownerOf s₁ i = owners
      rcases owners with ⟨creator, owner⟩
      dsimp only
      split_ifs with hroyalty
      · have hi : i ≠ id := fun hi => hne hi nft (hi ▸ hnft) hroyalty
        rw [wp_bind]
        refine wp_dropResult_onAssets _ fun t => ?_
        rw [wp_bind]
        refine wp_dropResult_onAssets _ fun t' => ?_
        refine setOwner_retains ?_ hi sender
        exact h.of_registry_eq rfl
      · exact h

end Writes

/-! ## Every other call retains the token -/

section Calls

variable (env : Env AccountId E) (TA : Assets.Config AccountId) (T : SocialBridge.Config AccountId)
variable {s : State AccountId E} {id : NftId}

/-- A bid that does not beat a standing ask on the token, in time, on a
token without royalty, leaves its owner in place. -/
theorem setBidToken_retains (hid : id ∈ s.tokens) (sender : AccountId) (i : NftId)
    (tokenId amount deadLine : ℕ)
    (hne : ¬ (i = id ∧ (s.tokenAskAmount id tokenId).1 ≠ 0 ∧ (s.tokenAskAmount id tokenId).1 < amount ∧
      env.now s.assets.env ≤ deadLine ∧ (s.tokens.lookup id).map Erc721Token.royalty = some 0)) :
    Wp (setBidToken env sender i tokenId amount deadLine) (fun _ => Retained s id)
      (fun _ => Retained s id) s := by
  unfold setBidToken
  rw [wp_bind, wp_get]
  refine wp_ensure_bind (fun hask => ?_) (fun _ => Retained.refl hid)
  dsimp only
  split_ifs with hwin
  · rw [wp_dropResult]
    refine executeTrade_retains env (Retained.refl hid) sender tokenId amount ?_
    intro hi nft hnft hroyalty
    subst hi
    exact hne ⟨rfl, hask, hwin.1, hwin.2, by simp [hnft, hroyalty]⟩
  · exact (Retained.refl hid).of_registry_eq rfl

/-- Every call but those of `MayTake` leaves the token `id` with its owner,
however it ends. -/
theorem entry_retains (e : SocialBridge.Entry AccountId) (hid : id ∈ s.tokens)
    (hm : ¬ MayTake env s id e) :
    Wp (e.apply env TA T) (fun _ => Retained s id) (fun _ => Retained s id) s := by
  have hs : Retained s id s := Retained.refl hid
  cases e with
  | mint o owner i metadata royalty =>
      exact wp_ensureSigned_bind (fun _ => mintToken_retains hs owner i metadata royalty) hs
  | transfer o dest i =>
      refine wp_ensureSigned_bind_signed (fun who ho => ?_) hs
      subst ho
      exact transferFrom_retains hs who dest fun hi howner => hm ⟨hi, howner.symm⟩
  | burn o i =>
      refine wp_ensureSigned_bind_signed (fun who ho => ?_) hs
      subst ho
      -- any signer burns any token, so only a burn of another one is left
      have hi : i ≠ id := hm
      rw [wp_bind, wp_get]
      exact wp_ensure_bind (fun _ => burnToken_retains hs _ fun h => absurd h hi) (fun _ => hs)
  | setAsk o nftId tokenId amount => exact hs.of_keeps (keeps_setAsk o nftId tokenId amount)
  | setBid o i tokenId amount deadLine =>
      refine wp_ensureSigned_bind_signed (fun who ho => ?_) hs
      subst ho
      rw [wp_bind, wp_get]
      exact wp_ensure_bind (fun _ => setBidToken_retains env hid who i tokenId amount deadLine hm)
        (fun _ => hs)
  | removeBid o nftId => exact hs.of_keeps (keeps_removeBid o nftId)
  | transferErc721 o recipient i destId =>
      refine wp_ensureSigned_bind_signed (fun who ho => ?_) hs
      subst ho
      rw [wp_bind, wp_get]
      refine wp_ensure_bind (fun _ => ?_) (fun _ => hs)
      split
      · -- the burn checks the owner; emitting the token only bumps a nonce
        rw [wp_bind]
        exact (burnToken_retains hs who fun hi howner => hm ⟨hi, howner.symm⟩).mono
          (fun _ _ h => h.of_keeps (keeps_transferNonfungible destId)) (fun _ _ h => h)
      · exact hs
  | mintErc721 o recipient i metadata royalty =>
      exact SocialBridge.wp_ensureBridge_bind T
        (fun _ => mintToken_retains hs recipient i metadata royalty) hs
  | whitelistChain o chain => exact hs.of_keeps (keeps_whitelistChain T o chain)
  | assets c => exact hs.of_keeps (keeps_onAssets _)

/-- A call that ends, `Ok` or `Err`, with the token `id` of `s` burnt or
with another owner is one of those `MayTake` lists. -/
theorem owner_changes_only_by_mayTake (e : SocialBridge.Entry AccountId)
    (s s' : State AccountId E) (id : NftId) (hid : id ∈ s.tokens)
    (hl : Leaves (e.apply env TA T) s s') (hchange : ¬ Retained s id s') : MayTake env s id e := by
  by_contra hm
  exact hchange (Leaves.of_wp (entry_retains env TA T e hid hm) hl)

end Calls

/-! ## Runs of the test runtime -/

/-- After account 1 mints token 0 to itself, account 2's burn of it is a
call `MayTake` lists. -/
theorem stranger_burn_mayTake :
    MayTake nftEnv (after ((nftApply (.mint (.signed 1) 1 0 [] 0)).run nftGenesis)) 0
      (.burn (.signed 2) 0) :=
  owner_changes_only_by_mayTake nftEnv nftAssets nftBridge (.burn (.signed 2) 0)
    (after ((nftApply (.mint (.signed 1) 1 0 [] 0)).run nftGenesis))
    (after ((nftApply (.burn (.signed 2) 0)).run
      (after ((nftApply (.mint (.signed 1) 1 0 [] 0)).run nftGenesis))))
    0 (by decide) (Or.inl ⟨(), rfl⟩) (by decide)

/-- Account 1 mints token 0 to itself, and account 2, which never owned it,
burns it. Or: account 1 mints token 0, asks 5 of the asset 7 for it and
gives it to account 2, and account 3 takes it from account 2 with a bid of
6 on the ask account 1 left. The asset does not exist, so neither payment
goes through, and `set_bid` drops their errors. -/
theorem stranger_takes_token :
    (∃ s s', Reachable nftApply (· = nftGenesis) s ∧
      (nftApply (.burn (.signed 2) 0)).run s = .ok () s' ∧
      0 ∈ s.tokens ∧ (ownerOf s 0).2 = 1 ∧ 0 ∉ s'.tokens) ∧
    (∃ s s', Reachable nftApply (· = nftGenesis) s ∧
      (nftApply (.setBid (.signed 3) 0 7 6 0)).run s = .ok () s' ∧
      (ownerOf s 0).2 = 2 ∧ (s.tokenAskAmount 0 7).2 = 1 ∧ (ownerOf s' 0).2 = 3) := by
  constructor
  · have h : (execute nftApply [.mint (.signed 1) 1 0 [] 0] nftGenesis).map
        (fun s => okAnd (fun s s' => 0 ∈ s.tokens ∧ (ownerOf s 0).2 = 1 ∧ 0 ∉ s'.tokens) s
          ((nftApply (.burn (.signed 2) 0)).run s)) = some true := by
      decide
    exact Reachable.exists_ok_of_execute rfl h
  · have h : (execute nftApply [.mint (.signed 1) 1 0 [] 0, .setAsk (.signed 1) 0 7 5,
        .transfer (.signed 1) 2 0] nftGenesis).map
        (fun s => okAnd (fun s s' => (ownerOf s 0).2 = 2 ∧ (s.tokenAskAmount 0 7).2 = 1 ∧
          (ownerOf s' 0).2 = 3) s ((nftApply (.setBid (.signed 3) 0 7 6 0)).run s)) = some true := by
      decide
    exact Reachable.exists_ok_of_execute rfl h

end SocialNetwork.SocialNft
