import SocialNetwork.Frame.SocialNft.Bridge

/-!
# The token registry of `pallet_social_nft`

`Tokens`, `TokenCreatorAndOwner`, `TokenCount` and `MaxTokenId` are written
together by `mint_token` and `burn_token`, and `TokenCreatorAndOwner` alone by
`transfer_from` and `execute_trade`, which only overwrite an existing entry.
`Registry` is what these writes keep together in every reachable state: the
two maps have one key set, each token records its own id, `MaxTokenId`
bounds every id, and `TokenCount` is the number of tokens or one less.

`TokenCount` saturates at `U256::MAX`, one below the number of ids, so once
every id has been minted the count is one short of the tokens, and burning
from there keeps it one short below `2 ^ 256` tokens too: the state alone does
not say whether the count is exact. A run does: along one that never holds
every id, the count is the number of tokens. Both follow from one
description of the writes, `RegistryRule`, which every call obeys.
-/
namespace SocialNetwork.SocialNft

open Dispatch Unsigned StorageMap

section Writes

variable {AccountId E : Type}

/-- The registry's bookkeeping. -/
structure Registry (s : State AccountId E) : Prop where
  keys_eq : s.tokens.keys = s.tokenCreatorAndOwner.keys
  id_eq : ∀ id t, s.tokens.lookup id = some t → t.id = id
  le_max : ∀ id ∈ s.tokens, id ≤ s.maxTokenId
  count_le : s.tokenCount ≤ s.tokens.keys.card
  card_le : s.tokens.keys.card ≤ s.tokenCount + 1

def State.registry (s : State AccountId E) :
    StorageMap NftId Erc721Token × StorageMap NftId (AccountId × AccountId) × ℕ × NftId :=
  (s.tokens, s.tokenCreatorAndOwner, s.tokenCount, s.maxTokenId)

variable {s s' : State AccountId E} {id : NftId}

theorem registry_init (assets : Assets.State AccountId E) [Inhabited AccountId] :
    Registry (State.init assets) where
  keys_eq := rfl
  id_eq _ _ h := by simp [State.init] at h
  le_max _ h := absurd h (Finmap.notMem_empty)
  count_le := le_rfl
  card_le := Nat.zero_le _

theorem Registry.of_registry_eq (hs : Registry s) (h : s'.registry = s.registry) : Registry s' := by
  rcases s with ⟨_, _, _, _, _, _, _, _⟩
  rcases s' with ⟨_, _, _, _, _, _, _, _⟩
  simp only [State.registry, Prod.mk.injEq] at h
  obtain ⟨rfl, rfl, rfl, rfl⟩ := h
  exact ⟨hs.keys_eq, hs.id_eq, hs.le_max, hs.count_le, hs.card_le⟩

theorem Registry.mem_owners (hs : Registry s) (h : id ∈ s.tokens) : id ∈ s.tokenCreatorAndOwner := by
  rw [← Finmap.mem_keys, ← hs.keys_eq, Finmap.mem_keys]
  exact h

/-- `mint_token`'s writes, at an id without a token: the id joins both key
sets, the count goes up by one unless it is saturated, and `MaxTokenId`
reaches the id. -/
theorem card_keys_of_insert (hid : id ∉ s.tokens) {token : Erc721Token}
    (ht : s'.tokens = s.tokens.insert id token) : s'.tokens.keys.card = s.tokens.keys.card + 1 := by
  rw [ht, keys_insert, Finset.card_insert_of_notMem (mt Finmap.mem_keys.mp hid)]

theorem card_keys_of_erase (hs : Registry s) (hid : id ∈ s.tokenCreatorAndOwner)
    (ht : s'.tokens = s.tokens.erase id) : s'.tokens.keys.card + 1 = s.tokens.keys.card := by
  have hkeys : id ∈ s.tokens.keys := by
    rw [hs.keys_eq, Finmap.mem_keys]
    exact hid
  rw [ht, Finmap.keys_erase, Finset.card_erase_add_one hkeys]

theorem Registry.mint (hs : Registry s) (hid : id ∉ s.tokens) {token : Erc721Token}
    {owners : AccountId × AccountId} (htoken : token.id = id)
    (ht : s'.tokens = s.tokens.insert id token)
    (ho : s'.tokenCreatorAndOwner = s.tokenCreatorAndOwner.insert id owners)
    (hc : s'.tokenCount = saturatingAdd 256 s.tokenCount 1)
    (hmax : id ≤ s'.maxTokenId) (hmax' : s.maxTokenId ≤ s'.maxTokenId) : Registry s' := by
  -- the fresh id leaves room below `2 ^ 256` for the count's bound
  have hlt : s.tokens.keys.card < 2 ^ 256 := by
    simpa using Finset.card_lt_univ_of_notMem (mt Finmap.mem_keys.mp hid)
  have hcard := card_keys_of_insert hid ht
  have hcount := hs.count_le
  have hcard' := hs.card_le
  refine ⟨?_, ?_, ?_, ?_, ?_⟩
  · rw [ht, ho, keys_insert, keys_insert, hs.keys_eq]
  · intro i t h
    rw [ht] at h
    by_cases hi : i = id
    · subst hi
      rw [Finmap.lookup_insert] at h
      cases h
      exact htoken
    · rw [Finmap.lookup_insert_of_ne _ hi] at h
      exact hs.id_eq i t h
  · intro i h
    rw [ht, Finmap.mem_insert] at h
    rcases h with rfl | h
    · exact hmax
    · exact (hs.le_max i h).trans hmax'
  · rw [hcard, hc, saturatingAdd]
    omega
  · rw [hcard, hc, saturatingAdd, maxValue]
    omega

/-- `burn_token`'s writes, at an id with an owner: the id leaves both key
sets and the count goes down by one. -/
theorem Registry.burn (hs : Registry s) (hid : id ∈ s.tokenCreatorAndOwner)
    (ht : s'.tokens = s.tokens.erase id)
    (ho : s'.tokenCreatorAndOwner = s.tokenCreatorAndOwner.erase id)
    (hc : s'.tokenCount = saturatingSub s.tokenCount 1) (hmax : s'.maxTokenId = s.maxTokenId) :
    Registry s' := by
  have hcard := card_keys_of_erase hs hid ht
  have hcount := hs.count_le
  have hcard' := hs.card_le
  refine ⟨?_, ?_, ?_, ?_, ?_⟩
  · rw [ht, ho, Finmap.keys_erase, Finmap.keys_erase, hs.keys_eq]
  · intro i t h
    rw [ht] at h
    by_cases hi : i = id
    · subst hi
      rw [Finmap.lookup_erase] at h
      cases h
    · rw [Finmap.lookup_erase_ne hi] at h
      exact hs.id_eq i t h
  · intro i h
    rw [ht, Finmap.mem_erase] at h
    rw [hmax]
    exact hs.le_max i h.2
  · rw [hc, saturatingSub]
    omega
  · rw [hc, saturatingSub]
    omega

theorem Registry.setOwner (hs : Registry s) (hid : id ∈ s.tokenCreatorAndOwner)
    (owners : AccountId × AccountId) :
    Registry { s with tokenCreatorAndOwner := s.tokenCreatorAndOwner.insert id owners } := by
  have hkeys : (s.tokenCreatorAndOwner.insert id owners).keys = s.tokenCreatorAndOwner.keys := by
    rw [keys_insert, Finset.insert_eq_of_mem (Finmap.mem_keys.mpr hid)]
  exact ⟨hs.keys_eq.trans hkeys.symm, hs.id_eq, hs.le_max, hs.count_le, hs.card_le⟩

theorem tokens_eq_of_registry_eq (h : s'.registry = s.registry) : s'.tokens = s.tokens :=
  congrArg Prod.fst h

theorem counted_of_registry_eq (hc : s.tokenCount = s.tokens.keys.card)
    (h : s'.registry = s.registry) : s'.tokenCount = s'.tokens.keys.card := by
  rw [tokens_eq_of_registry_eq h, ← hc]
  exact congrArg (fun r => r.2.2.1) h

/-- **The registry's writes.** A property `Pre` of the state before a call and
`Post` of the state after it, both of the registry alone, such that
`mint_token`'s writes at a fresh id, `burn_token`'s at an owned one and
`TokenCreatorAndOwner::mutate` at an existing entry each take a `Pre` state to
a `Post` one. -/
structure RegistryRule (Pre Post : State AccountId E → Prop) : Prop where
  registry : ∀ {s}, Pre s → Registry s
  pre_congr : ∀ {s s'}, Pre s → s'.registry = s.registry → Pre s'
  post_congr : ∀ {s s'}, Post s → s'.registry = s.registry → Post s'
  post_of_pre : ∀ {s}, Pre s → Post s
  mint : ∀ {s s' : State AccountId E} {id : NftId} {token : Erc721Token}
    {owners : AccountId × AccountId}, Pre s → id ∉ s.tokens → token.id = id →
    s'.tokens = s.tokens.insert id token →
    s'.tokenCreatorAndOwner = s.tokenCreatorAndOwner.insert id owners →
    s'.tokenCount = saturatingAdd 256 s.tokenCount 1 → id ≤ s'.maxTokenId →
    s.maxTokenId ≤ s'.maxTokenId → Post s'
  burn : ∀ {s s' : State AccountId E} {id : NftId}, Pre s → id ∈ s.tokenCreatorAndOwner →
    s'.tokens = s.tokens.erase id → s'.tokenCreatorAndOwner = s.tokenCreatorAndOwner.erase id →
    s'.tokenCount = saturatingSub s.tokenCount 1 → s'.maxTokenId = s.maxTokenId → Post s'
  setOwner : ∀ {s : State AccountId E} {id : NftId} (owners : AccountId × AccountId), Pre s →
    id ∈ s.tokenCreatorAndOwner →
    Post { s with tokenCreatorAndOwner := s.tokenCreatorAndOwner.insert id owners }

theorem Registry.rule : RegistryRule (@Registry AccountId E) Registry where
  registry h := h
  pre_congr h he := h.of_registry_eq he
  post_congr h he := h.of_registry_eq he
  post_of_pre h := h
  mint h hid htoken ht ho hc hmax hmax' := h.mint hid htoken ht ho hc hmax hmax'
  burn h := h.burn
  setOwner owners h hid := h.setOwner hid owners

/-- An exact count stays exact through a write that leaves fewer than
`2 ^ 256` tokens: a mint then stays below `U256::MAX`, so it adds one. -/
theorem counted_rule :
    RegistryRule (fun s : State AccountId E => Registry s ∧ s.tokenCount = s.tokens.keys.card)
      (fun s => s.tokens.keys.card < 2 ^ 256 → Registry s ∧ s.tokenCount = s.tokens.keys.card) where
  registry h := h.1
  pre_congr h he := ⟨h.1.of_registry_eq he, counted_of_registry_eq h.2 he⟩
  post_congr h he hlt := by
    rw [tokens_eq_of_registry_eq he] at hlt
    exact ⟨(h hlt).1.of_registry_eq he, counted_of_registry_eq (h hlt).2 he⟩
  post_of_pre h _ := h
  mint h hid htoken ht ho hc hmax hmax' hlt := by
    refine ⟨h.1.mint hid htoken ht ho hc hmax hmax', ?_⟩
    have hcard := card_keys_of_insert hid ht
    rw [hc, saturatingAdd, maxValue, h.2]
    omega
  burn h hid ht ho hc hmax _ := by
    refine ⟨h.1.burn hid ht ho hc hmax, ?_⟩
    have hcard := card_keys_of_erase h.1 hid ht
    rw [hc, saturatingSub, h.2]
    omega
  setOwner owners h hid _ := ⟨h.1.setOwner hid owners, h.2⟩

variable {Pre Post : State AccountId E → Prop}

theorem RegistryRule.keeps (R : RegistryRule Pre Post) {α : Type} (hs : Pre s)
    {m : NftCall AccountId E α} (hm : Keeps State.registry m) :
    Wp m (fun _ => Post) (fun _ => Post) s :=
  hm.wp.mono (fun _ _ h => R.post_of_pre (R.pre_congr hs h))
    (fun _ _ h => R.post_of_pre (R.pre_congr hs h))

end Writes

/-! ## Every call obeys the rule -/

section Calls

variable {AccountId E : Type} [DecidableEq AccountId] [Inhabited AccountId]
variable (env : Env AccountId E) (TA : Assets.Config AccountId) (T : SocialBridge.Config AccountId)
variable {s : State AccountId E} {Pre Post : State AccountId E → Prop}

omit [DecidableEq AccountId] [Inhabited AccountId] in
theorem wp_dropResult_onAssets {α : Type} {Q : Unit → State AccountId E → Prop}
    {R : DispatchError → State AccountId E → Prop} (m : Assets.AssetsCall AccountId E α)
    (h : ∀ t, Q () { s with assets := t }) : Wp (dropResult (onAssets m)) Q R s := by
  rw [wp_dropResult, onAssets, wp_zoom]
  exact Wp.of_forall (fun _ t => h t) (fun _ t => h t)

omit [DecidableEq AccountId] [Inhabited AccountId] in
theorem keeps_onAssets {α : Type} (m : Assets.AssetsCall AccountId E α) :
    Keeps State.registry (onAssets m) :=
  keeps_zoom m fun _ _ => rfl

omit [DecidableEq AccountId] in
@[simp] theorem wp_setOwner {Q : Unit → State AccountId E → Prop}
    {R : DispatchError → State AccountId E → Prop} (id : NftId) (dest : AccountId) :
    Wp (setOwner id dest) Q R s =
      Q () { s with tokenCreatorAndOwner := s.tokenCreatorAndOwner.insert id ((ownerOf s id).1, dest) } :=
  rfl

omit [DecidableEq AccountId] in
theorem setOwner_rule (R : RegistryRule Pre Post) (hs : Pre s) {id : NftId} (hid : id ∈ s.tokenCreatorAndOwner)
    (dest : AccountId) : Wp (setOwner id dest) (fun _ => Post) (fun _ => Post) s :=
  R.setOwner _ hs hid

omit [DecidableEq AccountId] [Inhabited AccountId] in
theorem mintToken_rule (R : RegistryRule Pre Post) (hs : Pre s) (owner : AccountId) (id : NftId)
    (metadata : List UInt8) (royalty : ℕ) :
    Wp (mintToken owner id metadata royalty) (fun _ => Post) (fun _ => Post) s := by
  unfold mintToken
  rw [wp_bind, wp_get]
  refine wp_ensure_bind (fun hid => ?_) (fun _ => R.post_of_pre hs)
  simp only [wp_bind, wp_modify]
  split_ifs with hlt
  · exact R.mint hs hid rfl rfl rfl rfl le_rfl hlt.le
  · exact R.mint hs hid rfl rfl rfl rfl (not_lt.mp hlt) le_rfl

theorem burnToken_rule (R : RegistryRule Pre Post) (hs : Pre s) (source : AccountId) (id : NftId) :
    Wp (burnToken source id) (fun _ => Post) (fun _ => Post) s := by
  simp only [burnToken, wp_bind, wp_get, wp_ensure, wp_modify]
  split_ifs with hid
  · exact R.burn hs hid rfl rfl rfl rfl
  all_goals exact R.post_of_pre hs

theorem transferFrom_rule (R : RegistryRule Pre Post) (hs : Pre s) (source dest : AccountId) (id : NftId) :
    Wp (transferFrom source dest id) (fun _ => Post) (fun _ => Post) s := by
  unfold transferFrom
  rw [wp_bind, wp_get]
  refine wp_ensure_bind (fun hid => ?_) (fun _ => R.post_of_pre hs)
  exact wp_ensure_bind (fun _ => setOwner_rule R hs hid dest) (fun _ => R.post_of_pre hs)

/-- `execute_trade` finds the token in `Tokens`, so its owner entry is there
to overwrite; the payments only touch `pallet_assets`. -/
theorem executeTrade_rule (R : RegistryRule Pre Post) (hs : Pre s) (sender : AccountId) (id : NftId) (tokenId amount : ℕ) :
    Wp (executeTrade env sender id tokenId amount) (fun _ => Post) (fun _ => Post) s := by
  unfold executeTrade
  rw [wp_bind, wp_get, wp_bind]
  cases hnft : s.tokens.lookup id with
  | none => exact R.post_of_pre hs
  | some nft =>
      have hid : id ∈ s.tokenCreatorAndOwner :=
        (R.registry hs).mem_owners (Finmap.mem_of_lookup_eq_some hnft)
      rw [wp_okOr_some]
      generalize ownerOf s id = owners
      rcases owners with ⟨creator, owner⟩
      dsimp only
      split_ifs
      · -- the payments only write `assets`, and their results are dropped
        rw [wp_bind]
        refine wp_dropResult_onAssets _ fun t => ?_
        rw [wp_bind]
        refine wp_dropResult_onAssets _ fun t' => ?_
        refine setOwner_rule R ?_ ?_ sender
        · exact R.pre_congr hs rfl
        · exact hid
      · exact R.post_of_pre hs

/-- A winning bid trades at once, whatever the trade returns; any other bid
is recorded beside the registry. -/
theorem setBidToken_rule (R : RegistryRule Pre Post) (hs : Pre s) (sender : AccountId) (id : NftId)
    (tokenId amount deadLine : ℕ) :
    Wp (setBidToken env sender id tokenId amount deadLine) (fun _ => Post) (fun _ => Post) s := by
  unfold setBidToken
  rw [wp_bind, wp_get]
  refine wp_ensure_bind (fun _ => ?_) (fun _ => R.post_of_pre hs)
  dsimp only
  split_ifs
  · rw [wp_dropResult]
    exact executeTrade_rule env R hs sender id tokenId amount
  · exact R.post_of_pre (R.pre_congr hs rfl)

omit [Inhabited AccountId] in
theorem keeps_removeBidToken (sender : AccountId) (id : NftId) :
    Keeps State.registry (removeBidToken sender id : NftCall AccountId E Unit) :=
  keeps_bind keeps_get fun _ => keeps_bind (keeps_ensure _) fun _ => keeps_modify fun _ => rfl

omit [DecidableEq AccountId] [Inhabited AccountId] in
theorem keeps_transferNonfungible (destId : UInt8) :
    Keeps State.registry (SocialBridge.transferNonfungible destId : NftCall AccountId E Unit) :=
  keeps_bind keeps_get fun _ => keeps_bind (keeps_ensure _) fun _ => keeps_modify fun _ => rfl

theorem keeps_setAsk (origin : Origin AccountId) (nftId : NftId) (tokenId amount : ℕ) :
    Keeps State.registry (setAsk origin nftId tokenId amount : NftCall AccountId E Unit) :=
  keeps_bind (keeps_ensureSigned origin) fun _ => keeps_bind keeps_get fun _ =>
    keeps_bind (keeps_ensure _) fun _ => keeps_bind (keeps_ensure _) fun _ =>
    keeps_modify fun _ => rfl

omit [Inhabited AccountId] in
theorem keeps_removeBid (origin : Origin AccountId) (nftId : NftId) :
    Keeps State.registry (removeBid origin nftId : NftCall AccountId E Unit) :=
  keeps_bind (keeps_ensureSigned origin) fun who => keeps_bind keeps_get fun _ =>
    keeps_bind (keeps_ensure _) fun _ => keeps_removeBidToken who nftId

omit [DecidableEq AccountId] [Inhabited AccountId] in
theorem keeps_whitelistChain (origin : Origin AccountId) (id : UInt8) :
    Keeps State.registry (SocialBridge.whitelistChain T origin id : NftCall AccountId E Unit) :=
  keeps_bind (keeps_ensureRoot origin) fun _ => keeps_bind (keeps_ensure _) fun _ =>
    keeps_bind keeps_get fun _ => keeps_bind (keeps_ensure _) fun _ => keeps_modify fun _ => rfl

/-- `transfer_erc721` burns the token, then only bumps the destination's
nonce. -/
theorem transferErc721_rule (R : RegistryRule Pre Post) (hs : Pre s) (origin : Origin AccountId)
    (recipient : List UInt8) (tokenId : NftId) (destId : UInt8) :
    Wp (SocialBridge.transferErc721 origin recipient tokenId destId) (fun _ => Post)
      (fun _ => Post) s := by
  unfold SocialBridge.transferErc721
  refine wp_ensureSigned_bind (fun source => ?_) (R.post_of_pre hs)
  rw [wp_bind, wp_get]
  refine wp_ensure_bind (fun _ => ?_) (fun _ => R.post_of_pre hs)
  split
  · rw [wp_bind]
    refine (burnToken_rule R hs source tokenId).mono (fun _ _ h => ?_) (fun _ _ h => h)
    exact ((keeps_transferNonfungible destId).wp).mono (fun _ _ he => R.post_congr h he)
      (fun _ _ he => R.post_congr h he)
  · exact R.post_of_pre hs

omit [Inhabited AccountId] in
theorem mintErc721_rule (R : RegistryRule Pre Post) (hs : Pre s) (origin : Origin AccountId) (recipient : AccountId)
    (id : NftId) (metadata : List UInt8) (royalty : ℕ) :
    Wp (SocialBridge.mintErc721 T origin recipient id metadata royalty) (fun _ => Post)
      (fun _ => Post) s := by
  unfold SocialBridge.mintErc721
  exact SocialBridge.wp_ensureBridge_bind T (fun _ => mintToken_rule R hs recipient id metadata royalty)
    (R.post_of_pre hs)

theorem entry_rule (R : RegistryRule Pre Post) (e : SocialBridge.Entry AccountId) (hs : Pre s) :
    Wp (e.apply env TA T) (fun _ => Post) (fun _ => Post) s := by
  cases e with
  | mint o owner id metadata royalty =>
      exact wp_ensureSigned_bind (fun _ => mintToken_rule R hs owner id metadata royalty)
        (R.post_of_pre hs)
  | transfer o dest id =>
      exact wp_ensureSigned_bind (fun who => transferFrom_rule R hs who dest id) (R.post_of_pre hs)
  | burn o id =>
      -- the owner is looked up, so the burn's own owner check always passes
      refine wp_ensureSigned_bind (fun _ => ?_) (R.post_of_pre hs)
      rw [wp_bind, wp_get]
      exact wp_ensure_bind (fun _ => burnToken_rule R hs _ id) (fun _ => R.post_of_pre hs)
  | setAsk o nftId tokenId amount => exact R.keeps hs (keeps_setAsk o nftId tokenId amount)
  | setBid o nftId tokenId amount deadLine =>
      refine wp_ensureSigned_bind (fun who => ?_) (R.post_of_pre hs)
      rw [wp_bind, wp_get]
      exact wp_ensure_bind (fun _ => setBidToken_rule env R hs who nftId tokenId amount deadLine)
        (fun _ => R.post_of_pre hs)
  | removeBid o nftId => exact R.keeps hs (keeps_removeBid o nftId)
  | transferErc721 o recipient tokenId destId =>
      exact transferErc721_rule R hs o recipient tokenId destId
  | mintErc721 o recipient id metadata royalty =>
      exact mintErc721_rule T R hs o recipient id metadata royalty
  | whitelistChain o id => exact R.keeps hs (keeps_whitelistChain T o id)
  | assets c => exact R.keeps hs (keeps_onAssets _)

theorem entry_preserves_registry (e : SocialBridge.Entry AccountId) :
    Preserves Registry (e.apply env TA T) :=
  preserves_of_wp fun _ hs => entry_rule env TA T Registry.rule e hs

/-- The registry holds in every state reachable from a chain without
tokens, and the count is exact in every state reached by a run none of whose
states holds every id. -/
theorem registry_of_reachable (assets : Assets.State AccountId E) {s : State AccountId E}
    (hs : Reachable (SocialBridge.Entry.apply env TA T) (· = State.init assets) s) :
    Registry s ∧
      (ReachableWithin (SocialBridge.Entry.apply env TA T) (· = State.init assets)
          (fun s => s.tokens.keys.card < 2 ^ 256) s →
        s.tokenCount = s.tokens.keys.card) := by
  refine ⟨hs.invariant (fun _ h => h ▸ registry_init assets) (entry_preserves_registry env TA T),
    fun hw => ?_⟩
  have hexact : Registry s ∧ s.tokenCount = s.tokens.keys.card := by
    refine hw.invariant (I := fun s => Registry s ∧ s.tokenCount = s.tokens.keys.card)
      (fun _ h => h ▸ ⟨registry_init assets, rfl⟩) fun e s s' hI hl hlt => ?_
    exact Leaves.of_wp (entry_rule env TA T counted_rule e hI) hl hlt
  exact hexact.2

end Calls

/-! ## Minting every id -/

section Saturation

variable {AccountId E : Type} [DecidableEq AccountId] [Inhabited AccountId]
variable (env : Env AccountId E) (TA : Assets.Config AccountId) (T : SocialBridge.Config AccountId)

omit [DecidableEq AccountId] [Inhabited AccountId] in
/-- A signed mint of an id without a token returns `Ok`, having written the
token and counted it. -/
theorem run_mint_of_notMem {s : State AccountId E} {id : NftId} (who owner : AccountId)
    (metadata : List UInt8) (royalty : ℕ) (hid : id ∉ s.tokens) :
    ∃ s', (mint (.signed who) owner id metadata royalty).run s = .ok () s' ∧
      s'.tokens = s.tokens.insert id ⟨id, metadata, royalty⟩ ∧
      s'.tokenCount = saturatingAdd 256 s.tokenCount 1 := by
  simp only [mint, mintToken, LawfulMonadStateOf.modify_bind_modify, EStateM.run_bind,
    run_ensureSigned_signed, EStateM.run_get, hid, not_false_eq_true, run_ensure_pos,
    EStateM.run_modify, Function.comp_apply, EStateM.Result.ok.injEq, true_and, exists_eq_left']
  split <;> exact ⟨rfl, rfl⟩

/-- A signed burn of an id with an owner returns `Ok`, having removed the
token and counted it out. -/
theorem run_burn_of_mem {s : State AccountId E} {id : NftId} (who : AccountId)
    (hid : id ∈ s.tokenCreatorAndOwner) :
    ∃ s', (burn (.signed who) id).run s = .ok () s' ∧ s'.tokens = s.tokens.erase id ∧
      s'.tokenCreatorAndOwner = s.tokenCreatorAndOwner.erase id ∧
      s'.tokenCount = saturatingSub s.tokenCount 1 := by
  simp only [burn, burnToken, LawfulMonadStateOf.modify_bind_modify, EStateM.run_bind,
    run_ensureSigned_signed, EStateM.run_get, hid, run_ensure_pos, EStateM.run_modify,
    EStateM.Result.ok.injEq, true_and, exists_eq_left']
  exact ⟨rfl, rfl, rfl⟩

/-- Minting the ids below `n` in turn, from a chain without tokens: the
tokens are exactly those ids, and the count is `n` until it saturates. -/
theorem reachable_minted_below (assets : Assets.State AccountId E) (who : AccountId) :
    ∀ n ≤ 2 ^ 256, ∃ s, Reachable (SocialBridge.Entry.apply env TA T) (· = State.init assets) s ∧
      (∀ i : NftId, i ∈ s.tokens ↔ i.val < n) ∧ s.tokenCount = min n (maxValue 256) := by
  intro n
  induction n with
  | zero =>
      intro _
      refine ⟨State.init assets, Reachable.start rfl, fun i => ?_, by simp [State.init]⟩
      simp [State.init, Finmap.notMem_empty]
  | succ n ih =>
      intro hn
      obtain ⟨s, hs, hmem, hcount⟩ := ih (by omega)
      have hlt : n < 2 ^ 256 := by omega
      have hfresh : (⟨n, hlt⟩ : NftId) ∉ s.tokens := by
        rw [hmem]
        exact lt_irrefl n
      obtain ⟨s', hrun, htokens, hcount'⟩ := run_mint_of_notMem who who [] 0 hfresh
      refine ⟨s', hs.step (.mint (.signed who) who ⟨n, hlt⟩ [] 0) (Or.inl ⟨(), hrun⟩), fun i => ?_, ?_⟩
      · rw [htokens, Finmap.mem_insert, hmem, Fin.ext_iff]
        dsimp only
        omega
      · rw [hcount', hcount, saturatingAdd]
        omega

end Saturation

/-! ## The test runtime

`mock.rs` of `pallet_social_nft` gives 100,000,000 native tokens to
`USER_A`, the account 1, with an existential deposit of 1 and deposits of 1
for assets; that of `pallet_social_bridge` has chain id 5. The bridge's
account, derived from `cb/bridg`, is the account 0 here. -/

def nftEnv : Env ℕ (Ledger ℕ) := Ledger.env 1

def nftAssets : Assets.Config ℕ where
  assetDepositBase := 1
  assetDepositPerZombie := 1
  stringLimit := 50
  metadataDepositBase := 1
  metadataDepositPerByte := 1
  forceOrigin o := decide (o = .root)

def nftBridge : SocialBridge.Config ℕ := ⟨0, 5⟩

def nftLedger : Ledger ℕ where
  free a := if a = 1 then 100000000 else 0
  reserved _ := 0
  providers a := if a = 1 then 1 else 0
  consumers _ := 0
  blockNumber := 0
  now := 0

def nftGenesis : State ℕ (Ledger ℕ) := State.init (Assets.State.empty nftLedger)

abbrev nftApply : SocialBridge.Entry ℕ → NftCall ℕ (Ledger ℕ) Unit :=
  SocialBridge.Entry.apply nftEnv nftAssets nftBridge

/-- Within `2 ^ 256` tokens: account 1 mints tokens 0 and 1, then burns
token 0, and the count is the one token left. -/
theorem registry_at_minted :
    ∃ s, ReachableWithin nftApply (· = State.init (Assets.State.empty nftLedger))
        (fun s => s.tokens.keys.card < 2 ^ 256) s ∧ s.tokenCount = 1 ∧
      Reachable nftApply (· = State.init (Assets.State.empty nftLedger)) s ∧
      (Registry s ∧
        (ReachableWithin nftApply (· = State.init (Assets.State.empty nftLedger))
            (fun s => s.tokens.keys.card < 2 ^ 256) s →
          s.tokenCount = s.tokens.keys.card)) := by
  have h0 : ReachableWithin nftApply (· = State.init (Assets.State.empty nftLedger))
      (fun s => s.tokens.keys.card < 2 ^ 256) nftGenesis :=
    ReachableWithin.start rfl (by decide)
  have h1 := h0.step (.mint (.signed 1) 1 0 [] 0) (Or.inl ⟨(), rfl⟩) (by decide)
  have h2 := h1.step (.mint (.signed 1) 1 1 [] 0) (Or.inl ⟨(), rfl⟩) (by decide)
  have h3 := h2.step (.burn (.signed 1) 0) (Or.inl ⟨(), rfl⟩) (by decide)
  exact ⟨_, h3, rfl, h3.reachable,
    registry_of_reachable nftEnv nftAssets nftBridge (Assets.State.empty nftLedger) h3.reachable⟩

/-- Once the test runtime has minted every id, `TokenCount` is one short of
the number of tokens, and burning a token keeps it one short with fewer than
`2 ^ 256` tokens. -/
theorem tokenCount_lags_tokens :
    ∃ s, Reachable nftApply (· = nftGenesis) s ∧ s.tokens.keys.card < 2 ^ 256 ∧
      s.tokenCount + 1 = s.tokens.keys.card := by
  obtain ⟨s, hs, hmem, hcount⟩ := reachable_minted_below nftEnv nftAssets nftBridge
    (Assets.State.empty nftLedger) 1 (2 ^ 256) le_rfl
  have hreg : Registry s :=
    hs.invariant (fun _ h => h ▸ registry_init _) (entry_preserves_registry nftEnv nftAssets nftBridge)
  have hall : s.tokens.keys = Finset.univ :=
    Finset.eq_univ_of_forall fun i => Finmap.mem_keys.mpr ((hmem i).mpr i.isLt)
  have hcard : s.tokens.keys.card = 2 ^ 256 := by
    rw [hall, Finset.card_univ, Fintype.card_fin]
  have hid : (0 : NftId) ∈ s.tokenCreatorAndOwner := hreg.mem_owners ((hmem 0).mpr (by decide))
  obtain ⟨s', hrun, htokens, -, hcount'⟩ := run_burn_of_mem 1 hid
  have hcard' := card_keys_of_erase hreg hid htokens
  refine ⟨s', hs.step (.burn (.signed 1) 0) (Or.inl ⟨(), hrun⟩), by omega, ?_⟩
  rw [hcount', hcount, saturatingSub, maxValue]
  omega

end SocialNetwork.SocialNft
