import SocialNetwork.Frame.SocialNft.Pallet

/-!
# `pallet_social_bridge`: tokens of `pallet_social_nft` across the bridge

The two calls of `src/frame/social-bridge/src/lib.rs` that reach the NFT
registry: `transfer_erc721` burns a token of its signer and emits it to a
whitelisted chain through `pallet_chainbridge`, and `mint_erc721`, which
only the bridge's own account may dispatch (`EnsureBridge`), mints one that
arrived. Of `pallet_chainbridge` they use the whitelist, `ChainNonces`,
which `whitelist_chain` writes and `transfer_nonfungible` bumps; the
bridge's relayer votes that end in a `mint_erc721` are left out, and the
call is taken as dispatched by the bridge's account.

`Entry` collects every call that changes the registry: those of the NFT
pallet, these two, `whitelist_chain`, and the calls of `pallet_assets`, in
which `execute_trade` pays.
-/

namespace SocialNetwork.SocialBridge

open Dispatch Unsigned SocialNft

/-- What the runtime fixes for the bridge. -/
structure Config (AccountId : Type) where
  /-- `MODULE_ID.into_account()`, the bridge's account. -/
  bridgeAccountId : AccountId
  /-- `T::ChainId`, this chain's id. -/
  chainId : UInt8

variable {AccountId E : Type} [DecidableEq AccountId] [Inhabited AccountId]

/-- `chain_whitelisted`. -/
def chainWhitelisted (s : State AccountId E) (id : UInt8) : Bool := (s.chainNonces id).isSome

/-- `transfer_nonfungible` of `pallet_chainbridge`: the chain must be
whitelisted; `bump_nonce` adds one to its nonce, as an unchecked `u64`. -/
def transferNonfungible (destId : UInt8) : NftCall AccountId E Unit := do
  let s ← get
  ensure (chainWhitelisted s destId) (.chainbridge .chainNotWhitelisted)
  modify fun s => { s with
    chainNonces := Function.update s.chainNonces destId
      (some (wrappingAdd 64 ((s.chainNonces destId).getD 0) 1)) }

/-- `EnsureBridge`: a call signed by the bridge's account. -/
def ensureBridge (T : Config AccountId) : Origin AccountId → NftCall AccountId E AccountId
  | .signed who => if who = T.bridgeAccountId then pure who else fail .badOrigin
  | _ => fail .badOrigin

omit [Inhabited AccountId] in
/-- A call behind `EnsureBridge` meets a postcondition when its body does
for the bridge's account, and the error postcondition holds of `BadOrigin`. -/
theorem wp_ensureBridge_bind {α : Type} {Q : α → State AccountId E → Prop}
    {R : DispatchError → State AccountId E → Prop} {s : State AccountId E} (T : Config AccountId)
    {origin : Origin AccountId} {m : AccountId → NftCall AccountId E α}
    (h : origin = .signed T.bridgeAccountId → Wp (m T.bridgeAccountId) Q R s)
    (herr : R .badOrigin s) : Wp (ensureBridge T origin >>= m) Q R s := by
  rw [wp_bind]
  cases origin with
  | signed who =>
      by_cases hwho : who = T.bridgeAccountId
      · subst hwho
        simpa [ensureBridge] using h rfl
      · simpa [ensureBridge, hwho] using herr
  | root => exact herr
  | none => exact herr

/-- `whitelist_chain`, under `AdminOrigin`, root in the runtime. -/
def whitelistChain (T : Config AccountId) (origin : Origin AccountId) (id : UInt8) :
    NftCall AccountId E Unit := do
  ensureRoot origin
  ensure (id ≠ T.chainId) (.chainbridge .invalidChainId)
  let s ← get
  ensure (¬ chainWhitelisted s id) (.chainbridge .chainAlreadyWhitelisted)
  modify fun s => { s with chainNonces := Function.update s.chainNonces id (some 0) }

/-- `transfer_erc721`: burn the signer's token, then emit it. -/
def transferErc721 (origin : Origin AccountId) (_recipient : List UInt8) (tokenId : NftId)
    (destId : UInt8) : NftCall AccountId E Unit := do
  let source ← ensureSigned origin
  let s ← get
  ensure (chainWhitelisted s destId) (.socialBridge .invalidTransfer)
  match s.tokens.lookup tokenId with
  | some _ => do
      burnToken source tokenId
      transferNonfungible destId
  | none => fail (.socialBridge .invalidTransfer)

/-- `mint_erc721`. -/
def mintErc721 (T : Config AccountId) (origin : Origin AccountId) (recipient : AccountId)
    (id : NftId) (metadata : List UInt8) (royalty : ℕ) : NftCall AccountId E Unit := do
  let _ ← ensureBridge T origin
  mintToken recipient id metadata royalty

/-- The calls that change the registry. -/
inductive Entry (AccountId : Type) where
  | mint (origin : Origin AccountId) (owner : AccountId) (id : NftId) (metadata : List UInt8)
      (royalty : ℕ)
  | transfer (origin : Origin AccountId) (dest : AccountId) (id : NftId)
  | burn (origin : Origin AccountId) (id : NftId)
  | setAsk (origin : Origin AccountId) (nftId : NftId) (tokenId amount : ℕ)
  | setBid (origin : Origin AccountId) (nftId : NftId) (tokenId amount deadLine : ℕ)
  | removeBid (origin : Origin AccountId) (nftId : NftId)
  | transferErc721 (origin : Origin AccountId) (recipient : List UInt8) (tokenId : NftId)
      (destId : UInt8)
  | mintErc721 (origin : Origin AccountId) (recipient : AccountId) (id : NftId)
      (metadata : List UInt8) (royalty : ℕ)
  | whitelistChain (origin : Origin AccountId) (id : UInt8)
  | assets (c : Assets.Entry AccountId)

/-- Run an entry point. -/
def Entry.apply (env : Env AccountId E) (TA : Assets.Config AccountId) (T : Config AccountId) :
    Entry AccountId → NftCall AccountId E Unit
  | .mint o owner id metadata royalty => SocialNft.mint o owner id metadata royalty
  | .transfer o dest id => SocialNft.transfer o dest id
  | .burn o id => SocialNft.burn o id
  | .setAsk o nftId tokenId amount => SocialNft.setAsk o nftId tokenId amount
  | .setBid o nftId tokenId amount deadLine => SocialNft.setBid env o nftId tokenId amount deadLine
  | .removeBid o nftId => SocialNft.removeBid o nftId
  | .transferErc721 o recipient tokenId destId => SocialBridge.transferErc721 o recipient tokenId destId
  | .mintErc721 o recipient id metadata royalty => SocialBridge.mintErc721 T o recipient id metadata royalty
  | .whitelistChain o id => SocialBridge.whitelistChain T o id
  | .assets c => onAssets (c.apply env TA)

end SocialNetwork.SocialBridge
