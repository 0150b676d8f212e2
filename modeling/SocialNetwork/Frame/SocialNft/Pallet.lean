import SocialNetwork.Frame.Assets.Pallet

/-!
# `pallet_social_nft`

The ERC-721 registry of `src/frame/social-nft/src/lib.rs`. `Tokens` maps an
id to its token, `TokenCreatorAndOwner` maps it to its creator and its
owner, `TokenCount` counts the tokens (saturating at `U256::MAX`) and
`MaxTokenId` is the largest id ever minted. An owner offers a token for an
amount of an asset with `set_ask`; `set_bid` for more than the ask trades it
at once (`execute_trade`), and otherwise records a bid.

Storage is `State`. Beside the pallet's own maps it holds `ChainNonces` of
`pallet_chainbridge`, which the bridge's calls read, and `assets`, the state
of `pallet_assets`, which holds the rest of the runtime in its turn.
`TokenCreatorAndOwner` and `TokenAskAmount` are `ValueQuery` maps: a missing
key reads as the default, and `mutate` writes the key. The calls are not
transactional; `set_bid` drops the result of `execute_trade`, which drops
those of its two payments.
-/

namespace SocialNetwork.SocialNft

open Dispatch Unsigned

abbrev NftId := Fin (2 ^ 256)

/-- `Erc721Token`. -/
structure Erc721Token where
  id : NftId
  metadata : List UInt8
  royalty : ℕ
  deriving DecidableEq, Repr

/-- `BidToken`. -/
structure BidToken where
  amount : ℕ
  tokenId : ℕ
  deadLine : ℕ
  isActive : Bool
  deriving DecidableEq, Repr

/-- The storage of `pallet_social_nft`, beside the `ChainNonces` of
`pallet_chainbridge` and the state of `pallet_assets`. -/
structure State (AccountId E : Type) where
  tokens : StorageMap NftId Erc721Token
  tokenCreatorAndOwner : StorageMap NftId (AccountId × AccountId)
  tokenCount : ℕ
  maxTokenId : NftId
  tokenAskAmount : NftId → ℕ → ℕ × AccountId
  tokenBidAmount : NftId → AccountId → Option BidToken
  chainNonces : UInt8 → Option ℕ
  assets : Assets.State AccountId E

variable {AccountId E : Type} [DecidableEq AccountId] [Inhabited AccountId]

def State.init (assets : Assets.State AccountId E) : State AccountId E where
  tokens := ∅
  tokenCreatorAndOwner := ∅
  tokenCount := 0
  maxTokenId := 0
  tokenAskAmount _ _ := (0, default)
  tokenBidAmount _ _ := none
  chainNonces _ := none
  assets := assets

/-- `owner_of`: the creator and the owner, `(default, default)` for an id
without an entry. -/
def ownerOf (s : State AccountId E) (id : NftId) : AccountId × AccountId :=
  (s.tokenCreatorAndOwner.lookup id).getD default

abbrev NftCall (AccountId E : Type) := Call DispatchError (State AccountId E)

def onAssets {α : Type} (m : Assets.AssetsCall AccountId E α) : NftCall AccountId E α :=
  zoom State.assets (fun s a => { s with assets := a }) m

def setOwner (id : NftId) (dest : AccountId) : NftCall AccountId E Unit :=
  modify fun s => { s with
    tokenCreatorAndOwner := s.tokenCreatorAndOwner.insert id ((ownerOf s id).1, dest) }

section Helpers

variable (env : Env AccountId E)

/-- `mint_token`. -/
def mintToken (owner : AccountId) (id : NftId) (metadata : List UInt8) (royalty : ℕ) :
    NftCall AccountId E Unit := do
  let s ← get
  ensure (id ∉ s.tokens) (.socialNft .tokenAlreadyExists)
  modify fun s => { s with tokens := s.tokens.insert id { id, metadata, royalty } }
  modify fun s => { s with tokenCreatorAndOwner := s.tokenCreatorAndOwner.insert id (owner, owner) }
  modify fun s => { s with tokenCount := saturatingAdd 256 s.tokenCount 1 }
  modify fun s => if s.maxTokenId < id then { s with maxTokenId := id } else s

/-- `transfer_from`: `source` must own the token. -/
def transferFrom (source dest : AccountId) (id : NftId) : NftCall AccountId E Unit := do
  let s ← get
  ensure (id ∈ s.tokenCreatorAndOwner) (.socialNft .nftIdDoesNotExist)
  let owner := (ownerOf s id).2
  ensure (owner = source) (.socialNft .notOwner)
  setOwner id dest

/-- `burn_token`: `source` must own the token. -/
def burnToken (source : AccountId) (id : NftId) : NftCall AccountId E Unit := do
  let s ← get
  ensure (id ∈ s.tokenCreatorAndOwner) (.socialNft .nftIdDoesNotExist)
  let owner := (ownerOf s id).2
  ensure (owner = source) (.socialNft .notOwner)
  modify fun s => { s with tokens := s.tokens.erase id }
  modify fun s => { s with tokenCreatorAndOwner := s.tokenCreatorAndOwner.erase id }
  modify fun s => { s with tokenCount := saturatingSub s.tokenCount 1 }

/-- `set_ask_token`. -/
def setAskToken (owner : AccountId) (id : NftId) (tokenId amount : ℕ) : NftCall AccountId E Unit :=
  modify fun s => { s with
    tokenAskAmount := Function.update s.tokenAskAmount id
      (Function.update (s.tokenAskAmount id) tokenId (amount, owner)) }

/-- `execute_trade`: with a royalty of zero, pay the creator nothing and the
owner the whole amount, and hand the token to the buyer. With any other
royalty it does nothing. -/
def executeTrade (sender : AccountId) (id : NftId) (tokenId amount : ℕ) :
    NftCall AccountId E Unit := do
  let s ← get
  let nft ← okOr (s.tokens.lookup id) (.socialNft .nftIdDoesNotExist)
  let (creator, owner) := ownerOf s id
  if nft.royalty = 0 then
    dropResult (onAssets (Assets.doTransfer env tokenId sender creator
      (saturatingMul balanceBits amount nft.royalty)))
    dropResult (onAssets (Assets.doTransfer env tokenId sender owner
      (saturatingMul balanceBits amount (saturatingSub 1 nft.royalty))))
    setOwner id sender

/-- `set_bid_token`: there must be an ask for the asset; a bid above it
within the deadline trades, any other bid is recorded. -/
def setBidToken (sender : AccountId) (id : NftId) (tokenId amount deadLine : ℕ) :
    NftCall AccountId E Unit := do
  let s ← get
  let askToken := (s.tokenAskAmount id tokenId).1
  ensure (askToken ≠ 0) (.socialNft .notForSale)
  let nowTimestamp := env.now s.assets.env
  if amount > askToken ∧ deadLine ≥ nowTimestamp then
    dropResult (executeTrade env sender id tokenId amount)
  else
    modify fun s => { s with
      tokenBidAmount := Function.update s.tokenBidAmount id
        (Function.update (s.tokenBidAmount id) sender
          (some { amount, tokenId, deadLine, isActive := true })) }

/-- `remove_bid_token`: mark the sender's bid inactive. -/
def removeBidToken (sender : AccountId) (id : NftId) : NftCall AccountId E Unit := do
  let s ← get
  ensure (s.tokenBidAmount id sender).isSome (.socialNft .nftIdDoesNotExist)
  modify fun s => { s with
    tokenBidAmount := Function.update s.tokenBidAmount id
      (Function.update (s.tokenBidAmount id) sender
        ((s.tokenBidAmount id sender).map fun b => { b with isActive := false })) }

end Helpers

/-! ## Dispatchables -/

section Calls

variable (env : Env AccountId E)

/-- `mint`: any signed origin mints to any owner. -/
def mint (origin : Origin AccountId) (owner : AccountId) (id : NftId) (metadata : List UInt8)
    (royalty : ℕ) : NftCall AccountId E Unit := do
  let _sender ← ensureSigned origin
  mintToken owner id metadata royalty

/-- `transfer`. -/
def transfer (origin : Origin AccountId) (dest : AccountId) (id : NftId) :
    NftCall AccountId E Unit := do
  let sender ← ensureSigned origin
  transferFrom sender dest id

/-- `burn`: it looks the owner up and burns on the owner's behalf, whoever
signed. -/
def burn (origin : Origin AccountId) (id : NftId) : NftCall AccountId E Unit := do
  let _sender ← ensureSigned origin
  let s ← get
  ensure (id ∈ s.tokenCreatorAndOwner) (.socialNft .nftIdDoesNotExist)
  let owner := (ownerOf s id).2
  burnToken owner id

/-- `set_ask`. -/
def setAsk (origin : Origin AccountId) (nftId : NftId) (tokenId amount : ℕ) :
    NftCall AccountId E Unit := do
  let sender ← ensureSigned origin
  let s ← get
  ensure (nftId ∈ s.tokenCreatorAndOwner) (.socialNft .nftIdDoesNotExist)
  let owner := (ownerOf s nftId).2
  ensure (owner = sender) (.socialNft .notOwner)
  setAskToken owner nftId tokenId amount

/-- `set_bid`. -/
def setBid (origin : Origin AccountId) (nftId : NftId) (tokenId amount deadLine : ℕ) :
    NftCall AccountId E Unit := do
  let sender ← ensureSigned origin
  let s ← get
  ensure (nftId ∈ s.tokenCreatorAndOwner) (.socialNft .nftIdDoesNotExist)
  setBidToken env sender nftId tokenId amount deadLine

/-- `remove_bid`. -/
def removeBid (origin : Origin AccountId) (nftId : NftId) : NftCall AccountId E Unit := do
  let sender ← ensureSigned origin
  let s ← get
  ensure (nftId ∈ s.tokenCreatorAndOwner) (.socialNft .nftIdDoesNotExist)
  removeBidToken sender nftId

end Calls

end SocialNetwork.SocialNft
