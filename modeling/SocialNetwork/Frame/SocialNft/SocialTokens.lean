import SocialNetwork.Frame.SocialNft.Registry
import SocialNetwork.Frame.Chainbridge.Pallet

/-!
# Social tokens across the bridge

`transfer_social_tokens` of `src/frame/social-bridge/src/lib.rs` moves an
amount of an asset of `pallet_assets` to the bridge's account and emits it
under a resource id: `derive_resource_id` of `pallet_chainbridge` applied to
the asset's `social_token_acronym`, the bytes `NET` followed by the asset id
as a `U256`.

`derive_resource_id` right-aligns the first `min(|id|, 31)` bytes of the id
before the chain id (`deriveResourceId_eq`). `social_token_acronym` asks
`U256::to_big_endian` to write into an empty vector, which panics, so the
call panics once the transfer is made (`run_transferSocialTokens_of_transfer`)
and never returns `Ok` (`transferSocialTokens_ne_ok`). With a buffer of the
right length the acronym is 35 bytes, of which the resource id keeps 31:
every asset id below `2^32` would get the same one
(`deriveResourceId_net_of_lt`).

`U256::to_big_endian` is taken as the `uint` crate has it: it writes the 32
bytes of the value into a buffer of 32 bytes, and panics on any other.
-/

namespace SocialNetwork

open Dispatch Unsigned

namespace Chainbridge

/-- `derive_resource_id`: the chain id in the last byte, and the first
`range = min(|id|, 31)` bytes of `id` copied from the back into the bytes
before it. -/
def deriveResourceId (chain : ChainId) (id : List UInt8) : ResourceId :=
  let rId := (List.replicate 32 (0 : UInt8)).set 31 chain
  let range := if id.length > 31 then 31 else id.length
  -- `id[range - 1 - i]` is in bounds, as `range ≤ id.len()`
  (List.range range).foldl (fun rId i => rId.set (30 - i) (id.getD (range - 1 - i) 0)) rId

theorem set_replicate_append {α : Type} (k : ℕ) (a b : α) (l : List α) :
    (List.replicate (k + 1) a ++ l).set k b = List.replicate k a ++ b :: l := by
  rw [List.replicate_succ', List.append_assoc, List.set_append_right _ _ (by simp)]
  simp

/-- After `n` rounds of its loop, `derive_resource_id` has copied the last
`n` of the `range` bytes it takes, right-aligned before the chain id. -/
theorem deriveResourceId_loop (chain : ChainId) (id : List UInt8) {range : ℕ}
    (hrange : range ≤ id.length) (h31 : range ≤ 31) :
    ∀ n ≤ range,
      (List.range n).foldl (fun rId i => rId.set (30 - i) (id.getD (range - 1 - i) 0))
          ((List.replicate 32 0).set 31 chain) =
        List.replicate (31 - n) 0 ++ (id.take range).drop (range - n) ++ [chain]
  | 0, _ => by
      simp
  | n + 1, hn => by
      -- the round `n` writes byte `30 - n`, the last zero before the copied bytes
      have hidx : range - (n + 1) < (id.take range).length := by
        rw [List.length_take]; omega
      have hbyte : (id.take range)[range - (n + 1)] = id.getD (range - 1 - n) 0 := by
        rw [List.getElem_take, List.getD_eq_getElem _ _ (by omega)]
        congr 1
        omega
      have hdrop : (id.take range).drop (range - (n + 1)) =
          id.getD (range - 1 - n) 0 :: (id.take range).drop (range - n) := by
        rw [List.drop_eq_getElem_cons hidx, hbyte, show range - (n + 1) + 1 = range - n by omega]
      rw [List.range_succ, List.foldl_append, deriveResourceId_loop chain id hrange h31 n (by omega),
        List.foldl_cons, List.foldl_nil, show 31 - n = 30 - n + 1 by omega, List.append_assoc,
        set_replicate_append, hdrop, show 31 - (n + 1) = 30 - n by omega]
      simp

/-- The layout of a resource id: zeros, the first `k = min(|id|, 31)` bytes
of `id` in order, and the chain id. -/
theorem deriveResourceId_eq (chain : ChainId) (id : List UInt8) :
    deriveResourceId chain id =
      List.replicate (31 - min id.length 31) 0 ++ id.take (min id.length 31) ++ [chain] := by
  have hrange : (if id.length > 31 then 31 else id.length) = min id.length 31 := by
    split <;> omega
  unfold deriveResourceId
  dsimp only
  rw [hrange, deriveResourceId_loop chain id (Nat.min_le_left _ _) (Nat.min_le_right _ _) _ le_rfl,
    Nat.sub_self, List.drop_zero]

theorem deriveResourceId_length (chain : ChainId) (id : List UInt8) :
    (deriveResourceId chain id).length = 32 := by
  rw [deriveResourceId_eq]
  simp only [List.length_append, List.length_replicate, List.length_take, List.length_singleton]
  omega

end Chainbridge

namespace U256

/-- `U256::to_big_endian(&self, bytes)`: the 32 bytes of the value, written
into a buffer of 32 bytes; a buffer of any other length panics (`none`). -/
def toBigEndian (x : ℕ) (bytes : List UInt8) : Option (List UInt8) :=
  if bytes.length = 32 then some (bigEndianBytes 32 x) else none

end U256

namespace SocialBridge

open SocialNft

variable {AccountId E : Type} [DecidableEq AccountId] [Inhabited AccountId]

/-- `social_token_acronym`: `b"NET"`, then the asset id as a `U256`, which
`to_big_endian` writes into `buf`, an empty vector. -/
def socialTokenAcronym (tokenId : ℕ) : Option (List UInt8) := do
  let acronym : List UInt8 := [78, 69, 84]
  -- the source's `postfix`, `U256::from(token_id.saturated_into::<u128>())`
  let number := saturatedInto 128 tokenId
  let buf ← U256.toBigEndian number []
  pure (acronym ++ buf)

theorem socialTokenAcronym_eq_none (tokenId : ℕ) : socialTokenAcronym tokenId = none := by
  simp [socialTokenAcronym, U256.toBigEndian]

/-- With a buffer of 32 bytes the acronym would be `NET` and the 32 bytes
of the id, of which `derive_resource_id` keeps the first 28: every asset id
below `2^32` would get the same resource id. -/
theorem deriveResourceId_net_of_lt (chain : UInt8) {x : ℕ} (hx : x < 2 ^ 32) :
    Chainbridge.deriveResourceId chain ([78, 69, 84] ++ bigEndianBytes 32 x) =
      [78, 69, 84] ++ List.replicate 28 0 ++ [chain] := by
  have hbytes : bigEndianBytes 32 x = List.replicate 28 0 ++ bigEndianBytes 4 x :=
    @bigEndianBytes_of_lt 28 4 x (by simpa using hx)
  have htake : ([78, 69, 84] ++ bigEndianBytes 32 x).take 31 = [78, 69, 84] ++ List.replicate 28 0 := by
    rw [hbytes, ← List.append_assoc, List.take_append_of_le_length (by simp)]
    simp
  rw [Chainbridge.deriveResourceId_eq, List.length_append, bigEndianBytes_length,
    show min (([78, 69, 84] : List UInt8).length + 32) 31 = 31 from rfl, htake]
  rfl

/-- `transfer_fungible` of `pallet_chainbridge`: the check and the nonce
bump of `transfer_nonfungible`; only the event differs. -/
def transferFungible (destId : UInt8) (_resourceId : Chainbridge.ResourceId) (_recipient : List UInt8)
    (_amount : ℕ) : NftCall AccountId E Unit :=
  transferNonfungible destId

variable (env : Env AccountId E) (T : Config AccountId)

/-- `transfer_social_tokens`: pay `value` of the asset to the bridge's
account, then emit it under the asset's resource id. -/
def transferSocialTokens (origin : Origin AccountId) (tokenId value : ℕ) (recipient : List UInt8)
    (destId : UInt8) : NftCall AccountId E Unit := do
  let source ← ensureSigned origin
  let s ← get
  ensure (chainWhitelisted s destId) (.socialBridge .invalidTransfer)
  onAssets (Assets.validateAssetId tokenId)
  onAssets (Assets.doTransfer env tokenId source T.bridgeAccountId value)
  let acronym ← unwrap (socialTokenAcronym tokenId)
  let resourceId := Chainbridge.deriveResourceId destId acronym
  transferFungible destId resourceId recipient (saturatedInto 128 value)

omit [Inhabited AccountId] in
/-- No run of `transfer_social_tokens` returns `Ok`: each one stops at an
error or at the acronym's panic. -/
theorem wp_transferSocialTokens (origin : Origin AccountId) (tokenId value : ℕ)
    (recipient : List UInt8) (destId : UInt8) (s : State AccountId E) :
    Wp (transferSocialTokens env T origin tokenId value recipient destId)
      (fun _ _ => False) (fun _ _ => True) s := by
  unfold transferSocialTokens
  refine wp_ensureSigned_bind (fun source => ?_) trivial
  refine wp_bind_of_forall (fun _ _ => ?_) (fun _ _ => trivial)
  refine wp_bind_of_forall (fun _ _ => ?_) (fun _ _ => trivial)
  refine wp_bind_of_forall (fun _ _ => ?_) (fun _ _ => trivial)
  refine wp_bind_of_forall (fun _ _ => ?_) (fun _ _ => trivial)
  rw [socialTokenAcronym_eq_none, wp_bind, wp_unwrap_none]
  trivial

omit [Inhabited AccountId] in
theorem transferSocialTokens_ne_ok (origin : Origin AccountId) (tokenId value : ℕ)
    (recipient : List UInt8) (destId : UInt8) (s s' : State AccountId E) (a : Unit) :
    (transferSocialTokens env T origin tokenId value recipient destId).run s ≠ .ok a s' :=
  fun h => (wp_transferSocialTokens env T origin tokenId value recipient destId s).of_ok h

omit [Inhabited AccountId] in
theorem run_transferSocialTokens_of_transfer {source : AccountId} {tokenId value : ℕ}
    {recipient : List UInt8} {destId : UInt8} {s : State AccountId E} {assets' : Assets.State AccountId E}
    (hwhite : chainWhitelisted s destId = true) (hasset : s.assets.asset tokenId ≠ none)
    (hpay : (Assets.doTransfer env tokenId source T.bridgeAccountId value).run s.assets = .ok () assets') :
    (transferSocialTokens env T (.signed source) tokenId value recipient destId).run s =
      .error .panic { s with assets := assets' } := by
  have hvalid : (onAssets (Assets.validateAssetId tokenId) : NftCall AccountId E Unit).run s = .ok () s := by
    simp only [onAssets, run_zoom, Assets.validateAssetId, run_get_bind, run_ensure_pos hasset]
  have htransfer : (onAssets (Assets.doTransfer env tokenId source T.bridgeAccountId value) :
      NftCall AccountId E Unit).run s = .ok () { s with assets := assets' } := by
    simp only [onAssets, run_zoom, hpay]
  unfold transferSocialTokens
  rw [run_bind_ok (run_ensureSigned_signed source _), run_get_bind, run_bind_ok (run_ensure_pos hwhite),
    run_bind_ok hvalid, run_bind_ok htransfer, socialTokenAcronym_eq_none]
  rfl

/-- Account 1 creates asset 7 and mints itself 10 of it, and root
whitelists chain 1. Account 1 then sends 5 of the asset to chain 1: the
transfer to the bridge's account goes through, and the call panics when it
builds the acronym. -/
theorem transfer_social_tokens_panics :
    ∃ s s', Reachable nftApply (· = nftGenesis) s ∧
      (transferSocialTokens nftEnv nftBridge (.signed 1) 7 5 [] 1).run s = .error .panic s' ∧
      chainWhitelisted s 1 = true ∧ (s.assets.getAccount 7 1).balance = 10 ∧
      (s'.assets.getAccount 7 1).balance = 5 ∧ (s'.assets.getAccount 7 0).balance = 5 := by
  have h : (execute nftApply [.assets (.create (.signed 1) 7 1 10 1),
      .assets (.mint (.signed 1) 7 1 10), .whitelistChain .root 1] nftGenesis).map
      (fun s => panicsAnd (fun s s' => chainWhitelisted s 1 = true ∧
          (s.assets.getAccount 7 1).balance = 10 ∧ (s'.assets.getAccount 7 1).balance = 5 ∧
          (s'.assets.getAccount 7 0).balance = 5) s
        ((transferSocialTokens nftEnv nftBridge (.signed 1) 7 5 [] 1).run s)) = some true := by
    decide
  exact Reachable.exists_panicsAnd_of_execute _ rfl h

end SocialBridge

end SocialNetwork
