import SocialNetwork.Frame.Support
import SocialNetwork.Lib.StorageMap

/-!
# `pallet_chainbridge`

The relayer bridge of `src/frame/chainbridge/src/lib.rs`. Relayers vote on
proposals: a proposal is a call of the runtime, keyed by the chain it comes
from and a deposit nonce. A vote for it (`acknowledge_proposal`) or against
it (`reject_proposal`) is recorded by `commit_vote`, and then
`try_resolve_proposal` marks it approved once `RelayerThreshold` relayers
voted for it, or rejected once so many voted against it that the threshold
cannot be reached. An approved proposal is dispatched at once, with the
bridge's account as origin. `eval_vote_state` resolves without voting.

Storage is `State`: the pallet's items and `rest`, the state of the rest of
the runtime. `Runtime` is what the pallet calls of it: the block number,
the dispatch of a proposal, and the runtime's other calls. A proposal is
taken to be a call of the other pallets: it runs over `rest`. `Relayers`
is a `ValueQuery` map of `bool`, so `remove` reads as `false`. The calls
are not transactional. The weights are left out, and so are the events but
for the chain and nonce of the transfers' events (`Entry.deposits`).
-/

namespace SocialNetwork.Chainbridge

open Dispatch Unsigned

/-- `ChainId`, a `u8`. -/
abbrev ChainId := UInt8

/-- `DepositNonce`, a `u64`. -/
abbrev DepositNonce := ℕ

/-- `ResourceId`, 32 bytes. -/
abbrev ResourceId := List UInt8

/-- `DEFAULT_RELAYER_THRESHOLD`. -/
def defaultRelayerThreshold : ℕ := 1

/-- `ProposalStatus`. -/
inductive ProposalStatus where
  | initiated
  | approved
  | rejected
  deriving DecidableEq, Repr

/-- `ProposalVotes`. -/
structure ProposalVotes (AccountId : Type) where
  votesFor : List AccountId
  votesAgainst : List AccountId
  status : ProposalStatus
  expiry : ℕ
  deriving DecidableEq, Repr

namespace ProposalVotes

variable {AccountId : Type} [DecidableEq AccountId]

/-- `ProposalVotes::default()`. -/
def default : ProposalVotes AccountId :=
  { votesFor := [], votesAgainst := [], status := .initiated, expiry := 0 }

/-- `try_to_complete`: the votes with their new status, and that status. -/
def tryToComplete (v : ProposalVotes AccountId) (threshold total : ℕ) :
    ProposalVotes AccountId × ProposalStatus :=
  if threshold ≤ v.votesFor.length then ({ v with status := .approved }, .approved)
  -- `votes_against.len() as u32 + threshold` is a `u32` sum
  else if threshold ≤ total ∧ total < wrappingAdd 32 v.votesAgainst.length threshold then
    ({ v with status := .rejected }, .rejected)
  else (v, .initiated)

/-- `is_complete`. -/
def isComplete (v : ProposalVotes AccountId) : Bool := v.status != .initiated

/-- `has_voted`. -/
def hasVoted (v : ProposalVotes AccountId) (who : AccountId) : Bool :=
  v.votesFor.contains who || v.votesAgainst.contains who

/-- `is_expired`. -/
def isExpired (v : ProposalVotes AccountId) (now : ℕ) : Bool := decide (v.expiry ≤ now)

end ProposalVotes

/-- The constants of `pallet_chainbridge::Config`. -/
structure Config (AccountId : Type) where
  /-- `T::AdminOrigin::try_origin` succeeds. -/
  adminOrigin : Origin AccountId → Bool
  /-- `T::ChainId`, this chain's id. -/
  chainId : ChainId
  /-- `T::ProposalLifetime`. -/
  proposalLifetime : ℕ

/-- What the pallet calls of the rest of the runtime, whose state is `ρ`,
with `κ` its other calls. -/
structure Runtime (Proposal ρ κ : Type) where
  /-- `frame_system::Module::block_number`. -/
  blockNumber : ρ → ℕ
  /-- `call.dispatch(RawOrigin::Signed(Self::account_id()))`. -/
  dispatch : Proposal → Call DispatchError ρ Unit
  /-- The other calls of the runtime. -/
  apply : κ → Call DispatchError ρ Unit

/-- The storage of `pallet_chainbridge`, beside the state of the rest of the
runtime. `Votes` is a double map on `(src_id, (nonce, proposal))`. -/
structure State (AccountId Proposal ρ : Type) where
  chainNonces : ChainId → Option DepositNonce
  relayerThreshold : ℕ
  relayers : AccountId → Bool
  relayerCount : ℕ
  votes : StorageMap (ChainId × DepositNonce × Proposal) (ProposalVotes AccountId)
  resources : ResourceId → Option (List UInt8)
  rest : ρ

variable {AccountId Proposal ρ κ : Type} [DecidableEq AccountId] [DecidableEq Proposal]

/-- The storage before any call, beside the state of the rest of the
runtime. -/
def State.init (rest : ρ) : State AccountId Proposal ρ where
  chainNonces _ := none
  relayerThreshold := defaultRelayerThreshold
  relayers _ := false
  relayerCount := 0
  votes := ∅
  resources _ := none
  rest := rest

abbrev BridgeCall (AccountId Proposal ρ : Type) := Call DispatchError (State AccountId Proposal ρ)

def onRest {α : Type} (m : Call DispatchError ρ α) : BridgeCall AccountId Proposal ρ α :=
  zoom State.rest (fun s r => { s with rest := r }) m

section Utility

/-- `ensure_admin`: `AdminOrigin`, or root. -/
def ensureAdmin (T : Config AccountId) (o : Origin AccountId) :
    BridgeCall AccountId Proposal ρ Unit :=
  if T.adminOrigin o then pure () else ensureRoot o

/-- `resource_exists`. -/
def resourceExists (s : State AccountId Proposal ρ) (id : ResourceId) : Bool :=
  (s.resources id).isSome

/-- `chain_whitelisted`. -/
def chainWhitelisted (s : State AccountId Proposal ρ) (id : ChainId) : Bool :=
  (s.chainNonces id).isSome

/-- `bump_nonce`: one more than the chain's nonce, as an unchecked `u64`. -/
def bumpNonce (id : ChainId) : BridgeCall AccountId Proposal ρ DepositNonce := do
  let s ← get
  let nonce := wrappingAdd 64 ((s.chainNonces id).getD 0) 1
  modify fun s => { s with chainNonces := Function.update s.chainNonces id (some nonce) }
  pure nonce

end Utility

section Admin

variable (T : Config AccountId)

/-- `set_relayer_threshold`. -/
def setRelayerThreshold (threshold : ℕ) : BridgeCall AccountId Proposal ρ Unit := do
  ensure (threshold > 0) (.chainbridge .invalidThreshold)
  modify fun s => { s with relayerThreshold := threshold }

/-- `register_resource`. -/
def registerResource (id : ResourceId) (method : List UInt8) :
    BridgeCall AccountId Proposal ρ Unit :=
  modify fun s => { s with resources := Function.update s.resources id (some method) }

/-- `unregister_resource`. -/
def unregisterResource (id : ResourceId) : BridgeCall AccountId Proposal ρ Unit :=
  modify fun s => { s with resources := Function.update s.resources id none }

/-- `whitelist`. -/
def whitelist (id : ChainId) : BridgeCall AccountId Proposal ρ Unit := do
  ensure (id ≠ T.chainId) (.chainbridge .invalidChainId)
  let s ← get
  ensure (¬ chainWhitelisted s id) (.chainbridge .chainAlreadyWhitelisted)
  modify fun s => { s with chainNonces := Function.update s.chainNonces id (some 0) }

/-- `register_relayer`; `RelayerCount += 1` on a `u32`. -/
def registerRelayer (relayer : AccountId) : BridgeCall AccountId Proposal ρ Unit := do
  let s ← get
  ensure (s.relayers relayer = false) (.chainbridge .relayerAlreadyExists)
  modify fun s => { s with relayers := Function.update s.relayers relayer true }
  modify fun s => { s with relayerCount := wrappingAdd 32 s.relayerCount 1 }

def unregisterRelayer (relayer : AccountId) : BridgeCall AccountId Proposal ρ Unit := do
  let s ← get
  ensure (s.relayers relayer = true) (.chainbridge .relayerInvalid)
  modify fun s => { s with relayers := Function.update s.relayers relayer false }
  modify fun s => { s with relayerCount := wrappingSub 32 s.relayerCount 1 }

end Admin

section Voting

variable (R : Runtime Proposal ρ κ) (T : Config AccountId)

/-- The votes `commit_vote` starts from: the stored ones, or new votes that
expire `ProposalLifetime` blocks from now (a `u32` sum). -/
def votesOrNew (s : State AccountId Proposal ρ) (key : ChainId × DepositNonce × Proposal) :
    ProposalVotes AccountId :=
  match s.votes.lookup key with
  | some v => v
  | none => { ProposalVotes.default with
      expiry := wrappingAdd blockNumberBits (R.blockNumber s.rest) T.proposalLifetime }

/-- `votes_for.push(who)` or `votes_against.push(who)`. -/
def ProposalVotes.addVote (v : ProposalVotes AccountId) (who : AccountId) (inFavour : Bool) :
    ProposalVotes AccountId :=
  if inFavour then { v with votesFor := v.votesFor ++ [who] }
  else { v with votesAgainst := v.votesAgainst ++ [who] }

/-- `commit_vote`: the proposal must be open and unexpired, and `who` must
not have voted on it. -/
def commitVote (who : AccountId) (nonce : DepositNonce) (srcId : ChainId) (prop : Proposal)
    (inFavour : Bool) : BridgeCall AccountId Proposal ρ Unit := do
  let s ← get
  let now := R.blockNumber s.rest
  let votes := votesOrNew R T s (srcId, nonce, prop)
  ensure (votes.isComplete = false) (.chainbridge .proposalAlreadyComplete)
  ensure (votes.isExpired now = false) (.chainbridge .proposalExpired)
  ensure (votes.hasVoted who = false) (.chainbridge .relayerAlreadyVoted)
  modify fun s => { s with votes := s.votes.insert (srcId, nonce, prop) (votes.addVote who inFavour) }

/-- `finalize_execution`: dispatch the proposal. -/
def finalizeExecution (prop : Proposal) : BridgeCall AccountId Proposal ρ Unit :=
  onRest (R.dispatch prop)

/-- `try_resolve_proposal`: an open, unexpired proposal gets its new status
written, and is dispatched when approved. -/
def tryResolveProposal (nonce : DepositNonce) (srcId : ChainId) (prop : Proposal) :
    BridgeCall AccountId Proposal ρ Unit := do
  let s ← get
  match s.votes.lookup (srcId, nonce, prop) with
  | some votes => do
      let now := R.blockNumber s.rest
      ensure (votes.isComplete = false) (.chainbridge .proposalAlreadyComplete)
      ensure (votes.isExpired now = false) (.chainbridge .proposalExpired)
      let (votes, status) := votes.tryToComplete s.relayerThreshold s.relayerCount
      modify fun s => { s with votes := s.votes.insert (srcId, nonce, prop) votes }
      match status with
      | .approved => finalizeExecution R prop
      -- `cancel_execution` only deposits an event
      | .rejected => pure ()
      | .initiated => pure ()
  | none => fail (.chainbridge .proposalDoesNotExist)

/-- `vote_for` and `vote_against`. -/
def vote (who : AccountId) (nonce : DepositNonce) (srcId : ChainId) (prop : Proposal)
    (inFavour : Bool) : BridgeCall AccountId Proposal ρ Unit := do
  commitVote R T who nonce srcId prop inFavour
  tryResolveProposal R nonce srcId prop

/-- `vote_for`. -/
def voteFor (who : AccountId) (nonce : DepositNonce) (srcId : ChainId) (prop : Proposal) :
    BridgeCall AccountId Proposal ρ Unit :=
  vote R T who nonce srcId prop true

/-- `vote_against`. -/
def voteAgainst (who : AccountId) (nonce : DepositNonce) (srcId : ChainId) (prop : Proposal) :
    BridgeCall AccountId Proposal ρ Unit :=
  vote R T who nonce srcId prop false

/-- The checks that `acknowledge_proposal` and `reject_proposal` share
before voting: a signed relayer, a whitelisted source chain, a registered
resource. -/
def ensureRelayerVote (o : Origin AccountId) (srcId : ChainId) (rId : ResourceId) :
    BridgeCall AccountId Proposal ρ AccountId := do
  let who ← ensureSigned o
  let s ← get
  ensure (s.relayers who = true) (.chainbridge .mustBeRelayer)
  ensure (chainWhitelisted s srcId = true) (.chainbridge .chainNotWhitelisted)
  ensure (resourceExists s rId = true) (.chainbridge .resourceDoesNotExist)
  pure who

/-- `acknowledge_proposal`. -/
def acknowledgeProposal (o : Origin AccountId) (nonce : DepositNonce) (srcId : ChainId)
    (rId : ResourceId) (call : Proposal) : BridgeCall AccountId Proposal ρ Unit := do
  let who ← ensureRelayerVote o srcId rId
  voteFor R T who nonce srcId call

/-- `reject_proposal`. -/
def rejectProposal (o : Origin AccountId) (nonce : DepositNonce) (srcId : ChainId)
    (rId : ResourceId) (call : Proposal) : BridgeCall AccountId Proposal ρ Unit := do
  let who ← ensureRelayerVote o srcId rId
  voteAgainst R T who nonce srcId call

/-- `eval_vote_state`. -/
def evalVoteState (o : Origin AccountId) (nonce : DepositNonce) (srcId : ChainId)
    (prop : Proposal) : BridgeCall AccountId Proposal ρ Unit := do
  let _ ← ensureSigned o
  tryResolveProposal R nonce srcId prop

end Voting

/-- What `transfer_fungible`, `transfer_nonfungible` and
`transfer_generic` do to storage: the destination must be whitelisted, and
its nonce is bumped. They differ only in the event they deposit. -/
def transferOut (destId : ChainId) : BridgeCall AccountId Proposal ρ Unit := do
  let s ← get
  ensure (chainWhitelisted s destId = true) (.chainbridge .chainNotWhitelisted)
  let _ ← bumpNonce destId

/-- The nonce that `transfer_fungible`, `transfer_nonfungible` and
`transfer_generic` deposit in their event: the one `bump_nonce` returns,
once the destination is checked. -/
def transferNonce (destId : ChainId) : BridgeCall AccountId Proposal ρ DepositNonce := do
  let s ← get
  ensure (chainWhitelisted s destId = true) (.chainbridge .chainNotWhitelisted)
  bumpNonce destId

/-- `transfer_fungible`. -/
def transferFungible (destId : ChainId) (_resourceId : ResourceId) (_recipient : List UInt8)
    (_amount : ℕ) : BridgeCall AccountId Proposal ρ Unit :=
  transferOut destId

/-- `transfer_nonfungible`. -/
def transferNonfungible (destId : ChainId) (_resourceId : ResourceId)
    (_tokenId _recipient _metadata : List UInt8) : BridgeCall AccountId Proposal ρ Unit :=
  transferOut destId

/-- `transfer_generic`. -/
def transferGeneric (destId : ChainId) (_resourceId : ResourceId) (_metadata : List UInt8) :
    BridgeCall AccountId Proposal ρ Unit :=
  transferOut destId

/-- The entry points: the pallet's calls, the transfers other pallets make,
and the other calls of the runtime. -/
inductive Entry (AccountId Proposal κ : Type) where
  | setThreshold (o : Origin AccountId) (threshold : ℕ)
  | setResource (o : Origin AccountId) (id : ResourceId) (method : List UInt8)
  | removeResource (o : Origin AccountId) (id : ResourceId)
  | whitelistChain (o : Origin AccountId) (id : ChainId)
  | addRelayer (o : Origin AccountId) (v : AccountId)
  | removeRelayer (o : Origin AccountId) (v : AccountId)
  | acknowledgeProposal (o : Origin AccountId) (nonce : DepositNonce) (srcId : ChainId)
      (rId : ResourceId) (call : Proposal)
  | rejectProposal (o : Origin AccountId) (nonce : DepositNonce) (srcId : ChainId)
      (rId : ResourceId) (call : Proposal)
  | evalVoteState (o : Origin AccountId) (nonce : DepositNonce) (srcId : ChainId)
      (prop : Proposal)
  | transferFungible (destId : ChainId) (resourceId : ResourceId) (recipient : List UInt8) (amount : ℕ)
  | transferNonfungible (destId : ChainId) (resourceId : ResourceId)
      (tokenId recipient metadata : List UInt8)
  | transferGeneric (destId : ChainId) (resourceId : ResourceId) (metadata : List UInt8)
  | rest (c : κ)

/-- Run an entry point. -/
def Entry.apply (R : Runtime Proposal ρ κ) (T : Config AccountId) :
    Entry AccountId Proposal κ → BridgeCall AccountId Proposal ρ Unit
  | .setThreshold o threshold => do ensureAdmin T o; setRelayerThreshold threshold
  | .setResource o id method => do ensureAdmin T o; registerResource id method
  | .removeResource o id => do ensureAdmin T o; unregisterResource id
  | .whitelistChain o id => do ensureAdmin T o; whitelist T id
  | .addRelayer o v => do ensureAdmin T o; registerRelayer v
  | .removeRelayer o v => do ensureAdmin T o; unregisterRelayer v
  | .acknowledgeProposal o nonce srcId rId call =>
      Chainbridge.acknowledgeProposal R T o nonce srcId rId call
  | .rejectProposal o nonce srcId rId call => Chainbridge.rejectProposal R T o nonce srcId rId call
  | .evalVoteState o nonce srcId prop => Chainbridge.evalVoteState R o nonce srcId prop
  | .transferFungible destId resourceId recipient amount =>
      Chainbridge.transferFungible destId resourceId recipient amount
  | .transferNonfungible destId resourceId tokenId recipient metadata =>
      Chainbridge.transferNonfungible destId resourceId tokenId recipient metadata
  | .transferGeneric destId resourceId metadata =>
      Chainbridge.transferGeneric destId resourceId metadata
  | .rest c => onRest (R.apply c)

/-- The destination and nonce of the event each entry point deposits: one
for a transfer, none for the other calls. -/
def Entry.deposits (R : Runtime Proposal ρ κ) (T : Config AccountId) :
    Entry AccountId Proposal κ → BridgeCall AccountId Proposal ρ (List (ChainId × DepositNonce))
  | .transferFungible destId .. | .transferNonfungible destId .. | .transferGeneric destId .. =>
      (fun nonce => [(destId, nonce)]) <$> transferNonce destId
  | c => (fun _ => []) <$> c.apply R T

end SocialNetwork.Chainbridge
