import Mathlib
import SocialNetwork.Frame.Support
import SocialNetwork.Lib.StorageMap
import SocialNetwork.Utils.ForkTree.Tree

/-!
# `pallet_collective`

The collective of `src/frame/collective/src/lib.rs`. A member proposes a
motion: with a threshold below two it is dispatched at once with the origin
`Members(1, seats)`; otherwise its hash joins `Proposals`, the proposal is
kept in `ProposalOf` and its `Votes` in `Voting`, with the proposer's aye.
Members vote, and switch their vote, in `Voting`. `close` approves a motion
whose ayes reach the threshold, or disapproves one whose nays leave too few
seats; after the end of the voting the abstentions go to the side of the
`DefaultVote`. An approved motion is dispatched with the origin
`Members(threshold, seats)`. A member may also `execute` a proposal at once
with its own `Member` origin.

The members change through `set_members` (root), which sorts the new
members and computes the diff with the old ones, and through
`ChangeMembers::change_members_sorted`, called by another pallet. Both take
the votes of the outgoing members out of every motion.

Fixed by the model: a proposal's dispatch is the runtime's
`Config.dispatch`, which returns its result and does not reenter the
collective; the dispatches are kept in `dispatched` with their origins.
Events are kept for the whole run. The block number, `ProposalCount` and
the `as u32` casts of the lists' lengths stay below `u32::MAX`, so they are
natural numbers. `Vec::swap_remove` is `Fork.swapRemove`. The weights, the
`MaxMembers` warnings and the `Pays` of a first vote are left out.
-/

namespace SocialNetwork.Collective

open Dispatch Unsigned

/-- `pallet_collective::Error`. -/
inductive Error where
  | notMember
  | duplicateProposal
  | proposalMissing
  | wrongIndex
  | duplicateVote
  | alreadyInitialized
  | tooEarly
  | tooManyProposals
  | wrongProposalWeight
  | wrongProposalLength
  deriving DecidableEq, Repr

/-- The errors of the collective's calls: `BadOrigin`, or an error of the
pallet. -/
inductive DispatchError where
  | badOrigin
  | module (e : Error)
  deriving DecidableEq, Repr

/-- `RawOrigin`, without `_Phantom`. -/
inductive RawOrigin (AccountId : Type) where
  | members (n m : ℕ)
  | member (who : AccountId)
  deriving DecidableEq, Repr

/-- `Votes`; `end` is `ends`. -/
structure Votes (AccountId : Type) where
  index : ℕ
  threshold : ℕ
  ayes : List AccountId
  nays : List AccountId
  ends : ℕ
  deriving DecidableEq, Repr

/-- `RawEvent`. -/
inductive Event (AccountId Hash E : Type) where
  | proposed (account : AccountId) (proposalIndex : ℕ) (proposalHash : Hash) (threshold : ℕ)
  | voted (account : AccountId) (proposalHash : Hash) (voted : Bool) (yes no : ℕ)
  | approved (proposalHash : Hash)
  | disapproved (proposalHash : Hash)
  | executed (proposalHash : Hash) (result : Except E Unit)
  | memberExecuted (proposalHash : Hash) (result : Except E Unit)
  | closed (proposalHash : Hash) (yes no : ℕ)
  deriving DecidableEq, Repr

/-- What the pallet asks of the runtime: `MotionDuration`, `MaxProposals`,
`DefaultVote`, a proposal's hash, encoded length and dispatch weight, and
its dispatch. -/
structure Config (AccountId Proposal Hash E : Type) where
  motionDuration : ℕ
  maxProposals : ℕ
  defaultVote : Option Bool → ℕ → ℕ → ℕ → Bool
  hashOf : Proposal → Hash
  encodedLen : Proposal → ℕ
  weight : Proposal → ℕ
  dispatch : Proposal → RawOrigin AccountId → Except E Unit

/-- The pallet's storage, with `frame_system`'s block number, the events
and the dispatches made. -/
structure State (AccountId Proposal Hash E : Type) [DecidableEq Hash] where
  proposals : List Hash
  proposalOf : StorageMap Hash Proposal
  voting : StorageMap Hash (Votes AccountId)
  proposalCount : ℕ
  members : List AccountId
  prime : Option AccountId
  blockNumber : ℕ
  events : List (Event AccountId Hash E)
  dispatched : List (Proposal × RawOrigin AccountId)

variable {AccountId Proposal Hash E : Type} [LinearOrder AccountId] [DecidableEq Hash]

/-- The storage before genesis. -/
def State.empty : State AccountId Proposal Hash E :=
  ⟨[], ∅, ∅, 0, [], none, 0, [], []⟩

abbrev CollectiveCall (AccountId Proposal Hash E : Type) [DecidableEq Hash] :=
  Call DispatchError (State AccountId Proposal Hash E)

/-- `ensure_signed(origin)?`. -/
def ensureSigned (origin : Origin AccountId) : CollectiveCall AccountId Proposal Hash E AccountId :=
  mapError (fun _ => .badOrigin) (SocialNetwork.ensureSigned origin)

/-- `ensure_root(origin)?`. -/
def ensureRoot (origin : Origin AccountId) : CollectiveCall AccountId Proposal Hash E Unit :=
  mapError (fun _ => .badOrigin) (SocialNetwork.ensureRoot origin)

/-- `deposit_event`. -/
def depositEvent (e : Event AccountId Hash E) : CollectiveCall AccountId Proposal Hash E Unit :=
  modify fun s => { s with events := s.events ++ [e] }

variable (T : Config AccountId Proposal Hash E)

/-- `proposal.dispatch(origin)`: the runtime runs the proposal, and its
result comes back. -/
def dispatchProposal (proposal : Proposal) (origin : RawOrigin AccountId) :
    CollectiveCall AccountId Proposal Hash E (Except E Unit) := do
  modify fun s => { s with dispatched := s.dispatched ++ [(proposal, origin)] }
  pure (T.dispatch proposal origin)

/-! ## The members -/

/-- The loop of `compute_members_diff_sorted`, over the old and the new
members not yet seen, with the incoming and the outgoing members so far. -/
def diffLoop (incoming outgoing : List AccountId) : List AccountId → List AccountId →
    List AccountId × List AccountId
  | [], [] => (incoming, outgoing)
  | old :: olds, new :: news =>
    if old = new then diffLoop incoming outgoing olds news
    else if old < new then diffLoop incoming (outgoing ++ [old]) olds (new :: news)
    else diffLoop (incoming ++ [new]) outgoing (old :: olds) news
  | old :: olds, [] => diffLoop incoming (outgoing ++ [old]) olds []
  | [], new :: news => diffLoop (incoming ++ [new]) outgoing [] news
termination_by olds news => olds.length + news.length

/-- `ChangeMembers::compute_members_diff_sorted`: the incoming and the
outgoing members. -/
def computeMembersDiffSorted (newMembers oldMembers : List AccountId) : List AccountId × List AccountId :=
  diffLoop [] [] oldMembers newMembers

/-- The votes of a motion without those of `outgoing`. `outgoing` is
sorted first, so that its `binary_search` finds exactly its elements. -/
def Votes.without (votes : Votes AccountId) (outgoing : List AccountId) : Votes AccountId :=
  { votes with
    ayes := votes.ayes.filter fun i => i ∉ outgoing
    nays := votes.nays.filter fun i => i ∉ outgoing }

/-- One turn of the loop over `Proposals` in `change_members_sorted`:
`Voting::mutate` of the motion `h`. -/
def withoutOutgoing (outgoing : List AccountId) (voting : StorageMap Hash (Votes AccountId))
    (h : Hash) : StorageMap Hash (Votes AccountId) :=
  match voting.lookup h with
  | some votes => voting.insert h (votes.without outgoing)
  | none => voting

/-- `ChangeMembers::change_members_sorted`. -/
def changeMembersSorted (_incoming outgoing new : List AccountId) :
    CollectiveCall AccountId Proposal Hash E Unit := do
  let outgoing := outgoing.insertionSort (· ≤ ·)
  modify fun s => { s with voting := s.proposals.foldl (withoutOutgoing outgoing) s.voting }
  modify fun s => { s with members := new }
  modify fun s => { s with prime := none }

/-- `ChangeMembers::set_members_sorted`. -/
def setMembersSorted (newMembers oldMembers : List AccountId) : CollectiveCall AccountId Proposal Hash E Unit :=
  let (incoming, outgoing) := computeMembersDiffSorted newMembers oldMembers
  changeMembersSorted incoming outgoing newMembers

/-- `InitializeMembers::initialize_members`, at genesis. -/
def initializeMembers (members : List AccountId) : CollectiveCall AccountId Proposal Hash E Unit := do
  if !members.isEmpty then
    -- "Members are already initialized!"
    if !(← get).members.isEmpty then panic
    modify fun s => { s with members := members }

/-! ## The dispatchables -/

/-- `set_members`. -/
def setMembers (origin : Origin AccountId) (newMembers : List AccountId) (prime : Option AccountId)
    (_oldCount : ℕ) : CollectiveCall AccountId Proposal Hash E Unit := do
  ensureRoot origin
  let old := (← get).members
  let newMembers := newMembers.insertionSort (· ≤ ·)
  setMembersSorted newMembers old
  modify fun s => { s with prime := prime }

/-- `execute`. -/
def execute (origin : Origin AccountId) (proposal : Proposal) (lengthBound : ℕ) :
    CollectiveCall AccountId Proposal Hash E Unit := do
  let who ← ensureSigned origin
  let members := (← get).members
  ensure (who ∈ members) (.module .notMember)
  let proposalLen := T.encodedLen proposal
  ensure (proposalLen ≤ lengthBound) (.module .wrongProposalLength)
  let proposalHash := T.hashOf proposal
  let result ← dispatchProposal T proposal (.member who)
  depositEvent (.memberExecuted proposalHash result)

/-- `propose`. The push onto `Proposals` is a `try_mutate`: it is kept only
when the bound holds. -/
def propose (origin : Origin AccountId) (threshold : ℕ) (proposal : Proposal) (lengthBound : ℕ) :
    CollectiveCall AccountId Proposal Hash E Unit := do
  let who ← ensureSigned origin
  let members := (← get).members
  ensure (who ∈ members) (.module .notMember)
  let proposalLen := T.encodedLen proposal
  ensure (proposalLen ≤ lengthBound) (.module .wrongProposalLength)
  let proposalHash := T.hashOf proposal
  ensure ((← get).proposalOf.lookup proposalHash = none) (.module .duplicateProposal)
  if threshold < 2 then
    let seats := (← get).members.length
    let result ← dispatchProposal T proposal (.members 1 seats)
    depositEvent (.executed proposalHash result)
  else
    let proposals := (← get).proposals ++ [proposalHash]
    ensure (proposals.length ≤ T.maxProposals) (.module .tooManyProposals)
    modify fun s => { s with proposals := proposals }
    let index := (← get).proposalCount
    modify fun s => { s with proposalCount := s.proposalCount + 1 }
    modify fun s => { s with proposalOf := s.proposalOf.insert proposalHash proposal }
    let ends := (← get).blockNumber + T.motionDuration
    let votes : Votes AccountId := ⟨index, threshold, [who], [], ends⟩
    modify fun s => { s with voting := s.voting.insert proposalHash votes }
    depositEvent (.proposed who index proposalHash threshold)

/-- `if let Some(pos) = position { side.swap_remove(pos) }`: the vote of
`who`, if any, taken off a side. -/
def takeOff (who : AccountId) (side : List AccountId) : List AccountId :=
  match side.findIdx? (· == who) with
  | some pos => Fork.swapRemove side pos
  | none => side

/-- The vote of `who` added on one side and taken off the other: the
`if approve` of `vote`, for the side `mine` and the other side `theirs`. -/
def switchVote (who : AccountId) (mine theirs : List AccountId) :
    CollectiveCall AccountId Proposal Hash E (List AccountId × List AccountId) := do
  let positionMine := mine.findIdx? (· == who)
  if positionMine.isSome then fail (.module .duplicateVote)
  pure (mine ++ [who], takeOff who theirs)

/-- `vote`. -/
def vote (origin : Origin AccountId) (proposal : Hash) (index : ℕ) (approve : Bool) :
    CollectiveCall AccountId Proposal Hash E Unit := do
  let who ← ensureSigned origin
  let members := (← get).members
  ensure (who ∈ members) (.module .notMember)
  let voting ← okOr ((← get).voting.lookup proposal) (.module .proposalMissing)
  ensure (voting.index = index) (.module .wrongIndex)
  let voting ← if approve then do
      let (ayes, nays) ← switchVote who voting.ayes voting.nays
      pure { voting with ayes, nays }
    else do
      let (nays, ayes) ← switchVote who voting.nays voting.ayes
      pure { voting with ayes, nays }
  let yesVotes := voting.ayes.length
  let noVotes := voting.nays.length
  depositEvent (.voted who proposal approve yesVotes noVotes)
  modify fun s => { s with voting := s.voting.insert proposal voting }

/-- `validate_and_get_proposal`: the length of the stored proposal is read
from its storage entry, then the proposal itself. -/
def validateAndGetProposal (hash : Hash) (lengthBound weightBound : ℕ) :
    CollectiveCall AccountId Proposal Hash E Proposal := do
  let proposalLen ← okOr (((← get).proposalOf.lookup hash).map T.encodedLen) (.module .proposalMissing)
  ensure (proposalLen ≤ lengthBound) (.module .wrongProposalLength)
  let proposal ← okOr ((← get).proposalOf.lookup hash) (.module .proposalMissing)
  ensure (T.weight proposal ≤ weightBound) (.module .wrongProposalWeight)
  pure proposal

/-- `remove_proposal`. -/
def removeProposal (proposalHash : Hash) : CollectiveCall AccountId Proposal Hash E Unit := do
  modify fun s => { s with proposalOf := s.proposalOf.erase proposalHash }
  modify fun s => { s with voting := s.voting.erase proposalHash }
  modify fun s => { s with proposals := s.proposals.filter (· ≠ proposalHash) }

/-- `do_approve_proposal`. -/
def doApproveProposal (seats : ℕ) (voting : Votes AccountId) (proposalHash : Hash) (proposal : Proposal) :
    CollectiveCall AccountId Proposal Hash E Unit := do
  depositEvent (.approved proposalHash)
  let result ← dispatchProposal T proposal (.members voting.threshold seats)
  depositEvent (.executed proposalHash result)
  removeProposal proposalHash

/-- `do_disapprove_proposal`. -/
def doDisapproveProposal (proposalHash : Hash) : CollectiveCall AccountId Proposal Hash E Unit := do
  depositEvent (.disapproved proposalHash)
  removeProposal proposalHash

/-- `close`. `seats - (yes_votes + no_votes)` is a subtraction of `u32`s,
which panics below zero. -/
def close (origin : Origin AccountId) (proposalHash : Hash) (index : ℕ) (proposalWeightBound lengthBound : ℕ) :
    CollectiveCall AccountId Proposal Hash E Unit := do
  let _ ← ensureSigned origin
  let voting ← okOr ((← get).voting.lookup proposalHash) (.module .proposalMissing)
  ensure (voting.index = index) (.module .wrongIndex)
  let noVotes := voting.nays.length
  let yesVotes := voting.ayes.length
  let seats := (← get).members.length
  let approved := voting.threshold ≤ yesVotes
  let disapproved := seats - noVotes < voting.threshold
  -- as soon as there are enough votes
  if approved then
    let proposal ← validateAndGetProposal T proposalHash lengthBound proposalWeightBound
    depositEvent (.closed proposalHash yesVotes noVotes)
    doApproveProposal T seats voting proposalHash proposal
  else if disapproved then
    depositEvent (.closed proposalHash yesVotes noVotes)
    doDisapproveProposal proposalHash
  else
    ensure (voting.ends ≤ (← get).blockNumber) (.module .tooEarly)
    let primeVote := (← get).prime.map fun who => voting.ayes.any (· == who)
    let default := T.defaultVote primeVote yesVotes noVotes seats
    let abstentions ← unwrap (checkedSub seats (yesVotes + noVotes))
    let (yesVotes, noVotes) :=
      if default then (yesVotes + abstentions, noVotes) else (yesVotes, noVotes + abstentions)
    if voting.threshold ≤ yesVotes then
      let proposal ← validateAndGetProposal T proposalHash lengthBound proposalWeightBound
      depositEvent (.closed proposalHash yesVotes noVotes)
      doApproveProposal T seats voting proposalHash proposal
    else
      depositEvent (.closed proposalHash yesVotes noVotes)
      doDisapproveProposal proposalHash

/-- `disapprove_proposal`. -/
def disapproveProposal (origin : Origin AccountId) (proposalHash : Hash) :
    CollectiveCall AccountId Proposal Hash E Unit := do
  ensureRoot origin
  doDisapproveProposal proposalHash

/-- The calls on the collective: its dispatchables, a change of the
members by another pallet, whose outgoing members are the old ones not in
`new`, and the next block. -/
inductive Command (AccountId Proposal Hash : Type) where
  | setMembers (origin : Origin AccountId) (newMembers : List AccountId) (prime : Option AccountId)
      (oldCount : ℕ)
  | execute (origin : Origin AccountId) (proposal : Proposal) (lengthBound : ℕ)
  | propose (origin : Origin AccountId) (threshold : ℕ) (proposal : Proposal) (lengthBound : ℕ)
  | vote (origin : Origin AccountId) (proposal : Hash) (index : ℕ) (approve : Bool)
  | close (origin : Origin AccountId) (proposalHash : Hash) (index : ℕ) (proposalWeightBound lengthBound : ℕ)
  | disapproveProposal (origin : Origin AccountId) (proposalHash : Hash)
  | changeMembers (new : List AccountId)
  | nextBlock

/-- One command. -/
def Command.apply : Command AccountId Proposal Hash → CollectiveCall AccountId Proposal Hash E Unit
  | .setMembers origin newMembers prime oldCount => Collective.setMembers origin newMembers prime oldCount
  | .execute origin proposal lengthBound => Collective.execute T origin proposal lengthBound
  | .propose origin threshold proposal lengthBound => Collective.propose T origin threshold proposal lengthBound
  | .vote origin proposal index approve => Collective.vote origin proposal index approve
  | .close origin proposalHash index proposalWeightBound lengthBound =>
    Collective.close T origin proposalHash index proposalWeightBound lengthBound
  | .disapproveProposal origin proposalHash => Collective.disapproveProposal origin proposalHash
  | .changeMembers new => do
    let old := (← get).members
    changeMembersSorted (new.filter (· ∉ old)) (old.filter (· ∉ new)) new
  | .nextBlock => modify fun s => { s with blockNumber := s.blockNumber + 1 }

def Genesis (s : State AccountId Proposal Hash E) : Prop :=
  ∃ members : List AccountId, (initializeMembers members).run State.empty = .ok () s

end SocialNetwork.Collective
