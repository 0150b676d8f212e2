import SocialNetwork.Frame.Democracy.Types
import SocialNetwork.Lib.BinarySearch
import SocialNetwork.Lib.StorageMap

/-!
# `pallet_democracy`: voting, delegation and locks

The voting part of `src/frame/democracy/src/lib.rs`: `vote`, `remove_vote`,
`remove_other_vote`, `delegate`, `undelegate` and `unlock`, the referenda
they act on, and `begin_block`, which bakes the referenda whose voting ends
in the block. A referendum is started by `internal_start_referendum`, the
entry point other pallets call, and cancelled by `cancel_referendum`.

`VotingOf` is a `ValueQuery` map: an account without an entry votes
directly, with no votes. The calls write it through `try_mutate`, so a
call that fails writes nothing of it; the tally of the referendum is a local
copy that is written back at the end. `increase_upstream_delegation` and
`reduce_upstream_delegation` write the target's entry and the tallies of
its standard votes while the caller's entry is still being mutated; the
target is never the caller (`Nonsense`), so the two writes do not overlap.

The lock is `pallet_balances`' lock of id `DEMOCRACY_ID`, an amount per
account with 0 for no lock: `extend_lock` and `set_lock` do nothing for a
zero amount, and `remove_lock` drops it. The free balances and the total
issuance are the runtime's and are not changed here. Left out: the public
and external proposal queues and their launch every `LaunchPeriod`, the
preimages, the enactment of a passed referendum through the scheduler,
blacklists and the events.
-/

namespace SocialNetwork.Democracy

open Dispatch Unsigned BinarySearch

/-- `pallet_democracy::Error`. -/
inductive Error where
  | valueLow | proposalMissing | badIndex | alreadyCanceled | duplicateProposal
  | proposalBlacklisted | notSimpleMajority | invalidHash | noProposal | alreadyVetoed
  | notDelegated | duplicatePreimage | notImminent | tooEarly | imminent | preimageMissing
  | referendumInvalid | preimageInvalid | noneWaiting | notLocked | notExpired | notVoter
  | noPermission | alreadyDelegating | overflow | underflow | insufficientFunds
  | notDelegating | votesExist | instantNotAllowed | nonsense | wrongUpperBound
  | maxVotesReached | invalidWitness | tooManyProposals
  deriving DecidableEq, Repr

/-- The errors of the democracy calls: `BadOrigin`, or an error of the
pallet. -/
inductive DispatchError where
  | badOrigin
  | module (e : Error)
  deriving DecidableEq, Repr

/-- What the pallet reads from the runtime: `EnactmentPeriod`,
`VotingPeriod`, `MaxVotes`, and `T::Currency`'s free balances and total
issuance. -/
structure Config (AccountId : Type) where
  enactmentPeriod : ℕ
  votingPeriod : ℕ
  maxVotes : ℕ
  freeBalance : AccountId → ℕ
  totalIssuance : ℕ

/-- The pallet's storage, `frame_system`'s block number and the
`DEMOCRACY_ID` locks. -/
structure State (AccountId : Type) where
  blockNumber : ℕ
  referendumCount : ℕ
  lowestUnbaked : ℕ
  referendumInfoOf : ReferendumIndex → Option ReferendumInfo
  votingOf : StorageMap AccountId (Voting AccountId)
  locks : AccountId → ℕ

variable {AccountId : Type} [DecidableEq AccountId]

def State.init : State AccountId where
  blockNumber := 0
  referendumCount := 0
  lowestUnbaked := 0
  referendumInfoOf _ := none
  votingOf := ∅
  locks _ := 0

namespace State

/-- `VotingOf::get`: the default for an account without an entry. -/
def voting (s : State AccountId) (who : AccountId) : Voting AccountId :=
  (s.votingOf.lookup who).getD .default

/-- `VotingOf::insert`. -/
def setVoting (s : State AccountId) (who : AccountId) (v : Voting AccountId) : State AccountId :=
  { s with votingOf := s.votingOf.insert who v }

/-- `ReferendumInfoOf::insert` (`some`) and `remove` (`none`). -/
def setReferendumInfo (s : State AccountId) (refIndex : ReferendumIndex)
    (info : Option ReferendumInfo) : State AccountId :=
  { s with referendumInfoOf := Function.update s.referendumInfoOf refIndex info }

/-- `ReferendumInfoOf::mutate` on the tally of an ongoing referendum; any
other entry is written back as it was. -/
def mapTally (s : State AccountId) (refIndex : ReferendumIndex) (f : Tally → Tally) :
    State AccountId :=
  match s.referendumInfoOf refIndex with
  | some (.ongoing status) => s.setReferendumInfo refIndex (some (.ongoing { status with tally := f status.tally }))
  | _ => s

def setLockAmount (s : State AccountId) (who : AccountId) (amount : ℕ) : State AccountId :=
  { s with locks := Function.update s.locks who amount }

/-- `Currency::extend_lock`: the larger of the lock and `amount`. -/
def extendLock (s : State AccountId) (who : AccountId) (amount : ℕ) : State AccountId :=
  if amount = 0 then s else s.setLockAmount who (max (s.locks who) amount)

/-- `Currency::set_lock`. -/
def setLock (s : State AccountId) (who : AccountId) (amount : ℕ) : State AccountId :=
  if amount = 0 then s else s.setLockAmount who amount

/-- `Currency::remove_lock`. -/
def removeLock (s : State AccountId) (who : AccountId) : State AccountId :=
  s.setLockAmount who 0

end State

abbrev DemocracyCall (AccountId : Type) := Call DispatchError (State AccountId)

def write (f : State AccountId → State AccountId) : DemocracyCall AccountId Unit :=
  modify f

/-- `ensure_signed`, whose only error is `BadOrigin`. -/
def ensureSigned (origin : Origin AccountId) : DemocracyCall AccountId AccountId :=
  mapError (fun _ => .badOrigin) (SocialNetwork.ensureSigned origin)

/-- `ensure_root`. -/
def ensureRoot (origin : Origin AccountId) : DemocracyCall AccountId Unit :=
  mapError (fun _ => .badOrigin) (SocialNetwork.ensureRoot origin)

/-- `referendum_status`: the status of an ongoing referendum. -/
def referendumStatus (refIndex : ReferendumIndex) : DemocracyCall AccountId ReferendumStatus := do
  match (← get).referendumInfoOf refIndex with
  | some (.ongoing status) => pure status
  | _ => fail (.module .referendumInvalid)

/-! ## Votes -/

/-- `tally.increase(approve, delegations)` for a standard vote, nothing
for a split one. -/
def Tally.increaseIfStandard (t : Tally) (vote : AccountVote) (d : Delegations) : Tally :=
  match vote.asStandard with
  | some approve => t.increase approve d
  | none => t

/-- `tally.reduce(approve, delegations)` for a standard vote. -/
def Tally.reduceIfStandard (t : Tally) (vote : AccountVote) (d : Delegations) : Tally :=
  match vote.asStandard with
  | some approve => t.reduce approve d
  | none => t

/-- `try_vote`. A vote on a referendum the account voted on replaces the
old one, whose votes and delegations leave the tally first. -/
def tryVote (T : Config AccountId) (who : AccountId) (refIndex : ReferendumIndex)
    (vote : AccountVote) : DemocracyCall AccountId Unit := do
  let status ← referendumStatus refIndex
  ensure (vote.balance ≤ T.freeBalance who) (.module .insufficientFunds)
  -- the closure of `VotingOf::try_mutate`: nothing is written when it fails
  let (votes, delegations, prior) ← match (← get).voting who with
    | .direct votes delegations prior => pure (votes, delegations, prior)
    | .delegating .. => fail (.module .alreadyDelegating)
  let (votes, tally) ← match binarySearchByKey Prod.fst votes refIndex with
    | .ok i => do
      let (index, old) ← unwrap votes[i]?
      let tally ← okOr (status.tally.remove old) (.module .underflow)
      pure (votes.set i (index, vote), tally.reduceIfStandard old delegations)
    | .error i => do
      ensure (votes.length ≤ T.maxVotes) (.module .maxVotesReached)
      pure (votes.insertIdx i (refIndex, vote), status.tally)
  let tally ← okOr (tally.add vote) (.module .overflow)
  let tally := tally.increaseIfStandard vote delegations
  write (·.setVoting who (.direct votes delegations prior))
  -- the lock is extended to the vote's balance, not set: other votes may need more
  write (·.extendLock who vote.balance)
  write (·.setReferendumInfo refIndex (some (.ongoing { status with tally })))

/-- The `Finished` arm of `try_remove_vote`: a winning vote with conviction
whose lock has not run out leaves its balance in the prior lock, which only
the voter may do. -/
def priorAfterRemoval (T : Config AccountId) (scope : UnvoteScope) (old : AccountVote)
    (approved : Bool) (endBlock : ℕ) (prior : PriorLock) : DemocracyCall AccountId PriorLock := do
  match old.lockedIf approved with
  | some (lockPeriods, balance) =>
    let unlockAt := wrappingAdd blockNumberBits endBlock
      (wrappingMul blockNumberBits T.enactmentPeriod lockPeriods)
    if (← get).blockNumber < unlockAt then
      ensure (scope = .any) (.module .noPermission)
      pure (prior.accumulate unlockAt balance)
    else pure prior
  | none => pure prior

/-- `try_remove_vote`. On an ongoing referendum the vote leaves the tally;
on a finished one it may leave a prior lock; on a cancelled one it just
goes. An account that delegates has no votes, and the call does nothing. -/
def tryRemoveVote (T : Config AccountId) (who : AccountId) (refIndex : ReferendumIndex)
    (scope : UnvoteScope) : DemocracyCall AccountId Unit := do
  let info := (← get).referendumInfoOf refIndex
  match (← get).voting who with
  | .direct votes delegations prior =>
    let i ← match binarySearchByKey Prod.fst votes refIndex with
      | .ok i => pure i
      | .error _ => fail (.module .notVoter)
    let (_, old) ← unwrap votes[i]?
    let prior ← match info with
      | some (.ongoing status) => do
        ensure (scope = .any) (.module .noPermission)
        let tally ← okOr (status.tally.remove old) (.module .underflow)
        write (·.setReferendumInfo refIndex
          (some (.ongoing { status with tally := tally.reduceIfStandard old delegations })))
        pure prior
      | some (.finished approved endBlock) => priorAfterRemoval T scope old approved endBlock prior
      | none => pure prior
    write (·.setVoting who (.direct (votes.eraseIdx i) delegations prior))
  | .delegating .. => pure ()

/-! ## Delegation -/

/-- `increase_upstream_delegation` and `reduce_upstream_delegation`, which
differ only in how they combine amounts: the target's received delegations
change by `amount`, and so does the tally of every ongoing referendum the
target has a standard vote on, on the vote's side. Returns the number of
the target's votes (1 for an account that delegates) and the state. -/
def updateUpstreamDelegation (combine : Delegations → Delegations → Delegations)
    (adjust : Tally → Bool → Delegations → Tally) (who : AccountId) (amount : Delegations)
    (s : State AccountId) : ℕ × State AccountId :=
  match s.voting who with
  | .delegating balance target conviction delegations prior =>
    -- no second level of delegation: nothing more to do
    (1, s.setVoting who (.delegating balance target conviction (combine delegations amount) prior))
  | .direct votes delegations prior =>
    let s := votes.foldl (fun s v => match v.2 with
      | .standard vote _ => s.mapTally v.1 fun t => adjust t vote.aye amount
      | .split _ _ => s) s
    (votes.length, s.setVoting who (.direct votes (combine delegations amount) prior))

/-- `increase_upstream_delegation`. -/
def increaseUpstreamDelegation (who : AccountId) (amount : Delegations) (s : State AccountId) :
    ℕ × State AccountId :=
  updateUpstreamDelegation Delegations.saturatingAdd Tally.increase who amount s

/-- `reduce_upstream_delegation`. -/
def reduceUpstreamDelegation (who : AccountId) (amount : Delegations) (s : State AccountId) :
    ℕ × State AccountId :=
  updateUpstreamDelegation Delegations.saturatingSub Tally.reduce who amount s

/-- `try_delegate`. An account that delegates already first takes its
delegation back from the old target; one that votes must have no votes.
Its received delegations and prior lock stay. -/
def tryDelegate (T : Config AccountId) (who target : AccountId) (conviction : Conviction)
    (balance : ℕ) : DemocracyCall AccountId ℕ := do
  ensure (who ≠ target) (.module .nonsense)
  ensure (balance ≤ T.freeBalance who) (.module .insufficientFunds)
  let voting : Voting AccountId := .delegating balance target conviction ⟨0, 0⟩ ⟨0, 0⟩
  let voting ← match (← get).voting who with
    | .delegating oldBalance oldTarget oldConviction delegations prior => do
      write fun s => (reduceUpstreamDelegation oldTarget (oldConviction.votes oldBalance) s).2
      pure (voting.setCommon delegations prior)
    | .direct votes delegations prior => do
      ensure votes.isEmpty (.module .votesExist)
      pure (voting.setCommon delegations prior)
  let votes ← modifyGet fun s => increaseUpstreamDelegation target (conviction.votes balance) s
  write (·.extendLock who balance)
  write (·.setVoting who voting)
  pure votes

/-- `try_undelegate`: the delegation leaves the target, and its balance
stays locked for the conviction's lock periods from now, as a prior lock. -/
def tryUndelegate (T : Config AccountId) (who : AccountId) : DemocracyCall AccountId ℕ := do
  match (← get).voting who with
  | .delegating balance target conviction delegations prior =>
    let votes ← modifyGet fun s => reduceUpstreamDelegation target (conviction.votes balance) s
    let now := (← get).blockNumber
    let prior := prior.accumulate
      (wrappingAdd blockNumberBits now (wrappingMul blockNumberBits T.enactmentPeriod conviction.lockPeriods))
      balance
    write (·.setVoting who (Voting.default.setCommon delegations prior))
    pure votes
  | .direct .. => fail (.module .notDelegating)

/-- `update_lock`: the prior lock is rejigged, and the lock set to what the
account's voting needs, or removed if it needs none. -/
def updateLock (who : AccountId) (s : State AccountId) : State AccountId :=
  let voting := (s.voting who).rejig s.blockNumber
  let s := s.setVoting who voting
  if voting.lockedBalance = 0 then s.removeLock who else s.setLock who voting.lockedBalance

/-! ## Referenda -/

/-- `inject_referendum` with the end `internal_start_referendum` gives it,
`VotingPeriod` blocks from now. -/
def internalStartReferendum (T : Config AccountId) (threshold : VoteThreshold)
    (s : State AccountId) : State AccountId :=
  let refIndex := s.referendumCount
  let endBlock := wrappingAdd blockNumberBits s.blockNumber T.votingPeriod
  { s with referendumCount := wrappingAdd 32 refIndex 1 }.setReferendumInfo refIndex
    (some (.ongoing ⟨endBlock, threshold, ⟨0, 0, 0⟩⟩))

/-- `internal_cancel_referendum`. -/
def internalCancelReferendum (refIndex : ReferendumIndex) (s : State AccountId) : State AccountId :=
  s.setReferendumInfo refIndex none

/-- `bake_referendum`: whether the referendum passed, against the total
issuance as the electorate. Its enactment is left out. -/
def bakeReferendum (T : Config AccountId) (status : ReferendumStatus) : DemocracyCall AccountId Bool :=
  unwrap (status.threshold.approved status.tally T.totalIssuance)

/-- `begin_block` without the launch of proposals: every unbaked referendum
whose voting ends now is baked and finished. The list is read before the
first bake, as `maturing_referenda_at_inner` collects it. -/
def beginBlock (T : Config AccountId) (now : ℕ) : DemocracyCall AccountId Unit := do
  let s ← get
  let maturing := (List.range' s.lowestUnbaked (s.referendumCount - s.lowestUnbaked)).filterMap
    fun i => match s.referendumInfoOf i with
      | some (.ongoing status) => if status.endBlock = now then some (i, status) else none
      | _ => none
  maturing.forM fun (index, status) => do
    let approved ← bakeReferendum T status
    write (·.setReferendumInfo index (some (.finished approved now)))

/-! ## Dispatchables -/

section Dispatchables

variable (T : Config AccountId)

/-- `vote`. -/
def vote (origin : Origin AccountId) (refIndex : ReferendumIndex) (vote : AccountVote) :
    DemocracyCall AccountId Unit := do
  let who ← ensureSigned origin
  tryVote T who refIndex vote

/-- `remove_vote`. -/
def removeVote (origin : Origin AccountId) (index : ReferendumIndex) : DemocracyCall AccountId Unit := do
  let who ← ensureSigned origin
  tryRemoveVote T who index .any

/-- `remove_other_vote`: another account may only remove what has expired. -/
def removeOtherVote (origin : Origin AccountId) (target : AccountId) (index : ReferendumIndex) :
    DemocracyCall AccountId Unit := do
  let who ← ensureSigned origin
  let scope : UnvoteScope := if target = who then .any else .onlyExpired
  tryRemoveVote T target index scope

/-- `delegate`. -/
def delegate (origin : Origin AccountId) (target : AccountId) (conviction : Conviction) (balance : ℕ) :
    DemocracyCall AccountId Unit := do
  let who ← ensureSigned origin
  let _ ← tryDelegate T who target conviction balance

/-- `undelegate`. -/
def undelegate (origin : Origin AccountId) : DemocracyCall AccountId Unit := do
  let who ← ensureSigned origin
  let _ ← tryUndelegate T who

/-- `unlock`: anyone may rejig any account's lock. -/
def unlock (origin : Origin AccountId) (target : AccountId) : DemocracyCall AccountId Unit := do
  let _ ← ensureSigned origin
  write (updateLock target)

/-- `cancel_referendum`. -/
def cancelReferendum (origin : Origin AccountId) (refIndex : ReferendumIndex) :
    DemocracyCall AccountId Unit := do
  ensureRoot origin
  write (internalCancelReferendum refIndex)

end Dispatchables

/-- What can happen to the pallet: a dispatchable, a referendum started by
another pallet, or the next block. -/
inductive Command (AccountId : Type) where
  | vote (origin : Origin AccountId) (refIndex : ReferendumIndex) (vote : AccountVote)
  | removeVote (origin : Origin AccountId) (index : ReferendumIndex)
  | removeOtherVote (origin : Origin AccountId) (target : AccountId) (index : ReferendumIndex)
  | delegate (origin : Origin AccountId) (target : AccountId) (conviction : Conviction) (balance : ℕ)
  | undelegate (origin : Origin AccountId)
  | unlock (origin : Origin AccountId) (target : AccountId)
  | cancelReferendum (origin : Origin AccountId) (refIndex : ReferendumIndex)
  | startReferendum (threshold : VoteThreshold)
  | nextBlock
  deriving DecidableEq, Repr

/-- One command. The next block's `on_initialize` runs `begin_block` and
drops its error, if any; a panic aborts the block. -/
def Command.apply (T : Config AccountId) : Command AccountId → DemocracyCall AccountId Unit
  | .vote origin refIndex v => Democracy.vote T origin refIndex v
  | .removeVote origin index => Democracy.removeVote T origin index
  | .removeOtherVote origin target index => Democracy.removeOtherVote T origin target index
  | .delegate origin target conviction balance => Democracy.delegate T origin target conviction balance
  | .undelegate origin => Democracy.undelegate T origin
  | .unlock origin target => Democracy.unlock origin target
  | .cancelReferendum origin refIndex => Democracy.cancelReferendum origin refIndex
  | .startReferendum threshold => write (internalStartReferendum T threshold)
  | .nextBlock => do
    write fun s => { s with blockNumber := s.blockNumber + 1 }
    dropResult (beginBlock T (← get).blockNumber)

end SocialNetwork.Democracy
