import SocialNetwork.Frame.Staking.Pallet
import SocialNetwork.Frame.SocialGuardians.Pallet
import SocialNetwork.Lib.BinarySearch

/-!
# `pallet_social_treasury`

`src/frame/social-treasury/src/lib.rs` pays the stakers behind a validator
in the validator's social token instead of the native one. The token is the
one the validator's controller was the guardian of in that era
(`GuardianDetailHistory` of `pallet_social_guardians`), and the amounts
are those of `pallet_staking::payout_stakers`: the validator's share of the
era's reward by reward points, a commission off the top, and the rest split
by exposure. Each amount is issued through `IssueAndBurn::issue` of
`pallet_assets`, whose error is dropped.

`ClaimedRewards` records, per controller, the eras already paid, kept
sorted and searched with `binary_search`. The state holds the storage of
the pallet beside that of `pallet_staking` and of
`pallet_social_guardians` (which holds `pallet_assets` in its turn).
`on_finalize` of the guardians reads `CurrentEra` and `HistoryDepth` of
`pallet_staking`; `Entry` runs it so.
-/

namespace SocialNetwork.SocialTreasury

open Dispatch Unsigned Arithmetic Staking

/-- The storage of the pallet, beside those of `pallet_staking` and of
`pallet_social_guardians`. -/
structure State (AccountId E : Type) where
  claimedRewards : AccountId → List EraIndex
  staking : Staking.State AccountId
  guardians : SocialGuardians.State AccountId E

variable {AccountId E : Type} [DecidableEq AccountId]

abbrev TreasuryCall (AccountId E : Type) := Call DispatchError (State AccountId E)

def onStaking {α : Type} (m : StakingCall AccountId α) : TreasuryCall AccountId E α :=
  zoom State.staking (fun s t => { s with staking := t }) m

def onGuardians {α : Type} (m : SocialGuardians.GuardiansCall AccountId E α) :
    TreasuryCall AccountId E α :=
  zoom State.guardians (fun s g => { s with guardians := g }) m

/-- `T::FungibleToken::issue(&asset_id, &who, amount)`, its result dropped
(`if let Ok(()) = ...` only deposits an event). -/
def issueReward (env : Env AccountId E) (assetId : ℕ) (who : AccountId) (amount : ℕ) :
    TreasuryCall AccountId E Unit :=
  dropResult (onGuardians (SocialGuardians.onAssets (Assets.IssueAndBurn.issue env assetId who amount)))

/-- `claimed_rewards.binary_search(&era)`, then `insert(pos, era)` at the
position it returns. -/
def insertClaimed (claimedRewards : List EraIndex) (era : EraIndex) :
    Except DispatchError (List EraIndex) :=
  match BinarySearch.binarySearchByKey id claimedRewards era with
  | .ok _ => .error (.socialTreasury .alreadyClaimed)
  | .error pos => .ok (claimedRewards.insertIdx pos era)

/-- The amounts of `do_payout_stakers` once the input is checked: the
validator's payout (its stake's part of what is left after the commission,
plus the commission) and each nominator's. `None` when the validator has no
reward points. `-` and `+` are those of `u128`. -/
def payouts (eraPayout : ℕ) (points : EraRewardPoints AccountId) (stash : AccountId)
    (exposure : Exposure AccountId) (prefs : ValidatorPrefs) :
    Option (ℕ × List (AccountId × ℕ)) :=
  let validatorRewardPoints := (points.individual.lookup stash).getD 0
  if validatorRewardPoints = 0 then none else
  let validatorTotalRewardPart : Perbill :=
    PerThing.fromRationalApproximation validatorRewardPoints points.total
  let validatorTotalPayout := validatorTotalRewardPart.mul eraPayout
  let validatorCommissionPayout := prefs.commission.mul validatorTotalPayout
  let validatorLeftoverPayout := wrappingSub balanceBits validatorTotalPayout validatorCommissionPayout
  let validatorExposurePart : Perbill := PerThing.fromRationalApproximation exposure.own exposure.total
  let validatorStakingPayout := validatorExposurePart.mul validatorLeftoverPayout
  let totalValidatorPayout :=
    wrappingAdd balanceBits validatorStakingPayout validatorCommissionPayout
  some (totalValidatorPayout, exposure.others.map fun nominator =>
    let nominatorExposurePart : Perbill :=
      PerThing.fromRationalApproximation nominator.value exposure.total
    (nominator.who, nominatorExposurePart.mul validatorLeftoverPayout))

/-- The end of `do_payout_stakers`: issue the validator's payout to its
stash, then each nominator's, every result dropped. -/
def issuePayouts (env : Env AccountId E) (assetId : ℕ) (stash : AccountId) :
    Option (ℕ × List (AccountId × ℕ)) → TreasuryCall AccountId E Unit
  | none => pure ()
  | some (totalValidatorPayout, nominatorRewards) => do
      issueReward env assetId stash totalValidatorPayout
      nominatorRewards.forM fun (who, reward) => issueReward env assetId who reward

/-- `do_payout_stakers`. The checks come first and may fail; from the write
of `ClaimedRewards` on, nothing does. -/
def doPayoutStakers (env : Env AccountId E) (validatorStash : AccountId) (era : EraIndex) :
    TreasuryCall AccountId E Unit := do
  let s ← get
  let currentEra ← okOr s.staking.currentEra (.socialTreasury .invalidEraToReward)
  ensure (era ≤ currentEra) (.socialTreasury .invalidEraToReward)
  let historyDepth := s.staking.historyDepth
  ensure (era ≥ saturatingSub currentEra historyDepth) (.socialTreasury .invalidEraToReward)
  let eraPayout ← okOr (s.staking.erasValidatorReward era) (.socialTreasury .invalidEraToReward)
  let controller ← okOr (s.staking.bonded.lookup validatorStash) (.socialTreasury .notStash)
  let ledger ← okOr (s.staking.ledger.lookup controller) (.socialTreasury .notController)
  let assetId ← okOr ((s.guardians.guardianDetailHistory era).lookup controller)
    (.socialTreasury .isNotGuardian)
  let claimedRewards ← ofExcept (insertClaimed (s.claimedRewards controller) era)
  let exposure := s.staking.erasStakersClipped era ledger.stash
  modify fun s => { s with claimedRewards := Function.update s.claimedRewards controller claimedRewards }
  issuePayouts env assetId ledger.stash (payouts eraPayout (s.staking.erasRewardPoints era)
    ledger.stash exposure (s.staking.erasValidatorPrefs era validatorStash))

/-- `payout_stakers`: only while the election window is closed, and then by
any signed origin. -/
def payoutStakers (env : Env AccountId E) (origin : Origin AccountId) (validatorStash : AccountId)
    (era : EraIndex) : TreasuryCall AccountId E Unit := do
  let s ← get
  ensure (s.staking.eraElectionStatus.isClosed = true) (.socialTreasury .callNotAllowed)
  let _ ← ensureSigned origin
  doPayoutStakers env validatorStash era

/-- `on_finalize` of `pallet_social_guardians`, with `CurrentEra` and
`HistoryDepth` of `pallet_staking`. -/
def onFinalize : TreasuryCall AccountId E Unit := do
  let s ← get
  onGuardians (SocialGuardians.onFinalize s.staking.currentEra s.staking.historyDepth)

/-- The entry points of the runtime around the treasury: its call,
`set_controller` of `pallet_staking`, the guardian registry with its
end-of-block hook, and the calls of `pallet_assets`. -/
inductive Entry (AccountId : Type) where
  | payoutStakers (origin : Origin AccountId) (validatorStash : AccountId) (era : EraIndex)
  | setController (origin : Origin AccountId) (controller : AccountId)
  | register (origin : Origin AccountId) (socialTokenId : ℕ)
  | unregister (origin : Origin AccountId)
  | onFinalize
  | assets (c : Assets.Entry AccountId)

/-- Run an entry point. -/
def Entry.apply (env : Env AccountId E) (TA : Assets.Config AccountId) :
    Entry AccountId → TreasuryCall AccountId E Unit
  | .payoutStakers o validatorStash era => SocialTreasury.payoutStakers env o validatorStash era
  | .setController o controller => onStaking (Staking.setController o controller)
  | .register o socialTokenId => onGuardians (SocialGuardians.register o socialTokenId)
  | .unregister o => onGuardians (SocialGuardians.unregister o)
  | .onFinalize => SocialTreasury.onFinalize
  | .assets c => onGuardians (SocialGuardians.onAssets (c.apply env TA))

end SocialNetwork.SocialTreasury
