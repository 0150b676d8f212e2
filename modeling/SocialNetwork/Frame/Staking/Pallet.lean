import SocialNetwork.Frame.Support
import SocialNetwork.Primitives.Arithmetic.PerThing
import SocialNetwork.Lib.StorageMap

/-!
# `pallet_staking`: what the social treasury reads, and `set_controller`

Of `src/frame/staking/src/lib.rs`, the storage that
`pallet_social_treasury::do_payout_stakers` reads (the election status, the
current era and history depth, `Bonded`, `Ledger`, and the per-era rewards,
exposures, reward points and validator preferences), and the one call that
changes whose ledger a stash has: `set_controller`.

`Bonded` maps a stash to its controller, `Ledger` a controller to the
ledger of its stash. `ErasStakersClipped`, `ErasValidatorPrefs` and
`ErasRewardPoints` are `ValueQuery` items: a missing key reads as the
default exposure, preferences and points. Accounts are given by
`IdentityLookup`, whose `lookup` never fails.
-/

namespace SocialNetwork.Staking

open Dispatch Arithmetic

/-- `EraIndex`, a `u32`. -/
abbrev EraIndex := ℕ

/-- `ElectionStatus`. -/
inductive ElectionStatus where
  | closed
  | «open» (blockNumber : ℕ)
  deriving DecidableEq, Repr

/-- `ElectionStatus::is_closed`. -/
def ElectionStatus.isClosed : ElectionStatus → Bool
  | .closed => true
  | .open _ => false

/-- `StakingLedger`, with the field the treasury reads. -/
structure StakingLedger (AccountId : Type) where
  stash : AccountId
  deriving DecidableEq, Repr

/-- `IndividualExposure`. -/
structure IndividualExposure (AccountId : Type) where
  who : AccountId
  value : ℕ
  deriving DecidableEq, Repr

/-- `Exposure`; its `Default` has no stake at all. -/
structure Exposure (AccountId : Type) where
  total : ℕ
  own : ℕ
  others : List (IndividualExposure AccountId)
  deriving DecidableEq, Repr

/-- `EraRewardPoints`; `individual` is a `BTreeMap`. -/
structure EraRewardPoints (AccountId : Type) where
  total : ℕ
  individual : StorageMap AccountId ℕ

/-- `ValidatorPrefs`; its `Default` takes no commission. -/
structure ValidatorPrefs where
  commission : Perbill
  blocked : Bool

/-- The storage of `pallet_staking` read here. -/
structure State (AccountId : Type) where
  eraElectionStatus : ElectionStatus
  currentEra : Option EraIndex
  historyDepth : ℕ
  erasValidatorReward : EraIndex → Option ℕ
  bonded : StorageMap AccountId AccountId
  ledger : StorageMap AccountId (StakingLedger AccountId)
  erasStakersClipped : EraIndex → AccountId → Exposure AccountId
  erasRewardPoints : EraIndex → EraRewardPoints AccountId
  erasValidatorPrefs : EraIndex → AccountId → ValidatorPrefs

variable {AccountId : Type} [DecidableEq AccountId]

abbrev StakingCall (AccountId : Type) := Call DispatchError (State AccountId)

/-- `set_controller`: the stash moves its ledger to a new controller, which
must not have one. -/
def setController (origin : Origin AccountId) (controller : AccountId) :
    StakingCall AccountId Unit := do
  let stash ← ensureSigned origin
  let s ← get
  let oldController ← okOr (s.bonded.lookup stash) (.staking .notStash)
  ensure (controller ∉ s.ledger) (.staking .alreadyPaired)
  if controller ≠ oldController then
    modify fun s => { s with bonded := s.bonded.insert stash controller }
    -- `Ledger::take(old)` then `insert(controller, l)`, when there was a ledger
    modify fun s =>
      match s.ledger.lookup oldController with
      | some l => { s with ledger := (s.ledger.erase oldController).insert controller l }
      | none => s

end SocialNetwork.Staking
