import SocialNetwork.Lib.Dispatch
import SocialNetwork.Lib.Unsigned

/-!
# Runtime support for the social pallets

What `frame_support` and `frame_system` give the pallets modelled here
(`pallet_assets` and the `social-*` pallets of `src/frame`):

* origins and `ensure_signed`;
* the runtime's `DispatchError`, with the `Error` enum of every modelled
  pallet as the source declares it (`decl_error!` / `#[pallet::error]`);
* `Env`, the part of the runtime the pallets call but do not own:
  `frame_system`'s account reference counts and block number,
  `pallet_timestamp`'s clock, and `pallet_balances` as the `Currency` and
  `ReservableCurrency` of the native token. It is a parameter of every
  pallet model: each field is the function of that name in the source, and
  theorems that need more than its type say so as hypotheses;
* `Ledger`, one concrete `Env`: the free/reserved balances and reference
  counts of `pallet_balances` and `frame_system` for accounts without locks,
  used to run the pallets on concrete inputs.

The node runtime instantiates every balance as `u128` and `AssetId` as
`u32`; both are natural numbers here, with those widths where the code
overflows.
-/

namespace SocialNetwork

open Dispatch

abbrev balanceBits : ℕ := 128

abbrev assetIdBits : ℕ := 32

abbrev blockNumberBits : ℕ := 32

/-- `frame_system::RawOrigin`. -/
inductive Origin (AccountId : Type) where
  | root
  | signed (who : AccountId)
  | none
  deriving DecidableEq, Repr

/-- `ExistenceRequirement` of `Currency::transfer`. -/
inductive ExistenceRequirement where
  | keepAlive
  | allowDeath
  deriving DecidableEq, Repr

namespace Balances

/-- `pallet_balances::Error`. -/
inductive Error where
  | vestingBalance | liquidityRestrictions | overflow | insufficientBalance
  | existentialDeposit | keepAlive | existingVestingSchedule | deadAccount
  deriving DecidableEq, Repr

end Balances

namespace Assets

/-- `pallet_assets::Error`. -/
inductive Error where
  | amountZero | balanceLow | balanceZero | noPermission | unknown | frozen | inUse
  | tooManyZombies | refsLeft | badWitness | minBalanceZero | overflow | badState
  | badMetadata | notAllowed
  deriving DecidableEq, Repr

end Assets

namespace SocialSwap

/-- `pallet_social_swap::Error`. -/
inductive Error where
  | tooLate | exchangeExists | exchangeNotExists | tradeTokenNotExists | overFlow
  | notQualifiedMint | notQualifiedBurn | notEnoughLiquidity | tooLow
  deriving DecidableEq, Repr

end SocialSwap

namespace SocialSwap2

/-- `pallet_social_swap2::Error`. -/
inductive Error where
  | overFlow | notQualifiedMint | notQualifiedBurn | notEnoughLiquidity | tooLow
  | insufficientLiquidityMinted | insufficientLiquidityBurned | insufficientOutputAmount
  | insufficientInputAmount | insufficientLiquidity | invalidTo | invalidK
  deriving DecidableEq, Repr

end SocialSwap2

namespace Chainbridge

/-- `pallet_chainbridge::Error`. -/
inductive Error where
  | thresholdNotSet | invalidChainId | invalidThreshold | chainNotWhitelisted
  | chainAlreadyWhitelisted | resourceDoesNotExist | relayerAlreadyExists | relayerInvalid
  | mustBeRelayer | relayerAlreadyVoted | proposalAlreadyExists | proposalDoesNotExist
  | proposalNotComplete | proposalAlreadyComplete | proposalExpired
  deriving DecidableEq, Repr

end Chainbridge

namespace Staking

/-- `pallet_staking::Error`. -/
inductive Error where
  | notController | notStash | alreadyBonded | alreadyPaired | emptyTargets | duplicateIndex
  | invalidSlashIndex | insufficientValue | noMoreChunks | noUnlockChunk | fundedTarget
  | invalidEraToReward | invalidNumberOfNominations | notSortedAndUnique | alreadyClaimed
  | offchainElectionEarlySubmission | offchainElectionWeakSubmission | snapshotUnavailable
  | offchainElectionBogusWinnerCount | offchainElectionBogusWinner
  | offchainElectionBogusCompact | offchainElectionBogusNominator
  | offchainElectionBogusNomination | offchainElectionSlashedNomination
  | offchainElectionBogusSelfVote | offchainElectionBogusEdge | offchainElectionBogusScore
  | offchainElectionBogusElectionSize | callNotAllowed | incorrectHistoryDepth
  | incorrectSlashingSpans | badState | tooManyTargets | badTarget
  deriving DecidableEq, Repr

end Staking

namespace SocialTreasury

/-- `pallet_social_treasury::Error`. -/
inductive Error where
  | callNotAllowed | notController | notStash | invalidEraToReward | alreadyClaimed
  | isNotGuardian
  deriving DecidableEq, Repr

end SocialTreasury

namespace Did

/-- `pallet_did::Error`. -/
inductive Error where
  | notOwner | invalidDelegate | badSignature | attributeCreationFailed | attributeResetFailed
  | attributeRemovalFailed | invalidAttribute | overflow | badTransaction
  deriving DecidableEq, Repr

end Did

namespace SocialNft

/-- `pallet_social_nft::Error`. -/
inductive Error where
  | nftIdDoesNotExist | tokenAlreadyExists | notOwner | notForSale
  deriving DecidableEq, Repr

end SocialNft

namespace SocialBridge

/-- `pallet_social_bridge::Error`. -/
inductive Error where
  | invalidTransfer
  deriving DecidableEq, Repr

end SocialBridge

namespace SocialUsernames

/-- `pallet_social_usernames::Error`. -/
inductive Error where
  | tooManyRegistrars | emptyIndex | invalidIndex | usernameIsVeryLong | usernameIsVeryShort
  | usernameAlreadyRegistered | unregisterForbidden | usernameNotFound
  | usernameHasInvalidChars | accountAlreadyRegistered
  deriving DecidableEq, Repr

end SocialUsernames

namespace SocialGuardians

/-- `pallet_social_guardians::Error`. -/
inductive Error where
  | alreadyRegistered | notFound
  deriving DecidableEq, Repr

end SocialGuardians

/-- `sp_runtime::DispatchError`: `BadOrigin`, or a module error of one of
the modelled pallets. -/
inductive DispatchError where
  | badOrigin
  | balances (e : Balances.Error)
  | assets (e : Assets.Error)
  | socialSwap (e : SocialSwap.Error)
  | socialSwap2 (e : SocialSwap2.Error)
  | chainbridge (e : Chainbridge.Error)
  | socialNft (e : SocialNft.Error)
  | socialBridge (e : SocialBridge.Error)
  | socialUsernames (e : SocialUsernames.Error)
  | socialGuardians (e : SocialGuardians.Error)
  | staking (e : Staking.Error)
  | socialTreasury (e : SocialTreasury.Error)
  | did (e : Did.Error)
  deriving DecidableEq, Repr

/-- `ensure_signed(origin)?`. -/
def ensureSigned {AccountId σ : Type} : Origin AccountId → Call DispatchError σ AccountId
  | .signed who => pure who
  | _ => fail .badOrigin

@[simp] theorem run_ensureSigned_signed {AccountId σ : Type} (who : AccountId) (s : σ) :
    (ensureSigned (.signed who) : Call DispatchError σ AccountId).run s = .ok who s := rfl

@[simp] theorem wp_ensureSigned {AccountId σ : Type} {Q : AccountId → σ → Prop}
    {R : DispatchError → σ → Prop} (origin : Origin AccountId) (s : σ) :
    Wp (ensureSigned origin) Q R s =
      match origin with
      | .signed who => Q who s
      | _ => R .badOrigin s := by
  cases origin <;> rfl

/-- A signed call meets a postcondition when its body does for every
signer, and the error postcondition holds of `BadOrigin`. -/
theorem wp_ensureSigned_bind {AccountId σ α : Type} {Q : α → σ → Prop}
    {R : DispatchError → σ → Prop} {origin : Origin AccountId}
    {m : AccountId → Call DispatchError σ α} {s : σ} (h : ∀ who, Wp (m who) Q R s)
    (herr : R .badOrigin s) : Wp (ensureSigned origin >>= m) Q R s := by
  cases origin <;> simp [h, herr]

theorem wp_ensureSigned_bind_signed {AccountId σ α : Type} {Q : α → σ → Prop}
    {R : DispatchError → σ → Prop} {origin : Origin AccountId}
    {m : AccountId → Call DispatchError σ α} {s : σ}
    (h : ∀ who, origin = .signed who → Wp (m who) Q R s) (herr : R .badOrigin s) :
    Wp (ensureSigned origin >>= m) Q R s := by
  cases origin with
  | signed who => simpa using h who rfl
  | root => simpa using herr
  | none => simpa using herr

/-- `ensure_root(origin)?`. -/
def ensureRoot {AccountId σ : Type} : Origin AccountId → Call DispatchError σ Unit
  | .root => pure ()
  | _ => fail .badOrigin

@[simp] theorem wp_ensureRoot {AccountId σ : Type} {Q : Unit → σ → Prop}
    {R : DispatchError → σ → Prop} (origin : Origin AccountId) (s : σ) :
    Wp (ensureRoot origin) Q R s =
      match origin with
      | .root => Q () s
      | _ => R .badOrigin s := by
  cases origin <;> rfl

theorem keeps_ensureSigned {AccountId σ β : Type} {f : σ → β} (origin : Origin AccountId) :
    Keeps f (ensureSigned origin : Call DispatchError σ AccountId) := by
  cases origin
  · exact keeps_fail _
  · exact keeps_pure _
  · exact keeps_fail _

theorem keeps_ensureRoot {AccountId σ β : Type} {f : σ → β} (origin : Origin AccountId) :
    Keeps f (ensureRoot origin : Call DispatchError σ Unit) := by
  cases origin
  · exact keeps_pure _
  · exact keeps_fail _
  · exact keeps_fail _

/-! ## The rest of the runtime -/

/-- What the modelled pallets call of `frame_system`, `pallet_timestamp` and
`pallet_balances`, over the state `E` of those pallets. -/
structure Env (AccountId E : Type) where
  /-- `frame_system::Module::account_exists`. -/
  accountExists : E → AccountId → Bool
  /-- `frame_system::Module::inc_consumers`; `none` is `Err(NoProviders)`. -/
  incConsumers : E → AccountId → Option E
  /-- `frame_system::Module::dec_consumers`. -/
  decConsumers : E → AccountId → E
  /-- `frame_system::Module::block_number`. -/
  blockNumber : E → ℕ
  /-- `pallet_timestamp::Module::now`. -/
  now : E → ℕ
  /-- `Currency::free_balance`. -/
  freeBalance : E → AccountId → ℕ
  /-- `Currency::transfer`. -/
  transfer : E → AccountId → AccountId → ℕ → ExistenceRequirement → Except Balances.Error E
  /-- `ReservableCurrency::reserve`. -/
  reserve : E → AccountId → ℕ → Except Balances.Error E
  /-- `ReservableCurrency::unreserve`; the amount it could not unreserve is
  dropped by every caller modelled here. -/
  unreserve : E → AccountId → ℕ → E
  /-- `ReservableCurrency::repatriate_reserved` with `BalanceStatus::Reserved`. -/
  repatriateReserved : E → AccountId → AccountId → ℕ → Except Balances.Error E

namespace Env

variable {AccountId E : Type} (env : Env AccountId E)

/-- A currency operation as a call over `E`: its error is the module error
of `pallet_balances`. -/
def currency (op : E → Except Balances.Error E) : Call DispatchError E Unit := fun e =>
  match op e with
  | .ok e' => .ok () e'
  | .error err => .error (.error (.balances err)) e

theorem run_currency (op : E → Except Balances.Error E) (e : E) :
    (currency op).run e =
      match op e with
      | .ok e' => .ok () e'
      | .error err => .error (.error (.balances err)) e := rfl

end Env

/-! ## A concrete runtime for examples

`Ledger` keeps what `pallet_balances` and `frame_system` keep per account,
for accounts without locks, and `Ledger.env ed` runs `Currency::transfer`
and `reserve` as `pallet_balances` does for them, with existential deposit
`ed`: the checked subtraction and addition, the existential-deposit check on
the destination and the keep-alive check on the source. Reaping an account
and the providers that come with it are left out; the examples never empty
an account. -/

/-- Per-account balances and reference counts. -/
structure Ledger (AccountId : Type) where
  free : AccountId → ℕ
  reserved : AccountId → ℕ
  providers : AccountId → ℕ
  consumers : AccountId → ℕ
  blockNumber : ℕ
  now : ℕ

namespace Ledger

variable {AccountId : Type} [DecidableEq AccountId]

/-- `Currency::transfer` of `pallet_balances` for accounts without locks. -/
def transfer (ed : ℕ) (l : Ledger AccountId) (source dest : AccountId) (value : ℕ)
    (req : ExistenceRequirement) : Except Balances.Error (Ledger AccountId) :=
  if value = 0 ∨ source = dest then .ok l else
  match Unsigned.checkedSub (l.free source) value,
      Unsigned.checkedAdd balanceBits (l.free dest) value with
  | none, _ => .error .insufficientBalance
  | some _, none => .error .overflow
  | some fromFree, some toFree =>
      if toFree + l.reserved dest < ed then .error .existentialDeposit
      else if ¬ (req = .allowDeath ∧ l.consumers source = 0) ∧ fromFree < ed then .error .keepAlive
      else .ok { l with free := Function.update (Function.update l.free source fromFree) dest toFree }

/-- `ReservableCurrency::reserve` of `pallet_balances` for accounts without locks. -/
def reserve (l : Ledger AccountId) (who : AccountId) (value : ℕ) :
    Except Balances.Error (Ledger AccountId) :=
  if value = 0 then .ok l else
  match Unsigned.checkedSub (l.free who) value,
      Unsigned.checkedAdd balanceBits (l.reserved who) value with
  | none, _ => .error .insufficientBalance
  | some _, none => .error .overflow
  | some free, some reserved =>
      .ok { l with free := Function.update l.free who free,
                   reserved := Function.update l.reserved who reserved }

/-- `ReservableCurrency::unreserve` of `pallet_balances`. -/
def unreserve (l : Ledger AccountId) (who : AccountId) (value : ℕ) : Ledger AccountId :=
  let actual := min (l.reserved who) value
  { l with free := Function.update l.free who (l.free who + actual),
           reserved := Function.update l.reserved who (l.reserved who - actual) }

/-- The concrete runtime, with existential deposit `ed`. -/
def env (ed : ℕ) : Env AccountId (Ledger AccountId) where
  accountExists l who := 0 < l.providers who
  incConsumers l who :=
    if 0 < l.providers who then some { l with consumers := Function.update l.consumers who (l.consumers who + 1) }
    else none
  decConsumers l who := { l with consumers := Function.update l.consumers who (l.consumers who - 1) }
  blockNumber l := l.blockNumber
  now l := l.now
  freeBalance l who := l.free who
  transfer := transfer ed
  reserve := reserve
  unreserve := unreserve
  repatriateReserved l _ _ _ := .ok l

end Ledger

end SocialNetwork
