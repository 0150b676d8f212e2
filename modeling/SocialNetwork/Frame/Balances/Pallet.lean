import SocialNetwork.Frame.Support
import SocialNetwork.Lib.StorageMap

/-!
# `pallet_balances` over `frame_system`'s accounts

The currency of `src/frame/balances/src/lib.rs`, with `frame_system` as its
`AccountStore` as in the node runtime. An account's `AccountData` lives in
`frame_system::Account` beside its provider and consumer references; data
other than the default provides a reference, and `StoredMap::try_mutate_exists`
(`src/frame/system/src/lib.rs`) adds or removes that reference when the data
starts or stops providing. Removing the last provider of an account that
still has consumers fails with `ConsumerRemaining`.

`TotalIssuance` does not follow the balances by itself: every balance change
creates an imbalance, and `TotalIssuance` moves when the imbalance is
dropped: up by a `PositiveImbalance`, down by a `NegativeImbalance`,
saturating. When it is dropped matters. `set_balance` drops its imbalances
inside the closure that mutates the account, before `try_mutate_exists` has
decided whether the mutation stands; the other functions return theirs in
the closure's result, and a result that `try_mutate_exists` throws away on
`ConsumerRemaining` is dropped then. Here a closure is a call over the state,
and `tryMutateExists` is given what dropping its result does.

`DustRemoval` is `()`, which drops the dust. Locks, vesting and the events
are left out; the frozen amounts of an account are kept, since
`ensure_can_withdraw` reads them. Balances are `u128` and reference counts
`u32`.
-/

namespace SocialNetwork.Balances

open Dispatch Unsigned

/-- `AccountData`. -/
structure AccountData where
  free : ℕ
  reserved : ℕ
  miscFrozen : ℕ
  feeFrozen : ℕ
  deriving DecidableEq, Repr

instance : Inhabited AccountData := ⟨⟨0, 0, 0, 0⟩⟩

/-- `Reasons`. -/
inductive Reasons where
  | fee | misc | all
  deriving DecidableEq, Repr

namespace AccountData

/-- `frozen`: what the free balance may not drop below. -/
def frozen (d : AccountData) : Reasons → ℕ
  | .all => max d.miscFrozen d.feeFrozen
  | .misc => d.miscFrozen
  | .fee => d.feeFrozen

/-- `total`: free and reserved. -/
def total (d : AccountData) : ℕ := saturatingAdd balanceBits d.free d.reserved

end AccountData

/-- `frame_system::AccountInfo`, without the nonce. -/
structure AccountInfo where
  consumers : ℕ
  providers : ℕ
  data : AccountData
  deriving DecidableEq, Repr

instance : Inhabited AccountInfo := ⟨⟨0, 0, default⟩⟩

/-- `BalanceStatus`. -/
inductive BalanceStatus where
  | free | reserved
  deriving DecidableEq, Repr

/-- `SignedImbalance`. -/
inductive SignedImbalance where
  | positive (amount : ℕ)
  | negative (amount : ℕ)
  deriving DecidableEq, Repr

/-- The errors of the balance calls: `BadOrigin`, the `StoredMapError`s, or
an error of the pallet. -/
inductive DispatchError where
  | badOrigin
  | consumerRemaining
  | noProviders
  | module (e : Error)
  deriving DecidableEq, Repr

/-- `ExistentialDeposit`. -/
structure Config where
  existentialDeposit : ℕ

/-- `frame_system::Account` and `TotalIssuance`. -/
structure State (AccountId : Type) where
  account : StorageMap AccountId AccountInfo
  totalIssuance : ℕ

variable {AccountId : Type} [DecidableEq AccountId]

namespace State

/-- `Account::get`: the default for an account without an entry. -/
def info (s : State AccountId) (who : AccountId) : AccountInfo :=
  (s.account.lookup who).getD default

/-- `Account::insert`. -/
def setInfo (s : State AccountId) (who : AccountId) (a : AccountInfo) : State AccountId :=
  { s with account := s.account.insert who a }

/-- `Account::remove`. -/
def removeInfo (s : State AccountId) (who : AccountId) : State AccountId :=
  { s with account := s.account.erase who }

def dropPositive (s : State AccountId) (amount : ℕ) : State AccountId :=
  { s with totalIssuance := saturatingAdd balanceBits s.totalIssuance amount }

def dropNegative (s : State AccountId) (amount : ℕ) : State AccountId :=
  { s with totalIssuance := saturatingSub s.totalIssuance amount }

def dropSigned (s : State AccountId) : SignedImbalance → State AccountId
  | .positive amount => s.dropPositive amount
  | .negative amount => s.dropNegative amount

def dropChange (s : State AccountId) (old new : ℕ) : State AccountId :=
  if old < new then s.dropPositive (new - old)
  else if new < old then s.dropNegative (old - new) else s

def issued (s : State AccountId) : ℕ :=
  StorageMap.total (fun a => a.data.free + a.data.reserved) s.account

end State

abbrev BalancesCall (AccountId : Type) := Call DispatchError (State AccountId)

def write (f : State AccountId → State AccountId) : BalancesCall AccountId Unit :=
  modify f

/-- A call whose error, when it returns one, comes with a write: the value
the caller was holding is dropped on the way out. -/
def dropOnError {α : Type} (m : BalancesCall AccountId α) (f : State AccountId → State AccountId) :
    BalancesCall AccountId α := fun s =>
  match m s with
  | .error (.error e) s' => .error (.error e) (f s')
  | r => r

/-! ## `frame_system` -/

/-- `inc_providers`. -/
def incProviders (who : AccountId) (s : State AccountId) : State AccountId :=
  let a := s.info who
  if a.providers = 0 then s.setInfo who { a with providers := 1 }
  else s.setInfo who { a with providers := saturatingAdd 32 a.providers 1 }

/-- `DecRefStatus`. -/
inductive DecRefStatus where
  | reaped | exists
  deriving DecidableEq, Repr

/-- `dec_providers`: the last provider of an account without consumers
takes the account with it; the last provider of one with consumers cannot
go. -/
def decProviders (who : AccountId) : BalancesCall AccountId DecRefStatus := do
  match (← get).account.lookup who with
  | some a =>
    if a.providers = 0 then
      -- a logic error: the account is taken all the same
      write (·.removeInfo who)
      pure .reaped
    else if a.providers = 1 then
      if a.consumers = 0 then
        write (·.removeInfo who)
        pure .reaped
      else fail .consumerRemaining
    else
      write (·.setInfo who { a with providers := a.providers - 1 })
      pure .exists
  | none => pure .reaped

/-- `StoredMap::try_mutate_exists` of `frame_system`. `f` gets the
account's data, `none` for the default, and returns its result with the new
data; `drop` is what dropping that result does to the state. -/
def tryMutateExists {R : Type} (who : AccountId)
    (f : Option AccountData → BalancesCall AccountId (R × Option AccountData))
    (drop : R → State AccountId → State AccountId) : BalancesCall AccountId R := do
  let account := (← get).info who
  let wasProviding := decide (account.data ≠ default)
  let (result, someData) ← f (if wasProviding then some account.data else none)
  match wasProviding, someData with
  | false, some data =>
    write (incProviders who)
    write fun s => s.setInfo who { s.info who with data }
    pure result
  | true, none =>
    -- `ConsumerRemaining` returns early, and `result` is dropped with it
    match ← dropOnError (decProviders who) (drop result) with
    | .reaped => pure result
    | .exists =>
      write fun s => s.setInfo who { s.info who with data := default }
      pure result
  | false, none => pure result
  | true, some data =>
    write fun s => s.setInfo who { s.info who with data }
    pure result

/-! ## Accounts -/

section Accounts

variable (T : Config)

/-- `post_mutation`: data below the existential deposit is no account, and
its dust is dropped. -/
def postMutation (new : AccountData) : BalancesCall AccountId (Option AccountData) := do
  let total := new.total
  if total < T.existentialDeposit then
    if total ≠ 0 then write (·.dropNegative total)
    pure none
  else pure (some new)

/-- `try_mutate_account`: `f` gets the account's data and whether it is new. -/
def tryMutateAccount {R : Type} (who : AccountId)
    (f : AccountData → Bool → BalancesCall AccountId (R × AccountData))
    (drop : R → State AccountId → State AccountId) : BalancesCall AccountId R :=
  tryMutateExists who (fun maybeAccount => do
    let (result, account) ← f (maybeAccount.getD default) maybeAccount.isNone
    let maybeAccount ← postMutation T account
    pure (result, maybeAccount)) drop

/-- `mutate_account`. -/
def mutateAccount {R : Type} (who : AccountId) (f : AccountData → BalancesCall AccountId (R × AccountData))
    (drop : R → State AccountId → State AccountId) : BalancesCall AccountId R :=
  tryMutateAccount T who (fun account _ => f account) drop

/-- `ensure_can_withdraw`: the new free balance may not go below what the
stored account has frozen for `reasons`. -/
def ensureCanWithdraw (who : AccountId) (amount : ℕ) (reasons : Reasons) (newBalance : ℕ) :
    BalancesCall AccountId Unit := do
  if amount = 0 then pure () else
  let minBalance := ((← get).info who).data.frozen reasons
  ensure (minBalance ≤ newBalance) (.module .liquidityRestrictions)

def keep {R : Type} (_ : R) (s : State AccountId) : State AccountId := s

/-! ## `Currency` -/

/-- `Currency::transfer`. The closure of the source runs inside that of the
destination and changes the destination's data too. -/
def transfer (transactor dest : AccountId) (value : ℕ) (req : ExistenceRequirement) :
    BalancesCall AccountId Unit := do
  if value = 0 ∨ transactor = dest then pure () else
  tryMutateAccount T dest (fun toAccount _ => do
    let toAccount ← tryMutateAccount T transactor (fun fromAccount _ => do
      let fromFree ← okOr (checkedSub fromAccount.free value) (.module .insufficientBalance)
      let toFree ← okOr (checkedAdd balanceBits toAccount.free value) (.module .overflow)
      let toAccount := { toAccount with free := toFree }
      ensure (T.existentialDeposit ≤ toAccount.total) (.module .existentialDeposit)
      ensureCanWithdraw transactor value .misc fromFree
      -- an account that others depend on may not be emptied
      let allowDeath := req = .allowDeath ∧ ((← get).info transactor).consumers = 0
      ensure (allowDeath ∨ T.existentialDeposit ≤ fromFree) (.module .keepAlive)
      pure (toAccount, { fromAccount with free := fromFree })) keep
    pure ((), toAccount)) keep

/-- One attempt of `Currency::slash`: the first takes `value`, the second at
most what leaves the existential deposit. Returns the negative imbalance
and what was not slashed. -/
def slashAttempt (who : AccountId) (value : ℕ) (first : Bool) : BalancesCall AccountId (ℕ × ℕ) :=
  tryMutateAccount T who (fun account _ => do
    let bestValue := if first then value
      else min value (saturatingSub (wrappingAdd balanceBits account.free account.reserved)
        T.existentialDeposit)
    let freeSlash := min account.free bestValue
    let account := { account with free := account.free - freeSlash }
    let remainingSlash := bestValue - freeSlash
    if remainingSlash ≠ 0 then
      let reservedSlash := min account.reserved remainingSlash
      pure ((freeSlash + reservedSlash, value - freeSlash - reservedSlash),
        { account with reserved := account.reserved - reservedSlash })
    else pure ((freeSlash, value - freeSlash), account))
    fun r s => s.dropNegative r.1

/-- `Currency::slash`. -/
def slash (who : AccountId) (value : ℕ) : BalancesCall AccountId (ℕ × ℕ) := do
  if value = 0 then pure (0, 0) else
  if ((← get).info who).data.total = 0 then pure (0, value) else
  match ← attempt (slashAttempt T who value true) with
  | .ok r => pure r
  | .error _ =>
    match ← attempt (slashAttempt T who value false) with
    | .ok r => pure r
    -- defensive: not reached
    | .error _ => pure (0, value)

/-- `Currency::deposit_into_existing`. -/
def depositIntoExisting (who : AccountId) (value : ℕ) : BalancesCall AccountId ℕ := do
  if value = 0 then pure 0 else
  tryMutateAccount T who (fun account isNew => do
    ensure (¬ isNew) (.module .deadAccount)
    let free ← okOr (checkedAdd balanceBits account.free value) (.module .overflow)
    pure (value, { account with free })) fun r s => s.dropPositive r

/-- `Currency::deposit_creating`: nothing on an error, and nothing either
when the sum would overflow. -/
def depositCreating (who : AccountId) (value : ℕ) : BalancesCall AccountId ℕ := do
  if value = 0 then pure 0 else
  let r ← attempt (tryMutateAccount T who (fun account isNew => do
    ensure (value ≥ T.existentialDeposit ∨ ¬ isNew) (.module .existentialDeposit)
    match checkedAdd balanceBits account.free value with
    | some free => pure (value, { account with free })
    | none => pure (0, account)) fun r s => s.dropPositive r)
  match r with
  | .ok imbalance => pure imbalance
  | .error _ => pure 0

/-- `Currency::withdraw`. -/
def withdraw (who : AccountId) (value : ℕ) (reasons : Reasons) (liveness : ExistenceRequirement) :
    BalancesCall AccountId ℕ := do
  if value = 0 then pure 0 else
  tryMutateAccount T who (fun account _ => do
    let newFreeAccount ← okOr (checkedSub account.free value) (.module .insufficientBalance)
    let wouldBeDead := wrappingAdd balanceBits newFreeAccount account.reserved < T.existentialDeposit
    let wouldKill := wouldBeDead ∧
      T.existentialDeposit ≤ wrappingAdd balanceBits account.free account.reserved
    ensure (liveness = .allowDeath ∨ ¬ wouldKill) (.module .keepAlive)
    ensureCanWithdraw who value reasons newFreeAccount
    pure (value, { account with free := newFreeAccount })) fun r s => s.dropNegative r

/-- `Currency::make_free_balance_be`. -/
def makeFreeBalanceBe (who : AccountId) (value : ℕ) : BalancesCall AccountId SignedImbalance := do
  let r ← attempt (tryMutateAccount T who (fun account isNew => do
    let total := saturatingAdd balanceBits value account.reserved
    ensure (total ≥ T.existentialDeposit ∨ ¬ isNew) (.module .existentialDeposit)
    let imbalance : SignedImbalance := if account.free ≤ value then .positive (value - account.free)
      else .negative (account.free - value)
    pure (imbalance, { account with free := value })) fun r s => s.dropSigned r)
  match r with
  | .ok imbalance => pure imbalance
  | .error _ => pure (.positive 0)

/-! ## `ReservableCurrency` -/

/-- `ReservableCurrency::reserve`. -/
def reserve (who : AccountId) (value : ℕ) : BalancesCall AccountId Unit := do
  if value = 0 then pure () else
  tryMutateAccount T who (fun account _ => do
    let free ← okOr (checkedSub account.free value) (.module .insufficientBalance)
    let reserved ← okOr (checkedAdd balanceBits account.reserved value) (.module .overflow)
    ensureCanWithdraw who value .misc free
    pure ((), { account with free, reserved })) keep

/-- `ReservableCurrency::unreserve`: returns what could not be unreserved. -/
def unreserve (who : AccountId) (value : ℕ) : BalancesCall AccountId ℕ := do
  if value = 0 then pure 0 else
  if ((← get).info who).data.total = 0 then pure value else
  let r ← attempt (mutateAccount T who (fun account => do
    let actual := min account.reserved value
    pure (actual, { account with reserved := account.reserved - actual,
                                 free := saturatingAdd balanceBits account.free actual })) keep)
  match r with
  | .ok actual => pure (value - actual)
  | .error _ => pure value

def slashReservedAttempt (who : AccountId) (value : ℕ) (first : Bool) :
    BalancesCall AccountId (ℕ × ℕ) :=
  mutateAccount T who (fun account => do
    let bestValue := if first then value
      else min value (saturatingSub (wrappingAdd balanceBits account.free account.reserved)
        T.existentialDeposit)
    let actual := min account.reserved bestValue
    pure ((actual, value - actual), { account with reserved := account.reserved - actual }))
    fun r s => s.dropNegative r.1

/-- `ReservableCurrency::slash_reserved`. -/
def slashReserved (who : AccountId) (value : ℕ) : BalancesCall AccountId (ℕ × ℕ) := do
  if value = 0 then pure (0, 0) else
  if ((← get).info who).data.total = 0 then pure (0, value) else
  match ← attempt (slashReservedAttempt T who value true) with
  | .ok r => pure r
  | .error _ =>
    match ← attempt (slashReservedAttempt T who value false) with
    | .ok r => pure r
    | .error _ => pure (0, value)

/-- `ReservableCurrency::repatriate_reserved`: returns what could not be
moved. -/
def repatriateReserved (slashed beneficiary : AccountId) (value : ℕ) (status : BalanceStatus) :
    BalancesCall AccountId ℕ := do
  if value = 0 then pure 0 else
  if slashed = beneficiary then
    match status with
    | .free => unreserve T slashed value
    | .reserved => pure (saturatingSub value ((← get).info slashed).data.reserved)
  else
  let actual ← tryMutateAccount T beneficiary (fun toAccount isNew => do
    ensure (¬ isNew) (.module .deadAccount)
    let (actual, toAccount) ← tryMutateAccount T slashed (fun fromAccount _ => do
      let actual := min fromAccount.reserved value
      let toAccount ← match status with
        | .free => do
          let free ← okOr (checkedAdd balanceBits toAccount.free actual) (.module .overflow)
          pure { toAccount with free }
        | .reserved => do
          let reserved ← okOr (checkedAdd balanceBits toAccount.reserved actual) (.module .overflow)
          pure { toAccount with reserved }
      pure ((actual, toAccount), { fromAccount with reserved := fromAccount.reserved - actual })) keep
    pure (actual, toAccount)) keep
  pure (value - actual)

/-! ## Dispatchables -/

/-- `ensure_signed`. -/
def ensureSigned (origin : Origin AccountId) : BalancesCall AccountId AccountId :=
  mapError (fun _ => .badOrigin) (SocialNetwork.ensureSigned origin)

/-- `ensure_root`. -/
def ensureRoot (origin : Origin AccountId) : BalancesCall AccountId Unit :=
  mapError (fun _ => .badOrigin) (SocialNetwork.ensureRoot origin)

/-- `set_balance`: below the existential deposit, both balances are set to
zero. Its imbalances are dropped inside the closure. -/
def setBalance (origin : Origin AccountId) (who : AccountId) (newFree newReserved : ℕ) :
    BalancesCall AccountId Unit := do
  ensureRoot origin
  let wipeout := wrappingAdd balanceBits newFree newReserved < T.existentialDeposit
  let newFree := if wipeout then 0 else newFree
  let newReserved := if wipeout then 0 else newReserved
  let _ ← mutateAccount T who (fun account => do
    write (·.dropChange account.free newFree)
    write (·.dropChange account.reserved newReserved)
    pure ((newFree, newReserved), { account with free := newFree, reserved := newReserved })) keep

end Accounts

/-- What can change the balances: a dispatchable, or a `Currency` or
`ReservableCurrency` function called by another pallet, whose imbalance the
caller drops. -/
inductive Command (AccountId : Type) where
  | transfer (origin : Origin AccountId) (dest : AccountId) (value : ℕ)
  | transferKeepAlive (origin : Origin AccountId) (dest : AccountId) (value : ℕ)
  | forceTransfer (origin : Origin AccountId) (source dest : AccountId) (value : ℕ)
  | setBalance (origin : Origin AccountId) (who : AccountId) (newFree newReserved : ℕ)
  | currencyTransfer (transactor dest : AccountId) (value : ℕ) (req : ExistenceRequirement)
  | slash (who : AccountId) (value : ℕ)
  | depositIntoExisting (who : AccountId) (value : ℕ)
  | depositCreating (who : AccountId) (value : ℕ)
  | withdraw (who : AccountId) (value : ℕ) (reasons : Reasons) (liveness : ExistenceRequirement)
  | makeFreeBalanceBe (who : AccountId) (value : ℕ)
  | reserve (who : AccountId) (value : ℕ)
  | unreserve (who : AccountId) (value : ℕ)
  | slashReserved (who : AccountId) (value : ℕ)
  | repatriateReserved (slashed beneficiary : AccountId) (value : ℕ) (status : BalanceStatus)
  deriving DecidableEq, Repr

/-- One command, with the imbalance it returns dropped. -/
def Command.apply (T : Config) : Command AccountId → BalancesCall AccountId Unit
  | .transfer origin dest value => do
    let transactor ← ensureSigned origin
    Balances.transfer T transactor dest value .allowDeath
  | .transferKeepAlive origin dest value => do
    let transactor ← ensureSigned origin
    Balances.transfer T transactor dest value .keepAlive
  | .forceTransfer origin source dest value => do
    ensureRoot origin
    Balances.transfer T source dest value .allowDeath
  | .setBalance origin who newFree newReserved => Balances.setBalance T origin who newFree newReserved
  | .currencyTransfer transactor dest value req => Balances.transfer T transactor dest value req
  | .slash who value => do
    let (imbalance, _) ← Balances.slash T who value
    write (·.dropNegative imbalance)
  | .depositIntoExisting who value => do
    let imbalance ← Balances.depositIntoExisting T who value
    write (·.dropPositive imbalance)
  | .depositCreating who value => do
    let imbalance ← Balances.depositCreating T who value
    write (·.dropPositive imbalance)
  | .withdraw who value reasons liveness => do
    let imbalance ← Balances.withdraw T who value reasons liveness
    write (·.dropNegative imbalance)
  | .makeFreeBalanceBe who value => do
    let imbalance ← Balances.makeFreeBalanceBe T who value
    write (·.dropSigned imbalance)
  | .reserve who value => Balances.reserve T who value
  | .unreserve who value => do
    let _ ← Balances.unreserve T who value
  | .slashReserved who value => do
    let (imbalance, _) ← Balances.slashReserved T who value
    write (·.dropNegative imbalance)
  | .repatriateReserved slashed beneficiary value status => do
    let _ ← Balances.repatriateReserved T slashed beneficiary value status

end SocialNetwork.Balances
