import SocialNetwork.Frame.Support
import SocialNetwork.Lib.StorageMap

/-!
# `pallet_assets`

The assets pallet of `src/frame/assets/src/lib.rs`: fungible asset classes
with a supply, per-account balances, zombie accounting, and the `Fungible`
and `IssueAndBurn` traits through which the social pallets use it.

Storage is `State`: the maps `Asset`, `Account`, `Metadata`, `Allowances`
and the value `MaxAssetId`, beside `env`, the state of the rest of the
runtime (`frame_system`'s reference counts, `pallet_balances`' deposits).
`Account` is a double map with a value query; here it is one finite map per
asset, so that "the entries of asset `id`" is a value and `remove_prefix`
is one write.

Calls follow the source line by line. A `try_mutate` closure runs on a copy
of the entry and writes it back only if it returns `Ok` (`tryMutateAsset`,
`tryMutateAccount`); the closure itself may write other storage first,
exactly as in the source. Code that the source repeats verbatim is named
once: crediting the destination account (`creditAccount`, in `do_mint`,
`do_transfer` and `force_transfer`), closing the source account
(`settleSource`), and the tail of `do_transfer` and `force_transfer` that
runs both (`moveBalance`).
-/

namespace SocialNetwork.Assets

open Dispatch Unsigned

/-- `AssetDetails`. -/
structure AssetDetails (AccountId : Type) where
  owner : AccountId
  issuer : AccountId
  admin : AccountId
  freezer : AccountId
  supply : ℕ
  deposit : ℕ
  maxZombies : ℕ
  minBalance : ℕ
  zombies : ℕ
  accounts : ℕ
  isFrozen : Bool
  deriving DecidableEq, Repr

/-- `AssetBalance`; its `Default` is the value query of a missing entry. -/
structure AssetBalance where
  balance : ℕ
  isFrozen : Bool
  isZombie : Bool
  deriving DecidableEq, Repr, Inhabited

@[simp] theorem AssetBalance.default_balance : (default : AssetBalance).balance = 0 := rfl

@[simp] theorem AssetBalance.default_isZombie : (default : AssetBalance).isZombie = false := rfl

/-- `AssetMetadata`. -/
structure AssetMetadata where
  deposit : ℕ
  name : List UInt8
  symbol : List UInt8
  decimals : ℕ
  deriving DecidableEq, Repr, Inhabited

/-- The constants of `pallet_assets::Config`. -/
structure Config (AccountId : Type) where
  assetDepositBase : ℕ
  assetDepositPerZombie : ℕ
  stringLimit : ℕ
  metadataDepositBase : ℕ
  metadataDepositPerByte : ℕ
  /-- `T::ForceOrigin::ensure_origin` succeeds. -/
  forceOrigin : Origin AccountId → Bool

/-- `CheckAssetIssuer`. -/
inductive CheckAssetIssuer where
  | yes
  | no
  deriving DecidableEq, Repr

/-- The storage of `pallet_assets`, and the rest of the runtime. -/
structure State (AccountId E : Type) where
  asset : ℕ → Option (AssetDetails AccountId)
  account : ℕ → StorageMap AccountId AssetBalance
  metadata : ℕ → Option AssetMetadata
  maxAssetId : ℕ
  allowances : ℕ → AccountId → AccountId → ℕ
  env : E

variable {AccountId E α : Type} [DecidableEq AccountId]

namespace State

def getAccount (s : State AccountId E) (id : ℕ) (who : AccountId) : AssetBalance :=
  ((s.account id).lookup who).getD default

def insertAccount (s : State AccountId E) (id : ℕ) (who : AccountId) (v : AssetBalance) :
    State AccountId E :=
  { s with account := Function.update s.account id ((s.account id).insert who v) }

def removeAccount (s : State AccountId E) (id : ℕ) (who : AccountId) : State AccountId E :=
  { s with account := Function.update s.account id ((s.account id).erase who) }

def setAsset (s : State AccountId E) (id : ℕ) (d : Option (AssetDetails AccountId)) :
    State AccountId E :=
  { s with asset := Function.update s.asset id d }

variable (s : State AccountId E) (id : ℕ) (who : AccountId)

omit [DecidableEq AccountId] in
@[simp] theorem setAsset_asset (d : Option (AssetDetails AccountId)) :
    (s.setAsset id d).asset = Function.update s.asset id d := rfl

omit [DecidableEq AccountId] in
@[simp] theorem setAsset_account (d : Option (AssetDetails AccountId)) :
    (s.setAsset id d).account = s.account := rfl

@[simp] theorem insertAccount_asset (v : AssetBalance) : (s.insertAccount id who v).asset = s.asset :=
  rfl

@[simp] theorem insertAccount_account (v : AssetBalance) :
    (s.insertAccount id who v).account =
      Function.update s.account id ((s.account id).insert who v) := rfl

@[simp] theorem removeAccount_asset : (s.removeAccount id who).asset = s.asset := rfl

@[simp] theorem removeAccount_account :
    (s.removeAccount id who).account = Function.update s.account id ((s.account id).erase who) :=
  rfl

end State

abbrev AssetsCall (AccountId E : Type) := Call DispatchError (State AccountId E)

/-- `Asset::<T>::try_mutate(id, f)` and `try_mutate_exists`: the closure gets
the stored details and returns the value to store, which is written only
if it returns `Ok`. -/
def tryMutateAsset (id : ℕ)
    (f : Option (AssetDetails AccountId) →
      AssetsCall AccountId E (Option (AssetDetails AccountId) × α)) : AssetsCall AccountId E α := do
  let s ← get
  let (d, a) ← f (s.asset id)
  modify (·.setAsset id d)
  pure a

/-- `Account::<T>::try_mutate(id, who, f)` on the value query. -/
def tryMutateAccount (id : ℕ) (who : AccountId)
    (f : AssetBalance → AssetsCall AccountId E (AssetBalance × α)) : AssetsCall AccountId E α := do
  let s ← get
  let (v, a) ← f (s.getAccount id who)
  modify (·.insertAccount id who v)
  pure a

def tryMutateAccountExists (id : ℕ) (who : AccountId)
    (f : Option AssetBalance → AssetsCall AccountId E (Option AssetBalance × α)) :
    AssetsCall AccountId E α := do
  let s ← get
  let (v, a) ← f ((s.account id).lookup who)
  match v with
  | some v => modify (·.insertAccount id who v)
  | none => modify (·.removeAccount id who)
  pure a

def onEnv (m : Call DispatchError E α) : AssetsCall AccountId E α :=
  zoom State.env (fun s e => { s with env := e }) m

/-! ## Internal functions -/

section Internal

variable (env : Env AccountId E) (T : Config AccountId)

/-- `new_account`: count a new balance-holding account of the asset. An
account that exists in `frame_system` takes a consumer reference; one that
does not becomes a zombie, within the asset's allowance. -/
def newAccount (who : AccountId) (d : AssetDetails AccountId) :
    AssetsCall AccountId E (Bool × AssetDetails AccountId) := do
  let accounts ← okOr (checkedAdd 32 d.accounts 1) (.assets .overflow)
  let s ← get
  if env.accountExists s.env who then
    let e ← okOr (env.incConsumers s.env who) (.assets .badState)
    set { s with env := e }
    pure (false, { d with accounts })
  else
    ensure (d.zombies < d.maxZombies) (.assets .tooManyZombies)
    -- `d.zombies += 1` cannot wrap: it is below `max_zombies`, a `u32`
    pure (true, { d with zombies := d.zombies + 1, accounts })

/-- `dezombify`: a zombie that now exists in `frame_system` takes a consumer
reference instead. The result of `inc_consumers` is dropped, as in the
source. -/
def dezombify (who : AccountId) (d : AssetDetails AccountId) (isZombie : Bool) :
    AssetsCall AccountId E (Bool × AssetDetails AccountId) := do
  let s ← get
  if isZombie ∧ env.accountExists s.env who then
    set { s with env := (env.incConsumers s.env who).getD s.env }
    pure (false, { d with zombies := d.zombies - 1 })
  else pure (isZombie, d)

/-- `dead_account`: uncount an account whose entry is removed. -/
def deadAccount (who : AccountId) (d : AssetDetails AccountId) (isZombie : Bool) :
    AssetsCall AccountId E (AssetDetails AccountId) := do
  let d ← if isZombie then pure { d with zombies := d.zombies - 1 }
    else do
      modify fun s => { s with env := env.decConsumers s.env who }
      pure d
  pure { d with accounts := d.accounts - 1 }

/-- The closure `Account::<T>::try_mutate(id, who, |a| ...)` that `do_mint`,
`do_transfer` and `force_transfer` share: credit `amount` to `who`, which must
end at or above the minimum balance, counting `who` as a new account when
its balance was zero. -/
def creditAccount (id : ℕ) (who : AccountId) (amount : ℕ) (details : AssetDetails AccountId) :
    AssetsCall AccountId E (AssetDetails AccountId) :=
  tryMutateAccount id who fun a => do
    let newBalance := saturatingAdd balanceBits a.balance amount
    ensure (details.minBalance ≤ newBalance) (.assets .balanceLow)
    if a.balance = 0 then
      let (isZombie, details) ← newAccount env who details
      pure ({ a with balance := newBalance, isZombie }, details)
    else pure ({ a with balance := newBalance }, details)

/-- The end of `do_transfer` and `force_transfer`: write the source account
back, or remove it when it was emptied. -/
def settleSource (id : ℕ) (source : AccountId) (sourceAccount : AssetBalance)
    (details : AssetDetails AccountId) : AssetsCall AccountId E (AssetDetails AccountId) :=
  if sourceAccount.balance = 0 then do
    let details ← deadAccount env source details sourceAccount.isZombie
    modify (·.removeAccount id source)
    pure details
  else do
    let (isZombie, details) ← dezombify env source details sourceAccount.isZombie
    modify (·.insertAccount id source { sourceAccount with isZombie })
    pure details

/-- The dust rule of `do_transfer` and `force_transfer`: a source left below
the minimum balance is swept into the amount moved. Returns the amount and
the source account. -/
def sweepDust (amount : ℕ) (sourceAccount : AssetBalance) (d : AssetDetails AccountId) :
    ℕ × AssetBalance :=
  -- `amount += balance` cannot wrap: the sum is the source's balance before the call
  if sourceAccount.balance < d.minBalance then
    (amount + sourceAccount.balance, { sourceAccount with balance := 0 })
  else (amount, sourceAccount)

/-- What `do_transfer` and `force_transfer` do once the details are checked
and the source debited: sweep the dust, credit `dest`, settle the source. -/
def moveBalance (id : ℕ) (source dest : AccountId) (amount : ℕ) (sourceAccount : AssetBalance)
    (details : AssetDetails AccountId) : AssetsCall AccountId E (AssetDetails AccountId) := do
  let (amount, sourceAccount) := sweepDust amount sourceAccount details
  let details ← creditAccount env id dest amount details
  settleSource env id source sourceAccount details

/-- `do_create`. -/
def doCreate (id : ℕ) (owner admin : AccountId) (maxZombies minBalance : ℕ) :
    AssetsCall AccountId E Unit := do
  let s ← get
  ensure (s.asset id = none) (.assets .inUse)
  ensure (minBalance ≠ 0) (.assets .minBalanceZero)
  let deposit := saturatingAdd balanceBits
    (saturatingMul balanceBits T.assetDepositPerZombie maxZombies) T.assetDepositBase
  onEnv (Env.currency fun e => env.reserve e owner deposit)
  modify (·.setAsset id (some
    { owner, issuer := admin, admin, freezer := admin, supply := 0, deposit, maxZombies,
      minBalance, zombies := 0, accounts := 0, isFrozen := false }))
  modify fun s => if s.maxAssetId < id then { s with maxAssetId := id } else s

/-- `do_mint`. -/
def doMint (id : ℕ) (issuer beneficiary : AccountId) (amount : ℕ)
    (checkAssetIssuer : CheckAssetIssuer) : AssetsCall AccountId E Unit :=
  tryMutateAsset id fun maybeDetails => do
    let details ← okOr maybeDetails (.assets .unknown)
    ensure (checkAssetIssuer = .no ∨ issuer = details.issuer) (.assets .noPermission)
    let supply ← okOr (checkedAdd balanceBits details.supply amount) (.assets .overflow)
    let details ← creditAccount env id beneficiary amount { details with supply }
    pure (some details, ())

/-- `do_burn`: burn up to `amount` from `who`; a balance left below the
minimum is burned as well and the account removed. -/
def doBurn (id : ℕ) (caller who : AccountId) (amount : ℕ) (checkAssetIssuer : CheckAssetIssuer) :
    AssetsCall AccountId E Unit :=
  tryMutateAsset id fun maybeDetails => do
    let d ← okOr maybeDetails (.assets .unknown)
    ensure (checkAssetIssuer = .no ∨ caller = d.admin) (.assets .noPermission)
    let (burned, d) ← tryMutateAccountExists id who fun maybeAccount => do
      let account ← okOr maybeAccount (.assets .balanceZero)
      let burned := min amount account.balance
      let account := { account with balance := account.balance - burned }
      if account.balance < d.minBalance then
        let d ← deadAccount env who d account.isZombie
        pure (none, (burned + account.balance, d))
      else pure (some account, (burned, d))
    pure (some { d with supply := saturatingSub d.supply burned }, ())

/-- `do_transfer`. -/
def doTransfer (id : ℕ) (source dest : AccountId) (amount : ℕ) : AssetsCall AccountId E Unit := do
  ensure (amount ≠ 0) (.assets .amountZero)
  let s ← get
  let originAccount := s.getAccount id source
  ensure (originAccount.isFrozen = false) (.assets .frozen)
  let balance ← okOr (checkedSub originAccount.balance amount) (.assets .balanceLow)
  let originAccount := { originAccount with balance }
  tryMutateAsset id fun maybeDetails => do
    let details ← okOr maybeDetails (.assets .unknown)
    ensure (details.isFrozen = false) (.assets .frozen)
    if dest = source then pure (some details, ()) else
    let details ← moveBalance env id source dest amount originAccount details
    pure (some details, ())

/-- `validate_asset_id`, which other pallets call: the asset must exist. -/
def validateAssetId (id : ℕ) : AssetsCall AccountId E Unit := do
  let s ← get
  ensure (s.asset id ≠ none) (.assets .unknown)

end Internal

/-! ## Dispatchables -/

section Calls

variable (env : Env AccountId E) (T : Config AccountId)

/-- `create`. -/
def create (origin : Origin AccountId) (id : ℕ) (admin : AccountId) (maxZombies minBalance : ℕ) :
    AssetsCall AccountId E Unit := do
  let owner ← ensureSigned origin
  doCreate env T id owner admin maxZombies minBalance

/-- `force_create`: as `do_create`, without a deposit. -/
def forceCreate (origin : Origin AccountId) (id : ℕ) (owner : AccountId)
    (maxZombies minBalance : ℕ) : AssetsCall AccountId E Unit := do
  ensure (T.forceOrigin origin) .badOrigin
  let s ← get
  ensure (s.asset id = none) (.assets .inUse)
  ensure (minBalance ≠ 0) (.assets .minBalanceZero)
  modify (·.setAsset id (some
    { owner, issuer := owner, admin := owner, freezer := owner, supply := 0, deposit := 0,
      maxZombies, minBalance, zombies := 0, accounts := 0, isFrozen := false }))
  modify fun s => if s.maxAssetId < id then { s with maxAssetId := id } else s

/-- The closure of `Asset::<T>::try_mutate_exists` that `destroy` and
`force_destroy` share; `permitted` is `destroy`'s owner check, and always
holds for `force_destroy`, which has none. -/
def destroyAsset (permitted : AssetDetails AccountId → Bool) (id zombiesWitness : ℕ) :
    AssetsCall AccountId E Unit :=
  tryMutateAsset id fun maybeDetails => do
    let details ← okOr maybeDetails (.assets .unknown)
    ensure (permitted details) (.assets .noPermission)
    ensure (details.accounts = details.zombies) (.assets .refsLeft)
    ensure (details.zombies ≤ zombiesWitness) (.assets .badWitness)
    let s ← get
    let metadata := (s.metadata id).getD default
    set { s with metadata := Function.update s.metadata id none }
    onEnv (modify fun e => env.unreserve e details.owner
      (saturatingAdd balanceBits details.deposit metadata.deposit))
    modify fun s => { s with account := Function.update s.account id ∅ }
    pure (none, ())

/-- `destroy`. -/
def destroy (origin : Origin AccountId) (id zombiesWitness : ℕ) : AssetsCall AccountId E Unit := do
  let origin ← ensureSigned origin
  destroyAsset env (fun d => d.owner = origin) id zombiesWitness

/-- `force_destroy`. -/
def forceDestroy (origin : Origin AccountId) (id zombiesWitness : ℕ) :
    AssetsCall AccountId E Unit := do
  ensure (T.forceOrigin origin) .badOrigin
  destroyAsset env (fun _ => true) id zombiesWitness

/-- `mint`. -/
def mint (origin : Origin AccountId) (id : ℕ) (beneficiary : AccountId) (amount : ℕ) :
    AssetsCall AccountId E Unit := do
  let origin ← ensureSigned origin
  doMint env id origin beneficiary amount .yes

/-- `burn`. -/
def burn (origin : Origin AccountId) (id : ℕ) (who : AccountId) (amount : ℕ) :
    AssetsCall AccountId E Unit := do
  let origin ← ensureSigned origin
  doBurn env id origin who amount .yes

/-- `transfer`. -/
def transfer (origin : Origin AccountId) (id : ℕ) (target : AccountId) (amount : ℕ) :
    AssetsCall AccountId E Unit := do
  let origin ← ensureSigned origin
  doTransfer env id origin target amount

/-- `force_transfer`: the admin moves up to `amount` from `source`. Unlike
`do_transfer` it checks no freeze. -/
def forceTransfer (origin : Origin AccountId) (id : ℕ) (source dest : AccountId) (amount : ℕ) :
    AssetsCall AccountId E Unit := do
  let origin ← ensureSigned origin
  let s ← get
  let sourceAccount := s.getAccount id source
  let amount := min amount sourceAccount.balance
  ensure (amount ≠ 0) (.assets .amountZero)
  if dest = source then pure () else
  tryMutateAsset id fun maybeDetails => do
    let details ← okOr maybeDetails (.assets .unknown)
    ensure (origin = details.admin) (.assets .noPermission)
    -- `balance -= amount` cannot wrap: `amount` is at most the balance
    let sourceAccount := { sourceAccount with balance := sourceAccount.balance - amount }
    let details ← moveBalance env id source dest amount sourceAccount details
    pure (some details, ())

/-- The body that `freeze` and `thaw` share: the account `who` of asset `id`
is set frozen or not by the holder of `role`. -/
def setAccountFrozen (role : AssetDetails AccountId → AccountId) (frozen : Bool)
    (origin : Origin AccountId) (id : ℕ) (who : AccountId) : AssetsCall AccountId E Unit := do
  let origin ← ensureSigned origin
  let s ← get
  let d ← okOr (s.asset id) (.assets .unknown)
  ensure (origin = role d) (.assets .noPermission)
  ensure (who ∈ s.account id) (.assets .balanceZero)
  modify fun s => s.insertAccount id who { s.getAccount id who with isFrozen := frozen }

/-- `freeze`: by the freezer. -/
def freeze : Origin AccountId → ℕ → AccountId → AssetsCall AccountId E Unit :=
  setAccountFrozen AssetDetails.freezer true

/-- `thaw`: by the admin. -/
def thaw : Origin AccountId → ℕ → AccountId → AssetsCall AccountId E Unit :=
  setAccountFrozen AssetDetails.admin false

def setAssetFrozen (role : AssetDetails AccountId → AccountId) (frozen : Bool)
    (origin : Origin AccountId) (id : ℕ) : AssetsCall AccountId E Unit := do
  let origin ← ensureSigned origin
  tryMutateAsset id fun maybeDetails => do
    let d ← okOr maybeDetails (.assets .unknown)
    ensure (origin = role d) (.assets .noPermission)
    pure (some { d with isFrozen := frozen }, ())

/-- `freeze_asset`: by the freezer. -/
def freezeAsset : Origin AccountId → ℕ → AssetsCall AccountId E Unit :=
  setAssetFrozen AssetDetails.freezer true

/-- `thaw_asset`: by the admin. -/
def thawAsset : Origin AccountId → ℕ → AssetsCall AccountId E Unit :=
  setAssetFrozen AssetDetails.admin false

/-- `transfer_ownership`: the deposit moves to the new owner. -/
def transferOwnership (origin : Origin AccountId) (id : ℕ) (owner : AccountId) :
    AssetsCall AccountId E Unit := do
  let origin ← ensureSigned origin
  tryMutateAsset id fun maybeDetails => do
    let details ← okOr maybeDetails (.assets .unknown)
    ensure (origin = details.owner) (.assets .noPermission)
    if details.owner = owner then pure (some details, ()) else do
    onEnv (Env.currency fun e => env.repatriateReserved e details.owner owner details.deposit)
    pure (some { details with owner }, ())

/-- `set_team`. -/
def setTeam (origin : Origin AccountId) (id : ℕ) (issuer admin freezer : AccountId) :
    AssetsCall AccountId E Unit := do
  let origin ← ensureSigned origin
  tryMutateAsset id fun maybeDetails => do
    let details ← okOr maybeDetails (.assets .unknown)
    ensure (origin = details.owner) (.assets .noPermission)
    pure (some { details with issuer, admin, freezer }, ())

/-- `set_max_zombies`. The reserve follows the new deposit, but the stored
`deposit` is left as it was, as in the source. -/
def setMaxZombies (origin : Origin AccountId) (id maxZombies : ℕ) : AssetsCall AccountId E Unit := do
  let origin ← ensureSigned origin
  tryMutateAsset id fun maybeDetails => do
    let details ← okOr maybeDetails (.assets .unknown)
    ensure (origin = details.owner) (.assets .noPermission)
    ensure (details.zombies ≤ maxZombies) (.assets .tooManyZombies)
    let newDeposit := saturatingAdd balanceBits
      (saturatingMul balanceBits T.assetDepositPerZombie maxZombies) T.assetDepositBase
    if details.deposit < newDeposit then
      onEnv (Env.currency fun e => env.reserve e origin (newDeposit - details.deposit))
    else onEnv (modify fun e => env.unreserve e origin (details.deposit - newDeposit))
    pure (some { details with maxZombies }, ())

/-- `set_metadata`; empty metadata removes it and returns its deposit. -/
def setMetadata (origin : Origin AccountId) (id : ℕ) (name symbol : List UInt8) (decimals : ℕ) :
    AssetsCall AccountId E Unit := do
  let origin ← ensureSigned origin
  ensure (name.length ≤ T.stringLimit) (.assets .badMetadata)
  ensure (symbol.length ≤ T.stringLimit) (.assets .badMetadata)
  let s ← get
  let d ← okOr (s.asset id) (.assets .unknown)
  ensure (origin = d.owner) (.assets .noPermission)
  let oldDeposit := ((s.metadata id).map (·.deposit)).getD 0
  let bytesUsed := name.length + symbol.length
  if bytesUsed = 0 ∧ decimals = 0 then do
    onEnv (modify fun e => env.unreserve e origin oldDeposit)
    modify fun s => { s with metadata := Function.update s.metadata id none }
  else do
    let newDeposit := saturatingAdd balanceBits
      (saturatingMul balanceBits T.metadataDepositPerByte bytesUsed) T.metadataDepositBase
    if oldDeposit < newDeposit then
      onEnv (Env.currency fun e => env.reserve e origin (newDeposit - oldDeposit))
    else onEnv (modify fun e => env.unreserve e origin (oldDeposit - newDeposit))
    let metadata : AssetMetadata := { deposit := newDeposit, name, symbol, decimals }
    modify fun s => { s with metadata := Function.update s.metadata id (some metadata) }

end Calls

/-! ## The `Fungible` and `IssueAndBurn` traits -/

/-- `Pallet::total_supply` and `Fungible::total_supply`. -/
def totalSupply (s : State AccountId E) (id : ℕ) : ℕ := ((s.asset id).map (·.supply)).getD 0

/-- `Pallet::balance` and `Fungible::balances`. -/
def balance (s : State AccountId E) (id : ℕ) (who : AccountId) : ℕ := (s.getAccount id who).balance

namespace Fungible

variable (env : Env AccountId E)

/-- `Fungible::transfer`. -/
def transfer (tokenId : ℕ) (source dest : AccountId) (value : ℕ) : AssetsCall AccountId E Unit :=
  doTransfer env tokenId source dest value

/-- `Fungible::transfer_from`: spend `operator`'s allowance over `source`. -/
def transferFrom (tokenId : ℕ) (source operator dest : AccountId) (value : ℕ) :
    AssetsCall AccountId E Unit := do
  let s ← get
  let newAllowance ← okOr (checkedSub (s.allowances tokenId source operator) value)
    (.assets .overflow)
  if source ≠ dest then doTransfer env tokenId source dest value
  modify fun s =>
    let row := Function.update (s.allowances tokenId source) operator newAllowance
    { s with allowances :=
        Function.update s.allowances tokenId (Function.update (s.allowances tokenId) source row) }

end Fungible

namespace IssueAndBurn

variable (env : Env AccountId E) (T : Config AccountId)

/-- `IssueAndBurn::exists`. -/
def «exists» (s : State AccountId E) (assetId : ℕ) : Bool := (s.asset assetId).isSome

/-- `IssueAndBurn::create_new_asset`: the next id after `MaxAssetId`, with
`owner` as owner and admin. `MaxAssetId + 1` wraps at `u32`. -/
def createNewAsset (owner : AccountId) (maxZombies minBalance : ℕ) : AssetsCall AccountId E ℕ := do
  let s ← get
  let id := wrappingAdd assetIdBits s.maxAssetId 1
  doCreate env T id owner owner maxZombies minBalance
  pure id

/-- `IssueAndBurn::issue`. -/
def issue (tokenId : ℕ) (who : AccountId) (value : ℕ) : AssetsCall AccountId E Unit := do
  let s ← get
  ensure («exists» s tokenId) (.assets .unknown)
  doMint env tokenId who who value .no

/-- `IssueAndBurn::burn`. -/
def burn (tokenId : ℕ) (who : AccountId) (value : ℕ) : AssetsCall AccountId E Unit := do
  let s ← get
  ensure («exists» s tokenId) (.assets .unknown)
  doBurn env tokenId who who value .no

end IssueAndBurn

/-! ## Genesis -/

/-- `GenesisConfig`: asset classes `(id, owner, admin, max_zombies, min_balance)`
and balances `(id, who, balance)`. -/
structure GenesisConfig (AccountId : Type) where
  assets : List (ℕ × AccountId × AccountId × ℕ × ℕ)
  accounts : List (ℕ × AccountId × ℕ)

/-- The empty storage, beside the runtime state `env`. -/
def State.empty (env : E) : State AccountId E where
  asset _ := none
  account _ := ∅
  metadata _ := none
  maxAssetId := 0
  allowances _ _ _ := 0
  env := env

/-- The details `GenesisBuild::build` inserts for the asset class
`(id, owner, admin, max_zombies, min_balance)`. -/
def GenesisConfig.assetDetails (a : ℕ × AccountId × AccountId × ℕ × ℕ) : AssetDetails AccountId :=
  let (_, owner, admin, maxZombies, minBalance) := a
  { owner, issuer := admin, admin, freezer := admin, supply := 0, deposit := 0, maxZombies,
    minBalance, zombies := 0, accounts := 0, isFrozen := false }

/-- `GenesisBuild::build`: insert every asset class, then every balance. -/
def GenesisConfig.build (g : GenesisConfig AccountId) (env : E) : State AccountId E :=
  let s := g.assets.foldl (fun s a => s.setAsset a.1 (some (assetDetails a))) (State.empty env)
  g.accounts.foldl (fun s a =>
    s.insertAccount a.1 a.2.1 { balance := a.2.2, isFrozen := false, isZombie := false }) s

/-! ## Entry points -/

/-- The entry points of `pallet_assets`: its dispatchables (`Call`), and the
`Fungible` and `IssueAndBurn` functions that other pallets call. -/
inductive Entry (AccountId : Type) where
  | create (origin : Origin AccountId) (id : ℕ) (admin : AccountId) (maxZombies minBalance : ℕ)
  | forceCreate (origin : Origin AccountId) (id : ℕ) (owner : AccountId) (maxZombies minBalance : ℕ)
  | destroy (origin : Origin AccountId) (id zombiesWitness : ℕ)
  | forceDestroy (origin : Origin AccountId) (id zombiesWitness : ℕ)
  | mint (origin : Origin AccountId) (id : ℕ) (beneficiary : AccountId) (amount : ℕ)
  | burn (origin : Origin AccountId) (id : ℕ) (who : AccountId) (amount : ℕ)
  | transfer (origin : Origin AccountId) (id : ℕ) (target : AccountId) (amount : ℕ)
  | forceTransfer (origin : Origin AccountId) (id : ℕ) (source dest : AccountId) (amount : ℕ)
  | freeze (origin : Origin AccountId) (id : ℕ) (who : AccountId)
  | thaw (origin : Origin AccountId) (id : ℕ) (who : AccountId)
  | freezeAsset (origin : Origin AccountId) (id : ℕ)
  | thawAsset (origin : Origin AccountId) (id : ℕ)
  | transferOwnership (origin : Origin AccountId) (id : ℕ) (owner : AccountId)
  | setTeam (origin : Origin AccountId) (id : ℕ) (issuer admin freezer : AccountId)
  | setMaxZombies (origin : Origin AccountId) (id maxZombies : ℕ)
  | setMetadata (origin : Origin AccountId) (id : ℕ) (name symbol : List UInt8) (decimals : ℕ)
  | fungibleTransfer (tokenId : ℕ) (source dest : AccountId) (value : ℕ)
  | fungibleTransferFrom (tokenId : ℕ) (source operator dest : AccountId) (value : ℕ)
  | createNewAsset (owner : AccountId) (maxZombies minBalance : ℕ)
  | issue (tokenId : ℕ) (who : AccountId) (value : ℕ)
  | issueAndBurnBurn (tokenId : ℕ) (who : AccountId) (value : ℕ)

/-- Run an entry point. -/
def Entry.apply (env : Env AccountId E) (T : Config AccountId) :
    Entry AccountId → AssetsCall AccountId E Unit
  | .create o id admin z b => Assets.create env T o id admin z b
  | .forceCreate o id owner z b => Assets.forceCreate T o id owner z b
  | .destroy o id w => Assets.destroy env o id w
  | .forceDestroy o id w => Assets.forceDestroy env T o id w
  | .mint o id who amount => Assets.mint env o id who amount
  | .burn o id who amount => Assets.burn env o id who amount
  | .transfer o id who amount => Assets.transfer env o id who amount
  | .forceTransfer o id source dest amount => Assets.forceTransfer env o id source dest amount
  | .freeze o id who => Assets.freeze o id who
  | .thaw o id who => Assets.thaw o id who
  | .freezeAsset o id => Assets.freezeAsset o id
  | .thawAsset o id => Assets.thawAsset o id
  | .transferOwnership o id owner => Assets.transferOwnership env o id owner
  | .setTeam o id issuer admin freezer => Assets.setTeam o id issuer admin freezer
  | .setMaxZombies o id z => Assets.setMaxZombies env T o id z
  | .setMetadata o id name symbol decimals => Assets.setMetadata env T o id name symbol decimals
  | .fungibleTransfer token source dest value => Fungible.transfer env token source dest value
  | .fungibleTransferFrom token source operator dest value =>
      Fungible.transferFrom env token source operator dest value
  | .createNewAsset owner z b => do let _ ← IssueAndBurn.createNewAsset env T owner z b
  | .issue token who value => IssueAndBurn.issue env token who value
  | .issueAndBurnBurn token who value => IssueAndBurn.burn env token who value

end SocialNetwork.Assets
