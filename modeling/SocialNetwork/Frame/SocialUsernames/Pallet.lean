import SocialNetwork.Frame.Support
import SocialNetwork.Lib.BinarySearch
import SocialNetwork.Lib.StorageMap

/-!
# `pallet_social_usernames`

The name registry of `src/frame/social-usernames/src/lib.rs`. An account
registers one username, asking a registrar for a judgement. `RegistrationOf`
maps the name to its registration, which records the account and the
judgements, and `Account` maps the account back to its name. Registrars are
appended to `Registrars` by `RegistrarOrigin` and never removed. A registrar
gives its judgement with `provide_judgement`. The judgements of a
registration are kept ordered by registrar index, and each new one goes in
through `binary_search_by_key`. The owner unregisters its name, and
`ForceOrigin` kills any name.

Every check of a call comes before its first write, so a call that returns
`Err` writes nothing. The events and the weights returned are left out.
-/

namespace SocialNetwork.SocialUsernames

open Dispatch BinarySearch

abbrev RegistrarIndex := ℕ

/-- `Judgement`. -/
inductive Judgement where
  | requested
  | approved
  deriving DecidableEq, Repr

/-- `Registration`: the judgements, one per registrar, ordered by registrar
index, and the account. -/
structure Registration (AccountId : Type) where
  judgements : List (RegistrarIndex × Judgement)
  accountId : AccountId
  deriving DecidableEq, Repr

/-- What the runtime fixes. -/
structure Config (AccountId : Type) where
  maxRegistrars : ℕ
  minUsernameLength : ℕ
  maxUsernameLength : ℕ
  /-- `T::ForceOrigin::ensure_origin` succeeds. -/
  forceOrigin : Origin AccountId → Bool
  /-- `T::RegistrarOrigin::ensure_origin` succeeds. -/
  registrarOrigin : Origin AccountId → Bool

/-- The storage of the pallet. -/
structure State (AccountId : Type) where
  registrationOf : StorageMap (List UInt8) (Registration AccountId)
  account : StorageMap AccountId (List UInt8)
  registrars : List (Option AccountId)

variable {AccountId : Type} [DecidableEq AccountId]

/-- The storage before any call: the pallet has no genesis configuration. -/
def State.empty : State AccountId where
  registrationOf := ∅
  account := ∅
  registrars := []

abbrev UsernamesCall (AccountId : Type) := Call DispatchError (State AccountId)

/-- `is_valid_char`: `0-9`, `a-z`, `_`, `-` and `.`. -/
def isValidChar (c : UInt8) : Bool :=
  (c ≥ 48 && c ≤ 57) || (c ≥ 97 && c ≤ 122) || c == 95 || c == 45 || c == 46

/-- `validate_username`. -/
def validateUsername (T : Config AccountId) (username : List UInt8) : Except DispatchError Unit :=
  if ¬ username.length ≥ T.minUsernameLength then .error (.socialUsernames .usernameIsVeryShort)
  else if ¬ username.length ≤ T.maxUsernameLength then .error (.socialUsernames .usernameIsVeryLong)
  else if ¬ username.all isValidChar then .error (.socialUsernames .usernameHasInvalidChars)
  else .ok ()

section Calls

variable (T : Config AccountId)

/-- `add_registrar`. -/
def addRegistrar (origin : Origin AccountId) (account : AccountId) : UsernamesCall AccountId Unit := do
  ensure (T.registrarOrigin origin) .badOrigin
  let s ← get
  ensure (s.registrars.length < T.maxRegistrars) (.socialUsernames .tooManyRegistrars)
  modify fun s => { s with registrars := s.registrars ++ [some account] }

/-- `register`: the name and the account must both be free, and the
registrar asked must exist. -/
def register (origin : Origin AccountId) (username : List UInt8) (regIndex : RegistrarIndex) :
    UsernamesCall AccountId Unit := do
  let sender ← ensureSigned origin
  ofExcept (validateUsername T username)
  let s ← get
  ensure (username ∉ s.registrationOf) (.socialUsernames .usernameAlreadyRegistered)
  ensure (sender ∉ s.account) (.socialUsernames .accountAlreadyRegistered)
  let _registrar ← okOr (s.registrars[regIndex]?).join (.socialUsernames .emptyIndex)
  let item := (regIndex, Judgement.requested)
  modify fun s => { s with
    registrationOf := s.registrationOf.insert username { judgements := [item], accountId := sender } }
  modify fun s => { s with account := s.account.insert sender username }

/-- `unregister`: only the name's own account. -/
def unregister (origin : Origin AccountId) (username : List UInt8) : UsernamesCall AccountId Unit := do
  let sender ← ensureSigned origin
  ofExcept (validateUsername T username)
  let s ← get
  match s.registrationOf.lookup username with
  | some registration =>
      if registration.accountId = sender then do
        modify fun s => { s with registrationOf := s.registrationOf.erase username }
        modify fun s => { s with account := s.account.erase sender }
      else fail (.socialUsernames .unregisterForbidden)
  | none => fail (.socialUsernames .usernameNotFound)

/-- `kill_username`: `RegistrationOf::take`, then the account's entry. -/
def killUsername (origin : Origin AccountId) (username : List UInt8) : UsernamesCall AccountId Unit := do
  ensure (T.forceOrigin origin) .badOrigin
  ofExcept (validateUsername T username)
  let s ← get
  let registration ← okOr (s.registrationOf.lookup username) (.socialUsernames .usernameNotFound)
  modify fun s => { s with registrationOf := s.registrationOf.erase username }
  modify fun s => { s with account := s.account.erase registration.accountId }

/-- `provide_judgement`: the signer must be the registrar at `reg_index`.
The judgement replaces the registrar's earlier one, or goes in where the
search puts it. -/
def provideJudgement (origin : Origin AccountId) (regIndex : RegistrarIndex)
    (username : List UInt8) (judgement : Judgement) : UsernamesCall AccountId Unit := do
  let sender ← ensureSigned origin
  ofExcept (validateUsername T username)
  let s ← get
  let registration ← okOr (s.registrationOf.lookup username) (.socialUsernames .usernameNotFound)
  let _ ← okOr ((s.registrars[regIndex]?).join.bind fun account =>
    if account = sender then some account else none) (.socialUsernames .invalidIndex)
  let item := (regIndex, judgement)
  let judgements :=
    match binarySearchByKey Prod.fst registration.judgements regIndex with
    | .ok position => registration.judgements.set position item
    | .error position => registration.judgements.insertIdx position item
  modify fun s => { s with
    registrationOf := s.registrationOf.insert username { registration with judgements } }

/-- The calls of the pallet. -/
inductive Entry (AccountId : Type) where
  | addRegistrar (origin : Origin AccountId) (account : AccountId)
  | register (origin : Origin AccountId) (username : List UInt8) (regIndex : RegistrarIndex)
  | unregister (origin : Origin AccountId) (username : List UInt8)
  | killUsername (origin : Origin AccountId) (username : List UInt8)
  | provideJudgement (origin : Origin AccountId) (regIndex : RegistrarIndex)
      (username : List UInt8) (judgement : Judgement)

/-- Run an entry point. -/
def Entry.apply : Entry AccountId → UsernamesCall AccountId Unit
  | .addRegistrar o account => SocialUsernames.addRegistrar T o account
  | .register o username regIndex => SocialUsernames.register T o username regIndex
  | .unregister o username => SocialUsernames.unregister T o username
  | .killUsername o username => SocialUsernames.killUsername T o username
  | .provideJudgement o regIndex username judgement =>
      SocialUsernames.provideJudgement T o regIndex username judgement

end Calls

end SocialNetwork.SocialUsernames
