import SocialNetwork.Frame.Assets.Pallet

/-!
# `pallet_social_guardians`

The guardian registry of `src/frame/social-guardians/src/lib.rs`. A
controller account registers as the guardian of one social token, an asset
of `pallet_assets`. `GuardianOf` maps the account to its token,
`GuardiansOfSocialToken` maps a token to its guardians, and `Guardians`
lists them all, each list in the order of registration; `unregister`
removes the account from all three. At the end of every block,
`on_finalize` keeps a history per era of `pallet_staking`. It drops the
era `history_depth` eras back, records each current guardian's token under
the current era in `GuardianDetailHistory`, and overwrites `GuardianHistory`
of the era with the current list.

`GuardiansOfSocialToken`, `GuardianHistory` and the values of `GuardianOf`
are `ValueQuery` items: a missing key reads as the default. `CurrentEra`
and `HistoryDepth` are read from `pallet_staking` at the end of the block;
here `on_finalize` takes them as arguments. The events and the weights are
left out.
-/

namespace SocialNetwork.SocialGuardians

open Dispatch Unsigned

/-- `EraIndex`, a `u32`. -/
abbrev EraIndex := ℕ

/-- The storage of the pallet, beside the state of `pallet_assets`. -/
structure State (AccountId E : Type) where
  guardianOf : StorageMap AccountId ℕ
  guardiansOfSocialToken : ℕ → List AccountId
  guardians : List AccountId
  guardianHistory : EraIndex → List AccountId
  guardianDetailHistory : EraIndex → StorageMap AccountId ℕ
  assets : Assets.State AccountId E

variable {AccountId E : Type} [DecidableEq AccountId]

def State.init (assets : Assets.State AccountId E) : State AccountId E where
  guardianOf := ∅
  guardiansOfSocialToken _ := []
  guardians := []
  guardianHistory _ := []
  guardianDetailHistory _ := ∅
  assets := assets

abbrev GuardiansCall (AccountId E : Type) := Call DispatchError (State AccountId E)

def onAssets {α : Type} (m : Assets.AssetsCall AccountId E α) : GuardiansCall AccountId E α :=
  zoom State.assets (fun s a => { s with assets := a }) m

/-- `register`: the token must be an asset, and the account not yet a
guardian. -/
def register (origin : Origin AccountId) (socialTokenId : ℕ) : GuardiansCall AccountId E Unit := do
  let validator ← ensureSigned origin
  onAssets (Assets.validateAssetId socialTokenId)
  let s ← get
  ensure (validator ∉ s.guardianOf) (.socialGuardians .alreadyRegistered)
  modify fun s => { s with guardianOf := s.guardianOf.insert validator socialTokenId }
  modify fun s => { s with
    guardiansOfSocialToken := Function.update s.guardiansOfSocialToken socialTokenId
      (s.guardiansOfSocialToken socialTokenId ++ [validator]) }
  modify fun s => { s with guardians := s.guardians ++ [validator] }

/-- `unregister`. -/
def unregister (origin : Origin AccountId) : GuardiansCall AccountId E Unit := do
  let validator ← ensureSigned origin
  let s ← get
  let socialTokenId ← okOr (s.guardianOf.lookup validator) (.socialGuardians .notFound)
  modify fun s => { s with guardianOf := s.guardianOf.erase validator }
  modify fun s => { s with
    guardiansOfSocialToken := Function.update s.guardiansOfSocialToken socialTokenId
      ((s.guardiansOfSocialToken socialTokenId).filter fun accountId => accountId != validator) }
  modify fun s => { s with guardians := s.guardians.filter fun accountId => accountId != validator }

/-- `clean_history`: drop the era `history_depth` eras back, if there is
one. -/
def cleanHistory (currentEra historyDepth : EraIndex) : GuardiansCall AccountId E Unit :=
  match checkedSub currentEra historyDepth with
  | some era => do
      modify fun s => { s with guardianHistory := Function.update s.guardianHistory era [] }
      modify fun s => { s with
        guardianDetailHistory := Function.update s.guardianDetailHistory era ∅ }
  | none => pure ()

/-- One round of `update_history`'s `for_each`: record the champion's token
(the default `0` for an account that has none) under the era. -/
def insertDetail (currentEra : EraIndex) (s : State AccountId E) (champion : AccountId) :
    State AccountId E :=
  { s with
    guardianDetailHistory := Function.update s.guardianDetailHistory currentEra
      ((s.guardianDetailHistory currentEra).insert champion ((s.guardianOf.lookup champion).getD 0)) }

/-- `update_history`. -/
def updateHistory (currentEra : EraIndex) : GuardiansCall AccountId E Unit := do
  let s ← get
  let guardians := s.guardians
  modify fun s => guardians.foldl (insertDetail currentEra) s
  modify fun s => { s with guardianHistory := Function.update s.guardianHistory currentEra guardians }

/-- `on_finalize`, given `CurrentEra` and `HistoryDepth` of `pallet_staking`. -/
def onFinalize (currentEra : Option EraIndex) (historyDepth : EraIndex) :
    GuardiansCall AccountId E Unit := do
  let currentEra := currentEra.getD 0
  cleanHistory currentEra historyDepth
  updateHistory currentEra

/-- The entry points: the pallet's calls, its end-of-block hook, and the
calls of `pallet_assets`. -/
inductive Entry (AccountId : Type) where
  | register (origin : Origin AccountId) (socialTokenId : ℕ)
  | unregister (origin : Origin AccountId)
  | onFinalize (currentEra : Option EraIndex) (historyDepth : EraIndex)
  | assets (c : Assets.Entry AccountId)

/-- Run an entry point. -/
def Entry.apply (env : Env AccountId E) (TA : Assets.Config AccountId) :
    Entry AccountId → GuardiansCall AccountId E Unit
  | .register o socialTokenId => SocialGuardians.register o socialTokenId
  | .unregister o => SocialGuardians.unregister o
  | .onFinalize currentEra historyDepth => SocialGuardians.onFinalize currentEra historyDepth
  | .assets c => onAssets (c.apply env TA)

end SocialNetwork.SocialGuardians
