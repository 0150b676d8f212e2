import SocialNetwork.Frame.SocialTreasury.Pallet
import SocialNetwork.Frame.Assets.Ledger

/-!
# Who is paid, and how often

`do_payout_stakers` guards against paying an era twice with the eras in
`ClaimedRewards`, and those are recorded under the validator's
*controller*. This module proves what that guard gives, and shows what it
does not.

* One step: a payout that gets past its checks records the era under the
  stash's controller and touches nothing else the guard reads; every other
  entry point leaves `ClaimedRewards` alone (`entry_claims`). The recorded
  eras stay sorted (`claims_of_reachable`) and only grow.
* So a stash is paid for an era at most once *while its controller stays
  the same*: from any state after a paid-out call, a second payout of the
  same stash and era with the same controller fails and changes nothing
  (`payout_once_per_controller`).
* After `set_controller`, the new controller has no claims, and the same
  stash and era are paid again; the amounts of each payout are rounded to
  the nearest independently, and add up to more than the validator's part
  of the era's reward (`payout_twice_after_set_controller`).
-/

namespace SocialNetwork.SocialTreasury

open Dispatch Unsigned Arithmetic Staking

variable {AccountId E : Type} [DecidableEq AccountId]

/-! ## Recording a claimed era -/

section InsertClaimed

variable {l l' : List EraIndex} {era : EraIndex}

theorem insertClaimed_eq_upsertByKey (h : insertClaimed l era = .ok l') :
    l' = BinarySearch.upsertByKey id l era := by
  unfold insertClaimed at h
  unfold BinarySearch.upsertByKey
  split at h
  · cases h
  · next pos hpos =>
      rw [id_eq, hpos]
      exact (Except.ok.inj h).symm

theorem pairwise_insertClaimed (hs : l.Pairwise (· < ·)) (h : insertClaimed l era = .ok l') :
    l'.Pairwise (· < ·) := by
  rw [insertClaimed_eq_upsertByKey h]
  exact BinarySearch.pairwise_upsertByKey hs era

theorem insertClaimed_of_mem (hs : l.Pairwise (· < ·)) (hmem : era ∈ l) :
    insertClaimed l era = .error (.socialTreasury .alreadyClaimed) := by
  have hspec : BinarySearch.SearchResult id l era (BinarySearch.binarySearchByKey id l era) :=
    BinarySearch.binarySearchByKey_spec hs era
  unfold insertClaimed
  split
  · rfl
  · next pos hpos =>
      rw [hpos] at hspec
      obtain ⟨-, hbelow, habove⟩ := hspec
      rw [← List.take_append_drop pos l, List.mem_append] at hmem
      rcases hmem with hmem | hmem
      · exact absurd (hbelow era hmem) (lt_irrefl era)
      · exact absurd (habove era hmem) (lt_irrefl era)

theorem mem_insertClaimed (hs : l.Pairwise (· < ·)) (h : insertClaimed l era = .ok l')
    (x : EraIndex) : x ∈ l' ↔ x = era ∨ x ∈ l := by
  have hspec : BinarySearch.SearchResult id l era (BinarySearch.binarySearchByKey id l era) :=
    BinarySearch.binarySearchByKey_spec hs era
  unfold insertClaimed at h
  split at h
  · cases h
  · next pos hpos =>
      rw [hpos] at hspec
      rw [← Except.ok.inj h]
      exact List.mem_insertIdx hspec.1

end InsertClaimed

/-! ## What one step does to the claimed eras -/

/-- The eras of every controller strictly increase, as `binary_search`
needs. -/
def Claims (s : State AccountId E) : Prop := ∀ c, (s.claimedRewards c).Pairwise (· < ·)

/-- A payout of `(validatorStash, era)` that got past its checks, from `s`
to `s'`: the stash's controller recorded the era, and the rest of the
treasury's and of the staking storage is as before. -/
def Paid (s : State AccountId E) (validatorStash : AccountId) (era : EraIndex)
    (s' : State AccountId E) : Prop :=
  ∃ controller claimed, s.staking.bonded.lookup validatorStash = some controller ∧
    insertClaimed (s.claimedRewards controller) era = .ok claimed ∧
    s'.claimedRewards = Function.update s.claimedRewards controller claimed ∧
    s'.staking = s.staking

/-- What a step of the runtime does to `ClaimedRewards`: nothing, or it
records an era under one controller. -/
def ClaimsStep (s s' : State AccountId E) : Prop :=
  s'.claimedRewards = s.claimedRewards ∨
    ∃ controller era claimed, insertClaimed (s.claimedRewards controller) era = .ok claimed ∧
      s'.claimedRewards = Function.update s.claimedRewards controller claimed

/-- The key the guard reads and writes: `ClaimedRewards` and the staking
storage. -/
def guardKey (s : State AccountId E) : (AccountId → List EraIndex) × Staking.State AccountId :=
  (s.claimedRewards, s.staking)

omit [DecidableEq AccountId] in
theorem keeps_onGuardians {γ α : Type} {f : State AccountId E → γ}
    (m : SocialGuardians.GuardiansCall AccountId E α)
    (hf : ∀ s g, f { s with guardians := g } = f s) : Keeps f (onGuardians m) :=
  keeps_zoom m hf

omit [DecidableEq AccountId] in
theorem keeps_onStaking {γ α : Type} {f : State AccountId E → γ} (m : StakingCall AccountId α)
    (hf : ∀ s t, f { s with staking := t } = f s) : Keeps f (onStaking m) :=
  keeps_zoom m hf

theorem wp_issueReward (env : Env AccountId E) (assetId : ℕ) (who : AccountId) (amount : ℕ)
    {Q : Unit → State AccountId E → Prop} {R : DispatchError → State AccountId E → Prop}
    {s : State AccountId E} (h : ∀ s', guardKey s' = guardKey s → Q () s') :
    Wp (issueReward env assetId who amount) Q R s := by
  unfold issueReward
  rw [wp_dropResult]
  exact Wp.mono (keeps_onGuardians (f := guardKey) _ fun _ _ => rfl).wp
    (fun _ s' hs' => h s' hs') (fun _ s' hs' => h s' hs')

theorem wp_issuePayouts (env : Env AccountId E) (assetId : ℕ) (stash : AccountId)
    (amounts : Option (ℕ × List (AccountId × ℕ))) {Q : Unit → State AccountId E → Prop}
    {R : DispatchError → State AccountId E → Prop} {s : State AccountId E}
    (h : ∀ s', guardKey s' = guardKey s → Q () s') :
    Wp (issuePayouts env assetId stash amounts) Q R s := by
  cases amounts with
  | none => exact h s rfl
  | some amounts =>
      obtain ⟨totalValidatorPayout, nominatorRewards⟩ := amounts
      show Wp (issueReward env assetId stash totalValidatorPayout >>= fun _ => _) Q R s
      rw [wp_bind]
      refine wp_issueReward env assetId stash totalValidatorPayout fun s₁ hs₁ => ?_
      induction nominatorRewards generalizing s₁ with
      | nil => exact h s₁ hs₁
      | cons reward nominatorRewards ih =>
          obtain ⟨who, amount⟩ := reward
          show Wp (issueReward env assetId who amount >>= fun _ => _) Q R s₁
          rw [wp_bind]
          exact wp_issueReward env assetId who amount fun s₂ hs₂ => ih s₂ (hs₂.trans hs₁)

/-- **The payout's guard.** Every check of `do_payout_stakers` comes before
its first write, so a payout that fails leaves the state as it was; one
that returns records the era under the stash's controller. -/
theorem wp_doPayoutStakers (env : Env AccountId E) (validatorStash : AccountId) (era : EraIndex)
    (s : State AccountId E) :
    Wp (doPayoutStakers env validatorStash era) (fun _ s' => Paid s validatorStash era s')
      (fun _ s' => s' = s) s := by
  unfold doPayoutStakers
  simp only [wp_bind, wp_get]
  -- each check either fails in `s` itself or hands its value to the next
  cases hcurrent : s.staking.currentEra with
  | none => exact rfl
  | some currentEra =>
  simp only [wp_okOr_some, wp_ensure]
  split_ifs with hle hge
  · cases hreward : s.staking.erasValidatorReward era with
    | none => exact rfl
    | some eraPayout =>
    simp only [wp_okOr_some]
    cases hbonded : s.staking.bonded.lookup validatorStash with
    | none => exact rfl
    | some controller =>
    simp only [wp_okOr_some]
    cases hledger : s.staking.ledger.lookup controller with
    | none => exact rfl
    | some ledger =>
    simp only [wp_okOr_some]
    cases hasset : (s.guardians.guardianDetailHistory era).lookup controller with
    | none => exact rfl
    | some assetId =>
    simp only [wp_okOr_some]
    cases hclaimed : insertClaimed (s.claimedRewards controller) era with
    | error e => exact rfl
    | ok claimed =>
    simp only [wp_ofExcept_ok, wp_modify]
    refine wp_issuePayouts env assetId ledger.stash _ fun s' h => ?_
    obtain ⟨hclaims, hstaking⟩ := Prod.mk.inj h
    exact ⟨controller, claimed, hbonded, hclaimed, hclaims, hstaking⟩

/-- `payout_stakers`: the election check and the origin come first, and
write nothing. -/
theorem wp_payoutStakers (env : Env AccountId E) (origin : Origin AccountId)
    (validatorStash : AccountId) (era : EraIndex) (s : State AccountId E) :
    Wp (payoutStakers env origin validatorStash era) (fun _ s' => Paid s validatorStash era s')
      (fun _ s' => s' = s) s := by
  unfold payoutStakers
  rw [wp_bind, wp_get]
  refine wp_ensure_bind (fun _ => ?_) (fun _ => rfl)
  exact wp_ensureSigned_bind (fun _ => wp_doPayoutStakers env validatorStash era s) rfl

theorem Paid.of_run {env : Env AccountId E} {o : Origin AccountId} {validatorStash : AccountId}
    {era : EraIndex} {s s' : State AccountId E}
    (h : (payoutStakers env o validatorStash era).run s = .ok () s') : Paid s validatorStash era s' := by
  have hwp := wp_payoutStakers env o validatorStash era s
  unfold Wp at hwp
  rw [h] at hwp
  exact hwp

theorem Paid.claimsStep {s s' : State AccountId E} {validatorStash : AccountId} {era : EraIndex}
    (h : Paid s validatorStash era s') : ClaimsStep s s' := by
  obtain ⟨controller, claimed, -, hclaimed, hclaims, -⟩ := h
  exact .inr ⟨controller, era, claimed, hclaimed, hclaims⟩

theorem Paid.mem {s s' : State AccountId E} {validatorStash controller : AccountId}
    {era : EraIndex} (h : Paid s validatorStash era s') (hs : Claims s)
    (hcontroller : s.staking.bonded.lookup validatorStash = some controller) :
    era ∈ s'.claimedRewards controller := by
  obtain ⟨controller', claimed, hcontroller', hclaimed, hclaims, -⟩ := h
  obtain rfl : controller' = controller := Option.some.inj (hcontroller'.symm.trans hcontroller)
  rw [hclaims, Function.update_self]
  exact (mem_insertClaimed (hs controller') hclaimed era).mpr (.inl rfl)

theorem not_paid_of_mem {s s' : State AccountId E} {validatorStash controller : AccountId}
    {era : EraIndex} (hs : Claims s)
    (hcontroller : s.staking.bonded.lookup validatorStash = some controller)
    (hmem : era ∈ s.claimedRewards controller) : ¬ Paid s validatorStash era s' := by
  rintro ⟨controller', claimed, hcontroller', hclaimed, -, -⟩
  obtain rfl : controller' = controller := Option.some.inj (hcontroller'.symm.trans hcontroller)
  rw [insertClaimed_of_mem (hs controller') hmem] at hclaimed
  cases hclaimed

theorem claimsStep_of_keeps {s s' : State AccountId E} (h : s'.claimedRewards = s.claimedRewards) :
    ClaimsStep s s' :=
  .inl h

theorem keeps_onFinalize : Keeps State.claimedRewards (onFinalize : TreasuryCall AccountId E Unit) :=
  keeps_bind keeps_get fun s =>
    keeps_onGuardians (SocialGuardians.onFinalize s.staking.currentEra s.staking.historyDepth)
      fun _ _ => rfl

/-- **Every step** either leaves `ClaimedRewards` or records one era under
one controller. -/
theorem entry_claims (env : Env AccountId E) (TA : Assets.Config AccountId) (c : Entry AccountId)
    (s : State AccountId E) :
    Wp (c.apply env TA) (fun _ s' => ClaimsStep s s') (fun _ s' => ClaimsStep s s') s := by
  cases c with
  | payoutStakers o validatorStash era =>
      exact Wp.mono (wp_payoutStakers env o validatorStash era s) (fun _ _ h => h.claimsStep)
        (fun _ _ h => claimsStep_of_keeps (congrArg State.claimedRewards h))
  | setController o controller =>
      exact Wp.mono (keeps_onStaking (f := State.claimedRewards)
          (Staking.setController o controller) fun _ _ => rfl).wp
        (fun _ _ h => claimsStep_of_keeps h) (fun _ _ h => claimsStep_of_keeps h)
  | register o socialTokenId =>
      exact Wp.mono (keeps_onGuardians (f := State.claimedRewards)
          (SocialGuardians.register o socialTokenId) fun _ _ => rfl).wp
        (fun _ _ h => claimsStep_of_keeps h) (fun _ _ h => claimsStep_of_keeps h)
  | unregister o =>
      exact Wp.mono (keeps_onGuardians (f := State.claimedRewards)
          (SocialGuardians.unregister o) fun _ _ => rfl).wp
        (fun _ _ h => claimsStep_of_keeps h) (fun _ _ h => claimsStep_of_keeps h)
  | onFinalize =>
      exact Wp.mono keeps_onFinalize.wp (fun _ _ h => claimsStep_of_keeps h)
        (fun _ _ h => claimsStep_of_keeps h)
  | assets a =>
      exact Wp.mono (keeps_onGuardians (f := State.claimedRewards)
          (SocialGuardians.onAssets (a.apply env TA)) fun _ _ => rfl).wp
        (fun _ _ h => claimsStep_of_keeps h) (fun _ _ h => claimsStep_of_keeps h)

theorem ClaimsStep.claims {s s' : State AccountId E} (h : ClaimsStep s s') (hs : Claims s) :
    Claims s' := by
  rcases h with h | ⟨controller, era, claimed, hclaimed, hclaims⟩
  · intro c
    rw [h]
    exact hs c
  · intro c
    rw [hclaims]
    by_cases hc : c = controller
    · subst hc
      rw [Function.update_self]
      exact pairwise_insertClaimed (hs c) hclaimed
    · rw [Function.update_of_ne hc]
      exact hs c

theorem ClaimsStep.mono {s s' : State AccountId E} (h : ClaimsStep s s') (hs : Claims s)
    {c : AccountId} {e : EraIndex} (he : e ∈ s.claimedRewards c) : e ∈ s'.claimedRewards c := by
  rcases h with h | ⟨controller, era, claimed, hclaimed, hclaims⟩
  · rwa [h]
  · rw [hclaims]
    by_cases hc : c = controller
    · subst hc
      rw [Function.update_self]
      exact (mem_insertClaimed (hs c) hclaimed e).mpr (.inr he)
    · rwa [Function.update_of_ne hc]

section Runs

variable (env : Env AccountId E) (TA : Assets.Config AccountId)

theorem entry_preserves_claims (c : Entry AccountId) : Preserves Claims (c.apply env TA) :=
  preserves_of_wp fun s hs =>
    Wp.mono (entry_claims env TA c s) (fun _ _ h => h.claims hs) (fun _ _ h => h.claims hs)

theorem claims_of_reachable {init : State AccountId E → Prop} (hinit : ∀ s, init s → Claims s)
    {s : State AccountId E} (hs : Reachable (Entry.apply env TA) init s) : Claims s :=
  hs.invariant hinit (entry_preserves_claims env TA)

theorem claimed_of_reachable {s₀ s : State AccountId E} (h₀ : Claims s₀)
    (hs : Reachable (Entry.apply env TA) (· = s₀) s) :
    Claims s ∧ ∀ c e, e ∈ s₀.claimedRewards c → e ∈ s.claimedRewards c := by
  obtain ⟨s₁, rfl, hrun⟩ := hs
  induction hrun with
  | refl => exact ⟨h₀, fun _ _ he => he⟩
  | tail _ hstep ih =>
      obtain ⟨c, hc⟩ := hstep
      have hclaims := Leaves.of_wp (entry_claims env TA c _) hc
      exact ⟨hclaims.claims ih.1, fun c e he => hclaims.mono ih.1 (ih.2 c e he)⟩

/-- **At most once per controller.** After a payout of `(validatorStash,
era)` returned, in every later state where the stash still has the
controller it had, a payout of the same stash and era returns no `Ok` and
leaves the state as it was. -/
theorem payout_once_per_controller {s s' s'' : State AccountId E} (hs : Claims s)
    {o o' : Origin AccountId} {validatorStash : AccountId} {era : EraIndex}
    (hpaid : (Entry.apply env TA (.payoutStakers o validatorStash era)).run s = .ok () s')
    (hrun : Reachable (Entry.apply env TA) (· = s') s'')
    (hbonded : s''.staking.bonded.lookup validatorStash = s.staking.bonded.lookup validatorStash) :
    Wp (Entry.apply env TA (.payoutStakers o' validatorStash era)) (fun _ _ => False)
      (fun _ s''' => s''' = s'') s'' := by
  have hfirst : Paid s validatorStash era s' := Paid.of_run hpaid
  have ⟨controller, _, hcontroller, _⟩ := hfirst
  obtain ⟨hs'', hkept⟩ := claimed_of_reachable env TA (hfirst.claimsStep.claims hs) hrun
  have hmem := hkept controller era (hfirst.mem hs hcontroller)
  exact Wp.mono (wp_payoutStakers env o' validatorStash era s'')
    (fun _ _ hpaid' => not_paid_of_mem hs'' (hbonded.trans hcontroller) hmem hpaid')
    (fun _ _ h => h)

end Runs

/-! ## A stash paid twice for one era

A runtime with existential deposit 1 in which every account exists. Asset 1
has account 1 as owner and admin and a minimum balance of 1. Stash 10 is
bonded to controller 11. In era 0, accounts 11 and 12 register as guardians
of asset 1 and the era's last block ends, so that both are in the era's
guardian details; the era's reward was 2, all its points went to stash 10,
whose exposure is 1 of its own and 1 from each of the nominators 20 and 21,
with no commission. Era 1 has begun. -/

def payoutEnv : Env ℕ (Ledger ℕ) := Ledger.env 1

def payoutAssetsConfig : Assets.Config ℕ where
  assetDepositBase := 1
  assetDepositPerZombie := 1
  stringLimit := 50
  metadataDepositBase := 1
  metadataDepositPerByte := 1
  forceOrigin o := decide (o = .root)

def payoutLedger : Ledger ℕ where
  free _ := 0
  reserved _ := 0
  providers _ := 1
  consumers _ := 0
  blockNumber := 1
  now := 0

def payoutAssets : Assets.State ℕ (Ledger ℕ) :=
  (⟨[(1, 1, 1, 0, 1)], []⟩ : Assets.GenesisConfig ℕ).build payoutLedger

/-- The guardians' storage at the end of era 0: accounts 11 and 12
registered for asset 1 during it. -/
def payoutGuardians : SocialGuardians.State ℕ (Ledger ℕ) :=
  (execute (SocialGuardians.Entry.apply payoutEnv payoutAssetsConfig)
    [.register (.signed 11) 1, .register (.signed 12) 1, .onFinalize (some 0) 84]
    (SocialGuardians.State.init payoutAssets)).getD (SocialGuardians.State.init payoutAssets)

def payoutStaking : Staking.State ℕ where
  eraElectionStatus := .closed
  currentEra := some 1
  historyDepth := 84
  erasValidatorReward era := if era = 0 then some 2 else none
  bonded := (∅ : StorageMap ℕ ℕ).insert 10 11
  ledger := (∅ : StorageMap ℕ (StakingLedger ℕ)).insert 11 ⟨10⟩
  erasStakersClipped era stash :=
    if era = 0 ∧ stash = 10 then ⟨3, 1, [⟨20, 1⟩, ⟨21, 1⟩]⟩ else ⟨0, 0, []⟩
  erasRewardPoints era :=
    if era = 0 then ⟨1, (∅ : StorageMap ℕ ℕ).insert 10 1⟩ else ⟨0, ∅⟩
  erasValidatorPrefs _ _ := ⟨PerThing.zero, false⟩

def payoutGenesis : State ℕ (Ledger ℕ) where
  claimedRewards _ := []
  staking := payoutStaking
  guardians := payoutGuardians

abbrev payoutApply : Entry ℕ → TreasuryCall ℕ (Ledger ℕ) Unit :=
  Entry.apply payoutEnv payoutAssetsConfig

-- the first payout of stash 10 for era 0 is claimed under controller 11
example : (execute payoutApply [.payoutStakers (.signed 1) 10 0] payoutGenesis).map
    (fun s => decide (0 ∈ s.claimedRewards 11)) = some true := by
  decide +kernel

/-- Stash 10 is paid for era 0 under controller 11, which issues 3 units of
asset 1, one more than the validator's part of the era's reward; the stash
then moves its ledger to controller 12, and a payout of stash 10 for era 0
returns `Ok` and issues 3 units again. -/
theorem payout_twice_after_set_controller :
    ∃ s s', Reachable payoutApply (· = payoutGenesis) s ∧
      (payoutApply (.payoutStakers (.signed 1) 10 0)).run s = .ok () s' ∧
      (0 ∈ s.claimedRewards 11 ∧ Assets.totalSupply s.guardians.assets 1 = 3 ∧
        Assets.totalSupply s'.guardians.assets 1 = 6) := by
  have h : (execute payoutApply [.payoutStakers (.signed 1) 10 0, .setController (.signed 10) 12]
      payoutGenesis).map (fun s => okAnd (fun s s' => 0 ∈ s.claimedRewards 11 ∧
        Assets.totalSupply s.guardians.assets 1 = 3 ∧ Assets.totalSupply s'.guardians.assets 1 = 6)
        s ((payoutApply (.payoutStakers (.signed 1) 10 0)).run s)) = some true := by
    decide +kernel
  exact Reachable.exists_ok_of_execute rfl h

end SocialNetwork.SocialTreasury
