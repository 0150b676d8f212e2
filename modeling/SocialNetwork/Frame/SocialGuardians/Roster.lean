import SocialNetwork.Frame.SocialGuardians.Pallet

/-!
# The guardian roster and its history

`register` and `unregister` write `GuardianOf`, `GuardiansOfSocialToken` and
`Guardians` together: a push onto both lists, or a `retain` on both.
`Roster` is what they keep in every reachable state. `Guardians` has no
duplicates and lists exactly the accounts of `GuardianOf`. Each token's list
is the sub-list of `Guardians` registered to it, in the same order. The
history rebuilt by `on_finalize` keeps one property: an account in an era's
`GuardianHistory` has an entry in the era's `GuardianDetailHistory`.

The converse fails. `update_history` only inserts into the era's
`GuardianDetailHistory`, while it overwrites the era's `GuardianHistory`.
So a guardian that unregisters between two blocks of an era keeps its entry
but drops out of the list (`detail_outlives_history`).
-/

namespace SocialNetwork.SocialGuardians

open Dispatch Unsigned

variable {AccountId E : Type} [DecidableEq AccountId]

/-- The guardian registry's bookkeeping. -/
structure Roster (s : State AccountId E) : Prop where
  nodup : s.guardians.Nodup
  mem_guardians : ∀ a, a ∈ s.guardians ↔ a ∈ s.guardianOf
  ofSocialToken : ∀ t, s.guardiansOfSocialToken t =
    s.guardians.filter (fun a => s.guardianOf.lookup a = some t)
  history_nodup : ∀ e, (s.guardianHistory e).Nodup
  history_detail : ∀ e, ∀ a ∈ s.guardianHistory e, a ∈ s.guardianDetailHistory e

variable {s : State AccountId E}

theorem roster_init (assets : Assets.State AccountId E) : Roster (State.init assets) where
  nodup := List.nodup_nil
  mem_guardians _ := iff_of_false List.not_mem_nil Finmap.notMem_empty
  ofSocialToken _ := rfl
  history_nodup _ := List.nodup_nil
  history_detail _ _ h := absurd h List.not_mem_nil

/-! ## `update_history`'s loop -/

section Fold

variable {cur : EraIndex}

theorem foldl_insertDetail_eq (l : List AccountId) (s : State AccountId E) :
    l.foldl (insertDetail cur) s =
      { s with guardianDetailHistory := (l.foldl (insertDetail cur) s).guardianDetailHistory } := by
  induction l generalizing s with
  | nil => rfl
  | cons a l ih =>
      rw [List.foldl_cons, ih]
      rfl

theorem mem_insertDetail {a b : AccountId} {e : EraIndex} :
    a ∈ (insertDetail cur s b).guardianDetailHistory e ↔
      a ∈ s.guardianDetailHistory e ∨ (e = cur ∧ a = b) := by
  unfold insertDetail
  by_cases he : e = cur
  · subst he
    simp [Finmap.mem_insert, or_comm]
  · simp [he]

/-- The loop gives an entry, under the current era, to each account it
visits, and keeps every entry there was. -/
theorem mem_foldl_insertDetail {a : AccountId} {e : EraIndex} (l : List AccountId) :
    a ∈ (l.foldl (insertDetail cur) s).guardianDetailHistory e ↔
      a ∈ s.guardianDetailHistory e ∨ (e = cur ∧ a ∈ l) := by
  induction l generalizing s with
  | nil => simp
  | cons b l ih =>
      rw [List.foldl_cons, ih, mem_insertDetail, List.mem_cons]
      tauto

end Fold

/-! ## The writes -/

section Writes

variable {v : AccountId}

theorem Roster.register (hs : Roster s) (hv : v ∉ s.guardianOf) (t : ℕ) :
    Roster { s with
      guardianOf := s.guardianOf.insert v t
      guardiansOfSocialToken := Function.update s.guardiansOfSocialToken t
        (s.guardiansOfSocialToken t ++ [v])
      guardians := s.guardians ++ [v] } := by
  have hne : ∀ a ∈ s.guardians, a ≠ v := fun a ha h => hv (h ▸ (hs.mem_guardians a).mp ha)
  refine ⟨?_, ?_, ?_, hs.history_nodup, hs.history_detail⟩
  · rw [List.nodup_append]
    exact ⟨hs.nodup, List.nodup_singleton v, fun a ha b hb => (List.mem_singleton.mp hb) ▸ hne a ha⟩
  · intro a
    simp only [List.mem_append, List.mem_singleton, Finmap.mem_insert, hs.mem_guardians]
    exact or_comm
  · intro t'
    dsimp only
    -- the old guardians keep their tokens, and `v` joins the list of `t`
    have hold : s.guardians.filter (fun a => (s.guardianOf.insert v t).lookup a = some t') =
        s.guardians.filter (fun a => s.guardianOf.lookup a = some t') :=
      List.filter_congr fun a ha => by rw [Finmap.lookup_insert_of_ne _ (hne a ha)]
    rw [List.filter_append, hold, ← hs.ofSocialToken t']
    by_cases ht : t' = t
    · subst ht
      simp [Finmap.lookup_insert]
    · rw [Function.update_of_ne ht]
      simp [Finmap.lookup_insert, Ne.symm ht]

theorem Roster.unregister (hs : Roster s) {t : ℕ} (hv : s.guardianOf.lookup v = some t) :
    Roster { s with
      guardianOf := s.guardianOf.erase v
      guardiansOfSocialToken := Function.update s.guardiansOfSocialToken t
        ((s.guardiansOfSocialToken t).filter fun a => a != v)
      guardians := s.guardians.filter fun a => a != v } := by
  refine ⟨hs.nodup.filter _, ?_, ?_, hs.history_nodup, hs.history_detail⟩
  · intro a
    simp only [List.mem_filter, bne_iff_ne, ne_eq, Finmap.mem_erase, hs.mem_guardians]
    exact and_comm
  · intro t'
    dsimp only
    -- `v` leaves the list of `t`, and it is in no other
    have htok : Function.update s.guardiansOfSocialToken t
        ((s.guardiansOfSocialToken t).filter fun a => a != v) t' =
        (s.guardiansOfSocialToken t').filter fun a => a != v := by
      by_cases ht : t' = t
      · subst ht
        rw [Function.update_self]
      · rw [Function.update_of_ne ht, eq_comm, List.filter_eq_self]
        intro a ha
        rw [hs.ofSocialToken t', List.mem_filter, decide_eq_true_eq] at ha
        have hav : a ≠ v := by
          rintro rfl
          rw [hv] at ha
          exact ht (Option.some_injective _ ha.2).symm
        simpa using hav
    have hfilter : (s.guardians.filter fun a => a != v).filter
        (fun a => (s.guardianOf.erase v).lookup a = some t') =
        (s.guardians.filter fun a => s.guardianOf.lookup a = some t').filter fun a => a != v := by
      rw [List.filter_filter, List.filter_filter]
      refine List.filter_congr fun a _ => ?_
      by_cases hav : a = v
      · subst hav
        simp [Finmap.lookup_erase]
      · simp [Finmap.lookup_erase_ne hav, Bool.and_comm]
    rw [htok, hfilter, hs.ofSocialToken t']

theorem Roster.clean (hs : Roster s) (era : EraIndex) :
    Roster { s with
      guardianHistory := Function.update s.guardianHistory era []
      guardianDetailHistory := Function.update s.guardianDetailHistory era ∅ } := by
  refine ⟨hs.nodup, hs.mem_guardians, hs.ofSocialToken, fun e => ?_, fun e a ha => ?_⟩
  · by_cases he : e = era
    · subst he
      simp
    · simpa [Function.update_of_ne he] using hs.history_nodup e
  · by_cases he : e = era
    · subst he
      simp at ha
    · simp only [Function.update_of_ne he] at ha ⊢
      exact hs.history_detail e a ha

/-- `update_history`'s writes, given what its loop leaves in
`GuardianDetailHistory`: every old entry, and one for each guardian under
the current era. -/
theorem Roster.record (hs : Roster s) (cur : EraIndex) (d : EraIndex → StorageMap AccountId ℕ)
    (hkeep : ∀ e, ∀ a ∈ s.guardianDetailHistory e, a ∈ d e) (hcur : ∀ a ∈ s.guardians, a ∈ d cur) :
    Roster { s with
      guardianDetailHistory := d
      guardianHistory := Function.update s.guardianHistory cur s.guardians } := by
  refine ⟨hs.nodup, hs.mem_guardians, hs.ofSocialToken, fun e => ?_, fun e a ha => ?_⟩
  · by_cases he : e = cur
    · subst he
      simpa using hs.nodup
    · simpa [Function.update_of_ne he] using hs.history_nodup e
  · by_cases he : e = cur
    · subst he
      simp only [Function.update_self] at ha
      exact hcur a ha
    · simp only [Function.update_of_ne he] at ha
      exact hkeep e a (hs.history_detail e a ha)

theorem Roster.assets (hs : Roster s) (a : Assets.State AccountId E) :
    Roster { s with assets := a } :=
  ⟨hs.nodup, hs.mem_guardians, hs.ofSocialToken, hs.history_nodup, hs.history_detail⟩

end Writes

/-! ## Every entry point keeps the roster -/

section Calls

omit [DecidableEq AccountId] in
/-- `validate_asset_id` through `pallet_assets`, then the rest of a block:
it reads the asset and writes nothing. -/
theorem wp_validateAssetId_bind {α : Type} {Q : α → State AccountId E → Prop}
    {R : DispatchError → State AccountId E → Prop} {k : Unit → GuardiansCall AccountId E α}
    (t : ℕ) (h : s.assets.asset t ≠ none → Wp (k ()) Q R s) (herr : R (.assets .unknown) s) :
    Wp (onAssets (Assets.validateAssetId t) >>= k) Q R s := by
  rw [wp_bind, onAssets, wp_zoom, Assets.validateAssetId, wp_bind, wp_get, wp_ensure]
  split_ifs with hasset
  · exact h hasset
  · exact herr

theorem onAssets_roster (hs : Roster s) {α : Type} (m : Assets.AssetsCall AccountId E α) :
    Wp (onAssets m) (fun _ => Roster) (fun _ => Roster) s := by
  rw [onAssets, wp_zoom]
  exact Wp.of_forall (fun _ a => hs.assets a) (fun _ a => hs.assets a)

theorem register_roster (hs : Roster s) (origin : Origin AccountId) (socialTokenId : ℕ) :
    Wp (register origin socialTokenId) (fun _ => Roster) (fun _ => Roster) s := by
  unfold register
  refine wp_ensureSigned_bind (fun validator => ?_) hs
  refine wp_validateAssetId_bind socialTokenId (fun _ => ?_) hs
  rw [wp_bind, wp_get]
  refine wp_ensure_bind (fun hv => ?_) (fun _ => hs)
  simp only [wp_bind, wp_modify]
  exact hs.register hv socialTokenId

theorem unregister_roster (hs : Roster s) (origin : Origin AccountId) :
    Wp (unregister origin) (fun _ => Roster) (fun _ => Roster) s := by
  unfold unregister
  refine wp_ensureSigned_bind (fun validator => ?_) hs
  rw [wp_bind, wp_get, wp_bind]
  cases hv : s.guardianOf.lookup validator with
  | none => exact hs
  | some t =>
      simp only [wp_okOr_some, wp_bind, wp_modify]
      exact hs.unregister hv

theorem cleanHistory_roster (hs : Roster s) (currentEra historyDepth : EraIndex) :
    Wp (cleanHistory currentEra historyDepth) (fun _ => Roster) (fun _ => Roster) s := by
  unfold cleanHistory
  split
  · next era _ =>
      simp only [wp_bind, wp_modify]
      exact hs.clean era
  · exact hs

theorem updateHistory_roster (hs : Roster s) (currentEra : EraIndex) :
    Wp (updateHistory currentEra) (fun _ => Roster) (fun _ => Roster) s := by
  unfold updateHistory
  simp only [wp_bind, wp_get, wp_modify]
  rw [foldl_insertDetail_eq]
  exact hs.record currentEra _ (fun e a ha => (mem_foldl_insertDetail _).mpr (.inl ha))
    (fun a ha => (mem_foldl_insertDetail _).mpr (.inr ⟨rfl, ha⟩))

theorem onFinalize_roster (hs : Roster s) (currentEra : Option EraIndex) (historyDepth : EraIndex) :
    Wp (onFinalize currentEra historyDepth) (fun _ => Roster) (fun _ => Roster) s := by
  unfold onFinalize
  rw [wp_bind]
  exact (cleanHistory_roster hs _ historyDepth).mono
    (fun _ s' h => updateHistory_roster h _) (fun _ _ h => h)

variable (env : Env AccountId E) (TA : Assets.Config AccountId)

theorem entry_preserves_roster (e : Entry AccountId) : Preserves Roster (e.apply env TA) := by
  refine preserves_of_wp fun s hs => ?_
  cases e with
  | register o socialTokenId => exact register_roster hs o socialTokenId
  | unregister o => exact unregister_roster hs o
  | onFinalize currentEra historyDepth => exact onFinalize_roster hs currentEra historyDepth
  | assets c => exact onAssets_roster hs _

/-- The roster holds in every state reachable from a chain without
guardians. -/
theorem roster_of_reachable (assets : Assets.State AccountId E) {s : State AccountId E}
    (hs : Reachable (Entry.apply env TA) (· = State.init assets) s) : Roster s :=
  hs.invariant (fun _ h => h ▸ roster_init assets) (entry_preserves_roster env TA)

end Calls

/-! ## The test runtime

`mock.rs` creates the assets 1 to 17, each owned and administered by the
account 1 with a minimum balance of 100, and gives no account a balance.
`HistoryDepth` keeps the default of `pallet_staking`, 84, and no era has
started, so `CurrentEra` is `None`. -/

def guardiansEnv : Env ℕ (Ledger ℕ) := Ledger.env 1

def guardiansAssets : Assets.Config ℕ where
  assetDepositBase := 1
  assetDepositPerZombie := 1
  stringLimit := 50
  metadataDepositBase := 1
  metadataDepositPerByte := 1
  forceOrigin o := decide (o = .root)

def guardiansLedger : Ledger ℕ where
  free _ := 0
  reserved _ := 0
  providers _ := 0
  consumers _ := 0
  blockNumber := 1
  now := 0

def guardiansGenesis : State ℕ (Ledger ℕ) :=
  State.init ((⟨(List.range 17).map fun i => (i + 1, 1, 1, 0, 100), []⟩ :
    Assets.GenesisConfig ℕ).build guardiansLedger)

abbrev guardiansApply : Entry ℕ → GuardiansCall ℕ (Ledger ℕ) Unit :=
  Entry.apply guardiansEnv guardiansAssets

/-- The roster after account 5 registers as a guardian of token 1. -/
theorem roster_after_register :
    Roster (after ((guardiansApply (.register (.signed 5) 1)).run guardiansGenesis)) := by
  have h0 : Reachable guardiansApply (· = guardiansGenesis) guardiansGenesis := Reachable.start rfl
  exact roster_of_reachable guardiansEnv guardiansAssets _
    (h0.step (.register (.signed 5) 1) (Or.inl ⟨(), rfl⟩))

/-- Account 5 registers for token 1, a block of era 0 ends, account 5
unregisters, and the next block of era 0 ends: the era's detail map keeps
account 5, and its list does not have it. -/
theorem detail_outlives_history :
    ∃ s, Reachable guardiansApply (· = guardiansGenesis) s ∧
      5 ∈ s.guardianDetailHistory 0 ∧ 5 ∉ s.guardianHistory 0 := by
  have h : (execute guardiansApply [.register (.signed 5) 1, .onFinalize none 84,
      .unregister (.signed 5), .onFinalize none 84] guardiansGenesis).map
      (fun s => decide (5 ∈ s.guardianDetailHistory 0 ∧ 5 ∉ s.guardianHistory 0)) = some true := by
    decide
  exact Reachable.exists_of_execute rfl h

end SocialNetwork.SocialGuardians
