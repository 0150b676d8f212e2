import SocialNetwork.Frame.Chainbridge.Proposals
import SocialNetwork.Lib.Collect

/-!
# The counters of `pallet_chainbridge`

`RelayerCount` is kept beside `Relayers` by hand: `register_relayer` adds
one to it and `unregister_relayer` takes one away, unchecked on a `u32`,
and no other call writes either. The relayers of a reachable state are
finitely many, and the count is their number modulo `2^32`
(`relayersCounted_of_reachable`). That is their number while there are
fewer than `2^32`; with `2^32` relayers the count reads `0`, and
`unregister_relayer` takes it to `2^32 - 1`.

A chain's nonce is set to `0` when the chain is whitelisted, which happens
once, and only the transfers bump it, unchecked on a `u64`. Over any run,
the transfer events to a chain carry the nonces `1, 2, 3, …` modulo `2^64`
(`transferNonces_of_collect`).

Each call is read once, as a `CounterStep` with the events it deposits, and
both results are case analyses of it.
-/

namespace SocialNetwork.Chainbridge

open Dispatch Unsigned

variable {AccountId Proposal ρ κ : Type}

/-- The items this module is about: `ChainNonces`, `Relayers` and
`RelayerCount`. -/
def counters (s : State AccountId Proposal ρ) :
    (ChainId → Option DepositNonce) × (AccountId → Bool) × ℕ :=
  (s.chainNonces, s.relayers, s.relayerCount)

theorem counters_eq {s : State AccountId Proposal ρ} {nonces : ChainId → Option DepositNonce}
    {relayers : AccountId → Bool} {count : ℕ} (h : counters s = (nonces, relayers, count)) :
    s.chainNonces = nonces ∧ s.relayers = relayers ∧ s.relayerCount = count := by
  simpa only [counters, Prod.mk.injEq] using h

variable [DecidableEq AccountId]

/-- **What one call can do** to the counters, with the events it deposits. -/
inductive CounterStep (s : State AccountId Proposal ρ) :
    List (ChainId × DepositNonce) → State AccountId Proposal ρ → Prop where
  /-- No counter changes, and no event. -/
  | kept {s' : State AccountId Proposal ρ} (h : counters s' = counters s) : CounterStep s [] s'
  /-- `whitelist` gives a chain without a nonce the nonce `0`. -/
  | whitelisted {s' : State AccountId Proposal ρ} (id : ChainId) (hnone : s.chainNonces id = none)
      (h : counters s' = (Function.update s.chainNonces id (some 0), s.relayers, s.relayerCount)) :
      CounterStep s [] s'
  /-- `register_relayer` of an account that is not a relayer. -/
  | registered {s' : State AccountId Proposal ρ} (relayer : AccountId)
      (hnew : s.relayers relayer = false)
      (h : counters s' = (s.chainNonces, Function.update s.relayers relayer true,
        wrappingAdd 32 s.relayerCount 1)) :
      CounterStep s [] s'
  /-- `unregister_relayer` of a relayer. -/
  | unregistered {s' : State AccountId Proposal ρ} (relayer : AccountId)
      (hrelayer : s.relayers relayer = true)
      (h : counters s' = (s.chainNonces, Function.update s.relayers relayer false,
        wrappingSub 32 s.relayerCount 1)) :
      CounterStep s [] s'
  /-- A transfer to a whitelisted chain bumps its nonce, and deposits the
  new one. -/
  | transferred {s' : State AccountId Proposal ρ} (destId : ChainId)
      (hwhitelisted : (s.chainNonces destId).isSome)
      (h : counters s' = (Function.update s.chainNonces destId
        (some (wrappingAdd 64 ((s.chainNonces destId).getD 0) 1)), s.relayers, s.relayerCount)) :
      CounterStep s [(destId, wrappingAdd 64 ((s.chainNonces destId).getD 0) 1)] s'

/-! ## Reading each call as a `CounterStep` -/

section Calls

variable (R : Runtime Proposal ρ κ) (T : Config AccountId)

theorem Keeps.counterStep {α : Type} {m : BridgeCall AccountId Proposal ρ α}
    (h : Keeps counters m) (s : State AccountId Proposal ρ) :
    Wp m (fun _ s' => CounterStep s [] s') (fun _ s' => CounterStep s [] s') s :=
  Wp.mono h.wp (fun _ _ h => .kept h) (fun _ _ h => .kept h)

theorem wp_whitelist (id : ChainId) (s : State AccountId Proposal ρ) :
    Wp (whitelist T id) (fun _ s' => CounterStep s [] s') (fun _ s' => CounterStep s [] s') s := by
  unfold whitelist
  simp only [wp_bind, wp_ensure, wp_get, wp_modify]
  split_ifs with hid hwhitelisted
  · exact .kept rfl
  · exact .whitelisted id (by simpa [chainWhitelisted] using hwhitelisted) rfl
  · exact .kept rfl

theorem wp_registerRelayer (relayer : AccountId) (s : State AccountId Proposal ρ) :
    Wp (registerRelayer relayer) (fun _ s' => CounterStep s [] s')
      (fun _ s' => CounterStep s [] s') s := by
  unfold registerRelayer
  simp only [wp_bind, wp_get, wp_ensure, wp_modify]
  split_ifs with hnew
  · exact .registered relayer hnew rfl
  · exact .kept rfl

theorem wp_unregisterRelayer (relayer : AccountId) (s : State AccountId Proposal ρ) :
    Wp (unregisterRelayer relayer) (fun _ s' => CounterStep s [] s')
      (fun _ s' => CounterStep s [] s') s := by
  unfold unregisterRelayer
  simp only [wp_bind, wp_get, wp_ensure, wp_modify]
  split_ifs with hrelayer
  · exact .unregistered relayer hrelayer rfl
  · exact .kept rfl

theorem wp_transferNonce (destId : ChainId) (s : State AccountId Proposal ρ) :
    Wp (transferNonce destId) (fun nonce s' => CounterStep s [(destId, nonce)] s')
      (fun _ s' => CounterStep s [] s') s := by
  unfold transferNonce bumpNonce
  simp only [wp_bind, wp_get, wp_ensure, wp_modify, wp_pure]
  split_ifs with hwhitelisted
  · exact .transferred destId hwhitelisted rfl
  · exact .kept rfl

omit [DecidableEq AccountId] in
theorem transferOut_eq (destId : ChainId) :
    (transferOut destId : BridgeCall AccountId Proposal ρ Unit) =
      (fun _ => ()) <$> transferNonce destId := by
  simp only [transferOut, transferNonce, map_eq_pure_bind, bind_assoc]

omit [DecidableEq AccountId] in
theorem keeps_onRest {α : Type} (m : Call DispatchError ρ α) :
    Keeps counters (onRest m : BridgeCall AccountId Proposal ρ α) :=
  keeps_zoom m fun _ _ => rfl

omit [DecidableEq AccountId] in
theorem keeps_ensureRelayerVote (o : Origin AccountId) (srcId : ChainId) (rId : ResourceId) :
    Keeps counters (ensureRelayerVote o srcId rId : BridgeCall AccountId Proposal ρ AccountId) :=
  keeps_bind (keeps_ensureSigned o) fun _ => keeps_bind keeps_get fun _ =>
    keeps_bind (keeps_ensure _) fun _ => keeps_bind (keeps_ensure _) fun _ =>
      keeps_bind (keeps_ensure _) fun _ => keeps_pure _

variable [DecidableEq Proposal]

theorem keeps_commitVote (who : AccountId) (nonce : DepositNonce) (srcId : ChainId) (prop : Proposal)
    (inFavour : Bool) : Keeps counters (commitVote R T who nonce srcId prop inFavour) :=
  keeps_bind keeps_get fun _ => keeps_bind (keeps_ensure _) fun _ =>
    keeps_bind (keeps_ensure _) fun _ => keeps_bind (keeps_ensure _) fun _ =>
      keeps_modify fun _ => rfl

omit [DecidableEq AccountId] in
theorem keeps_tryResolveProposal (nonce : DepositNonce) (srcId : ChainId) (prop : Proposal) :
    Keeps counters (tryResolveProposal R nonce srcId prop :
      BridgeCall AccountId Proposal ρ Unit) := by
  unfold tryResolveProposal
  refine keeps_bind keeps_get fun s => ?_
  split
  · refine keeps_bind (keeps_ensure _) fun _ => keeps_bind (keeps_ensure _) fun _ => ?_
    refine keeps_bind (keeps_modify fun _ => rfl) fun _ => ?_
    split
    · exact keeps_onRest _
    · exact keeps_pure ()
    · exact keeps_pure ()
  · exact keeps_fail _

theorem keeps_vote (who : AccountId) (nonce : DepositNonce) (srcId : ChainId) (prop : Proposal)
    (inFavour : Bool) : Keeps counters (vote R T who nonce srcId prop inFavour) :=
  keeps_bind (keeps_commitVote R T who nonce srcId prop inFavour) fun _ =>
    keeps_tryResolveProposal R nonce srcId prop

theorem wp_deposits (c : Entry AccountId Proposal κ) (s : State AccountId Proposal ρ) :
    Wp (c.deposits R T) (fun out s' => CounterStep s out s') (fun _ s' => CounterStep s [] s') s := by
  -- the calls other than the transfers deposit nothing here
  have quiet : ∀ m : BridgeCall AccountId Proposal ρ Unit,
      Wp m (fun _ s' => CounterStep s [] s') (fun _ s' => CounterStep s [] s') s →
      Wp ((fun _ => []) <$> m) (fun out s' => CounterStep s out s')
        (fun _ s' => CounterStep s [] s') s := fun m h => by
    rw [wp_map]
    exact h
  have admin : ∀ (o : Origin AccountId) (m : BridgeCall AccountId Proposal ρ Unit),
      Wp m (fun _ s' => CounterStep s [] s') (fun _ s' => CounterStep s [] s') s →
      Wp (do ensureAdmin T o; m) (fun _ s' => CounterStep s [] s')
        (fun _ s' => CounterStep s [] s') s := fun o m h =>
    wp_bind_of_keeps (keeps_ensureAdmin T o) (fun _ => h) (fun _ => .kept rfl)
  cases c with
  | setThreshold o threshold =>
    refine quiet _ (admin o _ (Keeps.counterStep ?_ s))
    exact keeps_bind (keeps_ensure _) fun _ => keeps_modify fun _ => rfl
  | setResource o id method =>
    refine quiet _ (admin o _ (Keeps.counterStep ?_ s))
    exact keeps_modify fun _ => rfl
  | removeResource o id =>
    refine quiet _ (admin o _ (Keeps.counterStep ?_ s))
    exact keeps_modify fun _ => rfl
  | whitelistChain o id => exact quiet _ (admin o _ (wp_whitelist T id s))
  | addRelayer o v => exact quiet _ (admin o _ (wp_registerRelayer v s))
  | removeRelayer o v => exact quiet _ (admin o _ (wp_unregisterRelayer v s))
  | acknowledgeProposal o nonce srcId rId call =>
    exact quiet _ (Keeps.counterStep (keeps_bind (keeps_ensureRelayerVote o srcId rId) fun who =>
      keeps_vote R T who nonce srcId call true) s)
  | rejectProposal o nonce srcId rId call =>
    exact quiet _ (Keeps.counterStep (keeps_bind (keeps_ensureRelayerVote o srcId rId) fun who =>
      keeps_vote R T who nonce srcId call false) s)
  | evalVoteState o nonce srcId prop =>
    exact quiet _ (Keeps.counterStep (keeps_bind (keeps_ensureSigned o) fun _ =>
      keeps_tryResolveProposal R nonce srcId prop) s)
  | transferFungible destId =>
    rw [Entry.deposits, wp_map]
    exact wp_transferNonce destId s
  | transferNonfungible destId =>
    rw [Entry.deposits, wp_map]
    exact wp_transferNonce destId s
  | transferGeneric destId =>
    rw [Entry.deposits, wp_map]
    exact wp_transferNonce destId s
  | rest c => exact quiet _ (Keeps.counterStep (keeps_onRest _) s)

omit [DecidableEq AccountId] [DecidableEq Proposal] in
theorem map_unit_map_nil (m : BridgeCall AccountId Proposal ρ Unit) :
    m = (fun _ => ()) <$> ((fun _ => ([] : List (ChainId × DepositNonce))) <$> m) := by
  rw [Functor.map_map]
  exact (id_map m).symm

/-- Each entry point is the call that deposits its events, with the events
dropped. -/
theorem apply_eq_map_deposits (c : Entry AccountId Proposal κ) :
    c.apply R T = (fun _ => ()) <$> c.deposits R T := by
  have htransfer : ∀ destId, (transferOut destId : BridgeCall AccountId Proposal ρ Unit) =
      (fun _ => ()) <$> ((fun nonce => [(destId, nonce)]) <$> transferNonce destId) := fun destId => by
    rw [Functor.map_map]
    exact transferOut_eq destId
  cases c
  case transferFungible destId _ _ _ => exact htransfer destId
  case transferNonfungible destId _ _ _ _ => exact htransfer destId
  case transferGeneric destId _ _ => exact htransfer destId
  all_goals exact map_unit_map_nil _

theorem wp_apply_counterStep (c : Entry AccountId Proposal κ) (s : State AccountId Proposal ρ) :
    Wp (c.apply R T) (fun _ s' => ∃ out, CounterStep s out s') (fun _ s' => CounterStep s [] s') s := by
  rw [apply_eq_map_deposits, wp_map]
  exact Wp.mono (wp_deposits R T c s) (fun out _ h => ⟨out, h⟩) (fun _ _ h => h)

end Calls

/-! ## `RelayerCount` -/

section Relayers

variable {s s' : State AccountId Proposal ρ} {out : List (ChainId × DepositNonce)}

/-- `RelayerCount` is the number of relayers modulo `2^32`, as a `u32`
holds it. -/
def RelayersCounted (s : State AccountId Proposal ρ) : Prop :=
  ∃ relayers : Finset AccountId, (∀ a, s.relayers a = true ↔ a ∈ relayers) ∧
    s.relayerCount = relayers.card % 2 ^ 32

omit [DecidableEq AccountId] in
theorem relayersCounted_init (rest : ρ) :
    RelayersCounted (State.init rest : State AccountId Proposal ρ) :=
  ⟨∅, fun a => by simp [State.init], rfl⟩

omit [DecidableEq AccountId] in
theorem RelayersCounted.congr (hs : RelayersCounted s) (hrelayers : s'.relayers = s.relayers)
    (hcount : s'.relayerCount = s.relayerCount) : RelayersCounted s' := by
  rw [RelayersCounted, hrelayers, hcount]
  exact hs

theorem CounterStep.relayersCounted (h : CounterStep s out s') (hs : RelayersCounted s) :
    RelayersCounted s' := by
  cases h with
  | kept h =>
    obtain ⟨-, hrelayers, hcount⟩ := counters_eq h
    exact hs.congr hrelayers hcount
  | whitelisted id _ h =>
    obtain ⟨-, hrelayers, hcount⟩ := counters_eq h
    exact hs.congr hrelayers hcount
  | transferred destId _ h =>
    obtain ⟨-, hrelayers, hcount⟩ := counters_eq h
    exact hs.congr hrelayers hcount
  | registered relayer hnew h =>
    obtain ⟨-, hrelayers, hcount⟩ := counters_eq h
    obtain ⟨relayers, hmem, hcount₀⟩ := hs
    have hnot : relayer ∉ relayers := fun hin => by simp [(hmem relayer).mpr hin] at hnew
    refine ⟨insert relayer relayers, fun a => ?_, ?_⟩
    · rw [hrelayers, Finset.mem_insert]
      by_cases ha : a = relayer
      · simp [ha]
      · simp [hmem a, ha]
    · rw [hcount, hcount₀, Finset.card_insert_of_notMem hnot, wrappingAdd_mod]
  | unregistered relayer hrelayer h =>
    obtain ⟨-, hrelayers, hcount⟩ := counters_eq h
    obtain ⟨relayers, hmem, hcount₀⟩ := hs
    have hin : relayer ∈ relayers := (hmem relayer).mp hrelayer
    refine ⟨relayers.erase relayer, fun a => ?_, ?_⟩
    · rw [hrelayers, Finset.mem_erase]
      by_cases ha : a = relayer
      · simp [ha]
      · simp [hmem a, ha]
    · rw [hcount, hcount₀, Finset.card_erase_of_mem hin,
        wrappingSub_one_mod (Finset.card_pos.mpr ⟨relayer, hin⟩)]

variable [DecidableEq Proposal] (R : Runtime Proposal ρ κ) (T : Config AccountId)

/-- **Run.** In every state reachable from genesis, `RelayerCount` is the
number of relayers modulo `2^32`. -/
theorem relayersCounted_of_reachable (rest : ρ)
    (hs : Reachable (Entry.apply R T) (· = State.init rest) s) : RelayersCounted s :=
  hs.invariant (fun _ h => h ▸ relayersCounted_init rest) fun c =>
    preserves_of_wp fun s hs => Wp.mono (wp_apply_counterStep R T c s)
      (fun _ _ ⟨_, h⟩ => h.relayersCounted hs) (fun _ _ h => h.relayersCounted hs)

end Relayers

/-! ## Deposit nonces -/

section Nonces

variable {s s' : State AccountId Proposal ρ} {out : List (ChainId × DepositNonce)}

theorem map_range_succ_mod (n k : ℕ) :
    (List.range (k + 1)).map (fun i => (n + i + 1) % 2 ^ 64) =
      (n + 1) % 2 ^ 64 :: (List.range k).map fun i => ((n + 1) % 2 ^ 64 + i + 1) % 2 ^ 64 := by
  rw [List.range_succ_eq_map, List.map_cons, List.map_map]
  refine congrArg₂ _ rfl (List.map_congr_left fun i _ => ?_)
  rw [Function.comp_apply, add_assoc ((n + 1) % 2 ^ 64), Nat.mod_add_mod]
  congr 1
  omega

/-- What one step does to the nonce of chain `c` and to the events to `c`:
neither changes, or the step deposits the next nonce and stores it. -/
theorem CounterStep.nonces (h : CounterStep s out s') (c : ChainId) :
    ((out.filter (·.1 = c)).map (·.2) = [] ∧
        (s'.chainNonces c).getD 0 = (s.chainNonces c).getD 0) ∨
      ((out.filter (·.1 = c)).map (·.2) = [((s.chainNonces c).getD 0 + 1) % 2 ^ 64] ∧
        (s'.chainNonces c).getD 0 = ((s.chainNonces c).getD 0 + 1) % 2 ^ 64) := by
  cases h with
  | kept h =>
    obtain ⟨hnonces, -, -⟩ := counters_eq h
    exact .inl ⟨rfl, by rw [hnonces]⟩
  | whitelisted id hnone h =>
    obtain ⟨hnonces, -, -⟩ := counters_eq h
    -- the chain whitelisted had no nonce, which reads as `0`
    refine .inl ⟨rfl, ?_⟩
    by_cases hc : c = id
    · subst hc
      simp [hnonces, hnone]
    · simp [hnonces, Function.update_of_ne hc]
  | registered relayer _ h =>
    obtain ⟨hnonces, -, -⟩ := counters_eq h
    exact .inl ⟨rfl, by rw [hnonces]⟩
  | unregistered relayer _ h =>
    obtain ⟨hnonces, -, -⟩ := counters_eq h
    exact .inl ⟨rfl, by rw [hnonces]⟩
  | transferred destId _ h =>
    obtain ⟨hnonces, -, -⟩ := counters_eq h
    by_cases hc : destId = c
    · subst hc
      exact .inr ⟨by simp [wrappingAdd], by simp [hnonces, wrappingAdd]⟩
    · exact .inl ⟨by simp [hc], by simp [hnonces, Function.update_of_ne (Ne.symm hc)]⟩

variable [DecidableEq Proposal] (R : Runtime Proposal ρ κ) (T : Config AccountId)

/-- **Run.** Over any run from `s`, the transfer events to chain `c` carry
the nonces after the one `c` has in `s`, one at a time, modulo `2^64`. -/
theorem transferNonces_of_collect (c : ChainId) :
    ∀ (cs : List (Entry AccountId Proposal κ)) (s s' : State AccountId Proposal ρ)
      (evs : List (ChainId × DepositNonce)),
      collect (Entry.deposits R T) cs s = some (evs, s') →
      ∃ k, (evs.filter (·.1 = c)).map (·.2) =
        (List.range k).map fun i => ((s.chainNonces c).getD 0 + i + 1) % 2 ^ 64 := by
  intro cs
  induction cs with
  | nil =>
    intro s s' evs h
    simp only [collect, Option.some.injEq, Prod.mk.injEq] at h
    exact ⟨0, by simp [← h.1]⟩
  | cons e cs ih =>
    intro s s' evs h
    have hstep := wp_deposits R T e s
    simp only [collect] at h
    split at h
    · -- the call returns `Ok`: its events come first
      next out s₁ hrun =>
      obtain ⟨⟨evs', s''⟩, hrest, hevs⟩ := Option.map_eq_some_iff.mp h
      simp only [Prod.mk.injEq] at hevs
      obtain ⟨k, hk⟩ := ih s₁ s'' evs' hrest
      rw [← hevs.1, List.filter_append, List.map_append, hk]
      rcases (hstep.of_ok hrun).nonces c with ⟨hout, hnonce⟩ | ⟨hout, hnonce⟩
      · exact ⟨k, by rw [hout, hnonce, List.nil_append]⟩
      · exact ⟨k + 1, by rw [hout, hnonce, map_range_succ_mod, List.singleton_append]⟩
    · -- the call returns `Err` and deposits nothing
      next e' s₁ hrun =>
      obtain ⟨k, hk⟩ := ih s₁ s' evs h
      rcases (hstep.of_error hrun).nonces c with ⟨-, hnonce⟩ | ⟨hout, -⟩
      · exact ⟨k, by rw [hk, hnonce]⟩
      · simp at hout
    · cases h

end Nonces

/-! ## Runs from genesis -/

section Genesis

variable [DecidableEq Proposal] (R : Runtime Proposal ρ κ)

theorem map_snd_collect_deposits (T : Config AccountId)
    (cs : List (Entry AccountId Proposal κ)) (s : State AccountId Proposal ρ) :
    (collect (Entry.deposits R T) cs s).map Prod.snd = execute (Entry.apply R T) cs s :=
  map_snd_collect (apply_eq_map_deposits R T) cs s

def registeredBelow (rest : ρ) (n : ℕ) : State ℕ Proposal ρ :=
  { State.init rest with relayers := fun a => decide (a < n), relayerCount := n % 2 ^ 32 }

theorem run_addRelayer_root (T : Config ℕ) (s : State ℕ Proposal ρ) {v : ℕ}
    (hv : s.relayers v = false) :
    (Entry.apply R T (.addRelayer .root v)).run s =
      .ok () { s with relayers := Function.update s.relayers v true,
                      relayerCount := wrappingAdd 32 s.relayerCount 1 } := by
  cases h : T.adminOrigin .root <;> simp [Entry.apply, ensureAdmin, h, ensureRoot, registerRelayer, hv]

theorem run_removeRelayer_root (T : Config ℕ) (s : State ℕ Proposal ρ) {v : ℕ}
    (hv : s.relayers v = true) :
    (Entry.apply R T (.removeRelayer .root v)).run s =
      .ok () { s with relayers := Function.update s.relayers v false,
                      relayerCount := wrappingSub 32 s.relayerCount 1 } := by
  cases h : T.adminOrigin .root <;>
    simp [Entry.apply, ensureAdmin, h, ensureRoot, unregisterRelayer, hv]

theorem reachable_registeredBelow (T : Config ℕ) (rest : ρ) :
    ∀ n, Reachable (Entry.apply R T) (· = State.init rest) (registeredBelow rest n)
  | 0 => Reachable.start (by simp [registeredBelow, State.init])
  | n + 1 => by
    have hnext : ({ registeredBelow rest n with
        relayers := Function.update (registeredBelow rest n : State ℕ Proposal ρ).relayers n true,
        relayerCount := wrappingAdd 32 (registeredBelow rest n : State ℕ Proposal ρ).relayerCount 1 } :
          State ℕ Proposal ρ) = registeredBelow rest (n + 1) := by
      simp only [registeredBelow, wrappingAdd_mod, State.mk.injEq, true_and, and_true]
      funext a
      by_cases ha : a = n
      · simp [ha]
      · simp [Function.update_of_ne ha]
        omega
    have hrun := run_addRelayer_root R T (registeredBelow rest n) (v := n) (by simp [registeredBelow])
    rw [hnext] at hrun
    exact (reachable_registeredBelow T rest n).step (.addRelayer .root n) (.inl ⟨(), hrun⟩)

end Genesis

/-- From genesis, the `2^32` accounts below `2^32` are registered as
relayers: `RelayerCount` reads `0`, and removing a relayer takes it to
`2^32 - 1`. -/
theorem relayer_count_wraps :
    ∃ s, Reachable (Entry.apply bridgeRuntime bridgeConfig) (· = State.init 0) s ∧
      (∀ a, s.relayers a = true ↔ a ∈ Finset.range (2 ^ 32)) ∧ s.relayerCount = 0 ∧
      ∃ s', (Entry.apply bridgeRuntime bridgeConfig (.removeRelayer .root 0)).run s = .ok () s' ∧
        s'.relayerCount = 2 ^ 32 - 1 := by
  refine ⟨registeredBelow 0 (2 ^ 32), reachable_registeredBelow bridgeRuntime bridgeConfig 0 _,
    fun a => by simp [registeredBelow], by simp [registeredBelow], _,
    run_removeRelayer_root bridgeRuntime bridgeConfig _ (by simp [registeredBelow]), ?_⟩
  simp [registeredBelow, wrappingSub]

/-- Chain 7 is whitelisted, account 1 is made a relayer, and two transfers
go to chain 7. -/
def counterTrace : List (Entry ℕ ℕ Unit) :=
  [.whitelistChain .root 7, .addRelayer .root 1, .transferFungible 7 [] [] 10,
    .transferGeneric 7 [] []]

/-- The counters over every run from genesis: the relayers are finitely
many and `RelayerCount` is their number modulo `2^32`, and the transfer
events to each chain carry the nonces `1, 2, 3, …` modulo `2^64`. -/
theorem bridge_counters_of_reachable [DecidableEq Proposal] (R : Runtime Proposal ρ κ)
    (T : Config AccountId) (rest : ρ) :
    (∀ s, Reachable (Entry.apply R T) (· = State.init rest) s →
      ∃ relayers : Finset AccountId, (∀ a, s.relayers a = true ↔ a ∈ relayers) ∧
        s.relayerCount = relayers.card % 2 ^ 32) ∧
    ∀ (cs : List (Entry AccountId Proposal κ)) (evs : List (ChainId × DepositNonce))
      (s : State AccountId Proposal ρ) (c : ChainId),
      collect (Entry.deposits R T) cs (State.init rest) = some (evs, s) →
      ∃ k, (evs.filter (·.1 = c)).map (·.2) = (List.range k).map fun i => (i + 1) % 2 ^ 64 := by
  refine ⟨fun _ hs => relayersCounted_of_reachable R T rest hs, fun cs evs s c h => ?_⟩
  simpa [State.init] using transferNonces_of_collect R T c cs _ s evs h

theorem bridge_counters_of_counterTrace :
    ∃ evs s, collect (Entry.deposits bridgeRuntime bridgeConfig) counterTrace (State.init 0) =
        some (evs, s) ∧ evs = [(7, 1), (7, 2)] ∧
      Reachable (Entry.apply bridgeRuntime bridgeConfig) (· = State.init 0) s ∧
      (∃ relayers : Finset ℕ, (∀ a, s.relayers a = true ↔ a ∈ relayers) ∧
        s.relayerCount = relayers.card % 2 ^ 32) ∧
      ∃ k, (evs.filter (·.1 = 7)).map (·.2) = (List.range k).map fun i => (i + 1) % 2 ^ 64 := by
  have hrun : (collect (Entry.deposits bridgeRuntime bridgeConfig) counterTrace
      (State.init 0)).map Prod.fst = some [(7, 1), (7, 2)] := by
    decide
  obtain ⟨⟨evs, s⟩, hcollect, hevs⟩ := Option.map_eq_some_iff.mp hrun
  have hexecute : execute (Entry.apply bridgeRuntime bridgeConfig) counterTrace (State.init 0) =
      some s := by
    rw [← map_snd_collect_deposits, hcollect]
    rfl
  have hreach : Reachable (Entry.apply bridgeRuntime bridgeConfig) (· = State.init 0) s :=
    Reachable.execute (Reachable.start rfl) hexecute
  exact ⟨evs, s, hcollect, hevs, hreach,
    (bridge_counters_of_reachable bridgeRuntime bridgeConfig 0).1 s hreach,
    (bridge_counters_of_reachable bridgeRuntime bridgeConfig 0).2 counterTrace evs s 7 hcollect⟩

end SocialNetwork.Chainbridge
