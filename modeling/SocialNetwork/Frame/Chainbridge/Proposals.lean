import SocialNetwork.Frame.Chainbridge.Pallet

/-!
# Proposal safety of `pallet_chainbridge`

Over every run of the bridge's calls, the runtime's other calls and the
proposals they dispatch:

* the votes on a proposal are duplicate-free, and no relayer voted both
  ways (`VotesWf`, an invariant);
* every step is safe (`SafeStep`): a new voter was a relayer, a complete
  proposal is never written again, a proposal is written only before its
  expiry, and one is approved only with `RelayerThreshold` votes for it;
* with the runtime's dispatch made to log each call it runs
  (`Runtime.logged`), the number of times a call was dispatched is the
  number of approved votes with that call (`Logged`); as approved votes are
  never written again, each `(src_id, nonce, call)` is dispatched at most
  once.

Each call is read once, as a `Step`: the votes and the rest of the runtime
are kept, or `try_resolve_proposal` resolves one proposal, after a vote
on it or not. Every property is then a case analysis of `Step`.
-/

namespace SocialNetwork.Chainbridge

open Dispatch

variable {AccountId Proposal ρ κ : Type}

abbrev Key (Proposal : Type) := ChainId × DepositNonce × Proposal

/-! ## The votes of one proposal -/

namespace ProposalVotes

def voters (v : ProposalVotes AccountId) : List AccountId := v.votesFor ++ v.votesAgainst

/-- Nobody voted twice. -/
structure Wf (v : ProposalVotes AccountId) : Prop where
  nodup_for : v.votesFor.Nodup
  nodup_against : v.votesAgainst.Nodup
  disjoint : v.votesFor.Disjoint v.votesAgainst

theorem wf_default : (default : ProposalVotes AccountId).Wf :=
  ⟨List.nodup_nil, List.nodup_nil, List.disjoint_nil_left _⟩

section HasVoted

variable [DecidableEq AccountId]

theorem hasVoted_eq_false_iff {v : ProposalVotes AccountId} {who : AccountId} :
    v.hasVoted who = false ↔ who ∉ v.votesFor ∧ who ∉ v.votesAgainst := by
  simp [hasVoted]

theorem Wf.addVote {v : ProposalVotes AccountId} (h : v.Wf) {who : AccountId}
    (hnew : v.hasVoted who = false) (inFavour : Bool) : (v.addVote who inFavour).Wf := by
  obtain ⟨hfor, hagainst⟩ := hasVoted_eq_false_iff.mp hnew
  cases inFavour with
  | true =>
      refine ⟨h.nodup_for.append (List.nodup_singleton who) ?_, h.nodup_against, ?_⟩
      · exact List.disjoint_singleton.mpr hfor
      · exact List.disjoint_append_left.mpr ⟨h.disjoint, List.singleton_disjoint.mpr hagainst⟩
  | false =>
      refine ⟨h.nodup_for, h.nodup_against.append (List.nodup_singleton who) ?_, ?_⟩
      · exact List.disjoint_singleton.mpr hagainst
      · exact List.disjoint_append_right.mpr ⟨h.disjoint, List.disjoint_singleton.mpr hfor⟩

end HasVoted

theorem mem_voters_addVote {v : ProposalVotes AccountId} {who x : AccountId} {inFavour : Bool} :
    x ∈ (v.addVote who inFavour).voters ↔ x ∈ v.voters ∨ x = who := by
  cases inFavour <;> simp [addVote, voters, or_comm, or_left_comm]

theorem addVote_status (v : ProposalVotes AccountId) (who : AccountId) (inFavour : Bool) :
    (v.addVote who inFavour).status = v.status := by
  cases inFavour <;> rfl

theorem addVote_expiry (v : ProposalVotes AccountId) (who : AccountId) (inFavour : Bool) :
    (v.addVote who inFavour).expiry = v.expiry := by
  cases inFavour <;> rfl

section TryToComplete

variable (v : ProposalVotes AccountId) (threshold total : ℕ)

/-- `try_to_complete` changes the status only: the votes and the expiry
stay, and the status it returns is the one it writes. -/
theorem tryToComplete_eq :
    (v.tryToComplete threshold total).1 =
      { v with status := (v.tryToComplete threshold total).2 } ∨
    (v.tryToComplete threshold total) = (v, .initiated) := by
  unfold tryToComplete
  split_ifs <;> simp

theorem tryToComplete_votesFor : (v.tryToComplete threshold total).1.votesFor = v.votesFor := by
  rcases tryToComplete_eq v threshold total with h | h <;> rw [h]

theorem tryToComplete_votesAgainst :
    (v.tryToComplete threshold total).1.votesAgainst = v.votesAgainst := by
  rcases tryToComplete_eq v threshold total with h | h <;> rw [h]

theorem tryToComplete_expiry : (v.tryToComplete threshold total).1.expiry = v.expiry := by
  rcases tryToComplete_eq v threshold total with h | h <;> rw [h]

theorem tryToComplete_voters : (v.tryToComplete threshold total).1.voters = v.voters := by
  rw [voters, voters, tryToComplete_votesFor, tryToComplete_votesAgainst]

theorem tryToComplete_status (hv : v.status = .initiated) :
    (v.tryToComplete threshold total).1.status = (v.tryToComplete threshold total).2 := by
  rcases tryToComplete_eq v threshold total with h | h
  · rw [h]
  · rw [h]
    exact hv

theorem threshold_le_of_tryToComplete (h : (v.tryToComplete threshold total).2 = .approved) :
    threshold ≤ v.votesFor.length := by
  unfold tryToComplete at h
  split_ifs at h with hle
  · exact hle

theorem Wf.tryToComplete {v : ProposalVotes AccountId} (h : v.Wf) (threshold total : ℕ) :
    (v.tryToComplete threshold total).1.Wf := by
  refine ⟨?_, ?_, ?_⟩
  · rw [tryToComplete_votesFor]; exact h.nodup_for
  · rw [tryToComplete_votesAgainst]; exact h.nodup_against
  · rw [tryToComplete_votesFor, tryToComplete_votesAgainst]; exact h.disjoint

end TryToComplete

theorem isComplete_eq_false_iff {v : ProposalVotes AccountId} :
    v.isComplete = false ↔ v.status = .initiated := by
  simp [isComplete]

theorem isExpired_eq_false_iff {v : ProposalVotes AccountId} {now : ℕ} :
    v.isExpired now = false ↔ now < v.expiry := by
  simp [isExpired]

end ProposalVotes

open ProposalVotes

variable [DecidableEq AccountId] [DecidableEq Proposal]

/-! ## What one call does -/

section Step

variable (R : Runtime Proposal ρ κ) (T : Config AccountId)

/-- The vote `commit_vote` writes at `key` from `s`: `who`'s, on votes that
were open and unexpired and that `who` had not voted on. -/
def Committed (s : State AccountId Proposal ρ) (key : Key Proposal) (who : AccountId)
    (inFavour : Bool) (v' : ProposalVotes AccountId) : Prop :=
  (votesOrNew R T s key).isComplete = false ∧
    (votesOrNew R T s key).isExpired (R.blockNumber s.rest) = false ∧
    (votesOrNew R T s key).hasVoted who = false ∧
    v' = (votesOrNew R T s key).addVote who inFavour

/-- What `try_resolve_proposal` does at `key` from `s` to `s'` once past its
checks: it writes the status `try_to_complete` returns, and dispatches the
proposal when that is `Approved`. -/
def Resolved (s s' : State AccountId Proposal ρ) (key : Key Proposal) : Prop :=
  ∃ v, s.votes.lookup key = some v ∧ v.isComplete = false ∧
    v.isExpired (R.blockNumber s.rest) = false ∧
    s'.votes = s.votes.insert key (v.tryToComplete s.relayerThreshold s.relayerCount).1 ∧
    s'.relayerThreshold = s.relayerThreshold ∧ s'.relayers = s.relayers ∧
    (if (v.tryToComplete s.relayerThreshold s.relayerCount).2 = .approved
      then Leaves (R.dispatch key.2.2) s.rest s'.rest else s'.rest = s.rest)

def State.withVote (s : State AccountId Proposal ρ) (key : Key Proposal)
    (v' : ProposalVotes AccountId) : State AccountId Proposal ρ :=
  { s with votes := s.votes.insert key v' }

/-- **What one call can do** to the votes and the rest of the runtime. -/
inductive Step (s s' : State AccountId Proposal ρ) : Prop where
  /-- The votes stay; the rest of the runtime stays or runs one of its calls. -/
  | kept (hvotes : s'.votes = s.votes)
      (hrest : s'.rest = s.rest ∨ ∃ c, Leaves (R.apply c) s.rest s'.rest)
  /-- `eval_vote_state` resolves a proposal. -/
  | resolved (key : Key Proposal) (h : Resolved R s s' key)
  /-- A relayer votes, and `try_resolve_proposal` fails before writing. -/
  | committed (key : Key Proposal) (who : AccountId) (inFavour : Bool)
      (v' : ProposalVotes AccountId) (hrelayer : s.relayers who = true)
      (hc : Committed R T s key who inFavour v') (h : s' = s.withVote key v')
  /-- A relayer votes, and the proposal is resolved. -/
  | voted (key : Key Proposal) (who : AccountId) (inFavour : Bool)
      (v' : ProposalVotes AccountId) (hrelayer : s.relayers who = true)
      (hc : Committed R T s key who inFavour v') (h : Resolved R (s.withVote key v') s' key)

end Step

/-! ## Reading each call as a `Step` -/

section Calls

variable (R : Runtime Proposal ρ κ) (T : Config AccountId)

omit [DecidableEq AccountId] [DecidableEq Proposal] in
theorem wp_onRest {α : Type} {m : Call DispatchError ρ α} {P : State AccountId Proposal ρ → Prop}
    {s : State AccountId Proposal ρ} (h : ∀ r, Leaves m s.rest r → P { s with rest := r }) :
    Wp (onRest m) (fun _ => P) (fun _ => P) s := by
  unfold onRest
  rw [wp_zoom]
  exact Wp.mono (Wp.leaves m s.rest) (fun _ r hr => h r hr) (fun _ r hr => h r hr)

theorem Step.of_keeps {s s' : State AccountId Proposal ρ}
    (h : (s'.votes, s'.rest) = (s.votes, s.rest)) : Step R T s s' :=
  .kept (Prod.mk.inj h).1 (.inl (Prod.mk.inj h).2)

theorem wp_commitVote (who : AccountId) (nonce : DepositNonce) (srcId : ChainId) (prop : Proposal)
    (inFavour : Bool) (s : State AccountId Proposal ρ) :
    Wp (commitVote R T who nonce srcId prop inFavour)
      (fun _ s' => ∃ v', Committed R T s (srcId, nonce, prop) who inFavour v' ∧
        s' = s.withVote (srcId, nonce, prop) v')
      (fun _ s' => s' = s) s := by
  unfold commitVote
  simp only [wp_bind, wp_get, wp_ensure, wp_modify]
  split_ifs with hcomplete hexpired hvoted
  exact ⟨_, ⟨hcomplete, hexpired, hvoted, rfl⟩, rfl⟩

omit [DecidableEq AccountId] in
theorem wp_tryResolveProposal (nonce : DepositNonce) (srcId : ChainId) (prop : Proposal)
    (s : State AccountId Proposal ρ) :
    Wp (tryResolveProposal R nonce srcId prop)
      (fun _ s' => Resolved R s s' (srcId, nonce, prop))
      (fun _ s' => s' = s ∨ Resolved R s s' (srcId, nonce, prop)) s := by
  unfold tryResolveProposal
  simp only [wp_bind, wp_get]
  cases hv : s.votes.lookup (srcId, nonce, prop) with
  | none => exact .inl rfl
  | some v =>
  dsimp only
  simp only [wp_bind, wp_ensure, wp_modify]
  split_ifs with hcomplete hexpired
  · -- past the checks: the status is written, then the proposal may be dispatched
    have hresolved : ∀ s', s'.votes = s.votes.insert (srcId, nonce, prop)
        (v.tryToComplete s.relayerThreshold s.relayerCount).1 →
        s'.relayerThreshold = s.relayerThreshold → s'.relayers = s.relayers →
        (if (v.tryToComplete s.relayerThreshold s.relayerCount).2 = .approved
          then Leaves (R.dispatch prop) s.rest s'.rest else s'.rest = s.rest) →
        Resolved R s s' (srcId, nonce, prop) :=
      fun s' h₁ h₂ h₃ h₄ => ⟨v, hv, hcomplete, hexpired, h₁, h₂, h₃, h₄⟩
    cases hstatus : (v.tryToComplete s.relayerThreshold s.relayerCount).2 with
    | approved =>
        refine Wp.mono (wp_onRest (P := fun s' => Resolved R s s' (srcId, nonce, prop))
          fun r hr => hresolved _ rfl rfl rfl ?_) (fun _ _ h => h) (fun _ _ h => .inr h)
        rw [if_pos hstatus]
        exact hr
    | rejected => exact hresolved _ rfl rfl rfl (by rw [if_neg (by rw [hstatus]; decide)])
    | initiated => exact hresolved _ rfl rfl rfl (by rw [if_neg (by rw [hstatus]; decide)])
  all_goals exact .inl trivial

theorem wp_vote (who : AccountId) (nonce : DepositNonce) (srcId : ChainId) (prop : Proposal) (inFavour : Bool)
    (s : State AccountId Proposal ρ) (hwho : s.relayers who = true) :
    Wp (vote R T who nonce srcId prop inFavour) (fun _ s' => Step R T s s')
      (fun _ s' => Step R T s s') s := by
  unfold vote
  rw [wp_bind]
  refine Wp.mono (wp_commitVote R T who nonce srcId prop inFavour s) (fun _ mid hmid => ?_)
    (fun _ _ h => Step.of_keeps R T (by rw [h]))
  obtain ⟨v', hc, rfl⟩ := hmid
  exact Wp.mono (wp_tryResolveProposal R nonce srcId prop _)
    (fun _ _ h => .voted _ who inFavour v' hwho hc h)
    (fun _ _ h => h.elim (fun h => .committed _ who inFavour v' hwho hc h)
      (fun h => .voted _ who inFavour v' hwho hc h))

omit [DecidableEq AccountId] [DecidableEq Proposal] in
theorem wp_ensureRelayerVote (o : Origin AccountId) (srcId : ChainId) (rId : ResourceId)
    (s : State AccountId Proposal ρ) :
    Wp (ensureRelayerVote o srcId rId) (fun who s' => s' = s ∧ s.relayers who = true)
      (fun _ s' => s' = s) s := by
  unfold ensureRelayerVote
  refine wp_ensureSigned_bind (fun who => ?_) rfl
  simp only [wp_bind, wp_get, wp_ensure, wp_pure]
  split_ifs with hrelayer
  all_goals simp [hrelayer]

def votesRest (s : State AccountId Proposal ρ) :
    StorageMap (Key Proposal) (ProposalVotes AccountId) × ρ :=
  (s.votes, s.rest)

theorem Keeps.step {α : Type} {m : BridgeCall AccountId Proposal ρ α} (h : Keeps votesRest m)
    (s : State AccountId Proposal ρ) :
    Wp m (fun _ s' => Step R T s s') (fun _ s' => Step R T s s') s :=
  Wp.mono h.wp (fun _ _ h => Step.of_keeps R T h) (fun _ _ h => Step.of_keeps R T h)

omit [DecidableEq AccountId] [DecidableEq Proposal] in
theorem keeps_ensureAdmin {γ : Type} {f : State AccountId Proposal ρ → γ} (o : Origin AccountId) :
    Keeps f (ensureAdmin T o : BridgeCall AccountId Proposal ρ Unit) :=
  keeps_ite (keeps_pure ()) (keeps_ensureRoot o)

omit [DecidableEq Proposal] in
/-- The administrative calls and the transfers write neither the votes nor
the rest of the runtime. -/
theorem keeps_admin :
    (∀ threshold, Keeps votesRest
      (setRelayerThreshold threshold : BridgeCall AccountId Proposal ρ Unit)) ∧
    (∀ id method, Keeps votesRest
      (registerResource id method : BridgeCall AccountId Proposal ρ Unit)) ∧
    (∀ id, Keeps votesRest (unregisterResource id : BridgeCall AccountId Proposal ρ Unit)) ∧
    (∀ id, Keeps votesRest (whitelist T id : BridgeCall AccountId Proposal ρ Unit)) ∧
    (∀ relayer, Keeps votesRest
      (registerRelayer relayer : BridgeCall AccountId Proposal ρ Unit)) ∧
    (∀ relayer, Keeps votesRest
      (unregisterRelayer relayer : BridgeCall AccountId Proposal ρ Unit)) ∧
    (∀ destId, Keeps votesRest (transferOut destId : BridgeCall AccountId Proposal ρ Unit)) := by
  -- every write of these calls is to another item than `Votes`
  have hmodify : ∀ g : State AccountId Proposal ρ → State AccountId Proposal ρ,
      (∀ s, (g s).votes = s.votes) → (∀ s, (g s).rest = s.rest) →
      Keeps votesRest (modify g : BridgeCall AccountId Proposal ρ Unit) :=
    fun _ hvotes hrest => keeps_modify fun s => by rw [votesRest, votesRest, hvotes, hrest]
  refine ⟨fun _ => ?_, fun _ _ => ?_, fun _ => ?_, fun _ => ?_, fun _ => ?_, fun _ => ?_,
    fun destId => ?_⟩
  · exact keeps_bind (keeps_ensure _) fun _ => hmodify _ (fun _ => rfl) (fun _ => rfl)
  · exact hmodify _ (fun _ => rfl) (fun _ => rfl)
  · exact hmodify _ (fun _ => rfl) (fun _ => rfl)
  · exact keeps_bind (keeps_ensure _) fun _ => keeps_bind keeps_get fun _ =>
      keeps_bind (keeps_ensure _) fun _ => hmodify _ (fun _ => rfl) (fun _ => rfl)
  · exact keeps_bind keeps_get fun _ => keeps_bind (keeps_ensure _) fun _ =>
      keeps_bind (hmodify _ (fun _ => rfl) (fun _ => rfl)) fun _ =>
        hmodify _ (fun _ => rfl) (fun _ => rfl)
  · exact keeps_bind keeps_get fun _ => keeps_bind (keeps_ensure _) fun _ =>
      keeps_bind (hmodify _ (fun _ => rfl) (fun _ => rfl)) fun _ =>
        hmodify _ (fun _ => rfl) (fun _ => rfl)
  · have hbump : Keeps votesRest (bumpNonce destId : BridgeCall AccountId Proposal ρ DepositNonce) :=
      keeps_bind keeps_get fun _ =>
        keeps_bind (hmodify _ (fun _ => rfl) (fun _ => rfl)) fun _ => keeps_pure _
    unfold transferOut
    exact keeps_bind keeps_get fun _ => keeps_bind (keeps_ensure _) fun _ =>
      keeps_bind hbump fun _ => keeps_pure _

theorem entry_step (c : Entry AccountId Proposal κ) (s : State AccountId Proposal ρ) :
    Wp (c.apply R T) (fun _ s' => Step R T s s') (fun _ s' => Step R T s s') s := by
  obtain ⟨hthreshold, hresource, hunresource, hwhitelist, hregister, hunregister, htransfer⟩ :=
    (keeps_admin T : _ ∧ _ ∧ _ ∧ _ ∧ _ ∧ _ ∧ ∀ destId, Keeps votesRest
      (transferOut destId : BridgeCall AccountId Proposal ρ Unit))
  cases c with
  | setThreshold o threshold =>
      exact Keeps.step R T (keeps_bind (keeps_ensureAdmin T o) fun _ => hthreshold threshold) s
  | setResource o id method =>
      exact Keeps.step R T (keeps_bind (keeps_ensureAdmin T o) fun _ => hresource id method) s
  | removeResource o id =>
      exact Keeps.step R T (keeps_bind (keeps_ensureAdmin T o) fun _ => hunresource id) s
  | whitelistChain o id =>
      exact Keeps.step R T (keeps_bind (keeps_ensureAdmin T o) fun _ => hwhitelist id) s
  | addRelayer o v =>
      exact Keeps.step R T (keeps_bind (keeps_ensureAdmin T o) fun _ => hregister v) s
  | removeRelayer o v =>
      exact Keeps.step R T (keeps_bind (keeps_ensureAdmin T o) fun _ => hunregister v) s
  | acknowledgeProposal o nonce srcId rId call =>
      show Wp (ensureRelayerVote o srcId rId >>= fun who => vote R T who nonce srcId call true) _ _ s
      rw [wp_bind]
      exact Wp.mono (wp_ensureRelayerVote o srcId rId s)
        (fun who _ ⟨hs, hwho⟩ => hs ▸ wp_vote R T who nonce srcId call true s hwho)
        (fun _ _ h => Step.of_keeps R T (by rw [h]))
  | rejectProposal o nonce srcId rId call =>
      show Wp (ensureRelayerVote o srcId rId >>= fun who => vote R T who nonce srcId call false) _ _ s
      rw [wp_bind]
      exact Wp.mono (wp_ensureRelayerVote o srcId rId s)
        (fun who _ ⟨hs, hwho⟩ => hs ▸ wp_vote R T who nonce srcId call false s hwho)
        (fun _ _ h => Step.of_keeps R T (by rw [h]))
  | evalVoteState o nonce srcId prop =>
      refine wp_ensureSigned_bind (fun _ => ?_) (Step.of_keeps R T rfl)
      exact Wp.mono (wp_tryResolveProposal R nonce srcId prop s) (fun _ _ h => .resolved _ h)
        (fun _ _ h => h.elim (fun h => Step.of_keeps R T (by rw [h])) (fun h => .resolved _ h))
  | transferFungible destId _ _ _ => exact Keeps.step R T (htransfer destId) s
  | transferNonfungible destId _ _ _ _ => exact Keeps.step R T (htransfer destId) s
  | transferGeneric destId _ _ => exact Keeps.step R T (htransfer destId) s
  | rest c =>
      exact wp_onRest (P := fun s' => Step R T s s') fun r hr => .kept rfl (.inr ⟨c, hr⟩)

end Calls

/-! ## One proposal across one step -/

section KeyStep

variable (R : Runtime Proposal ρ κ)

/-- What a step may do to the votes at `k`: keep them, or write votes that
were open before the step and are unexpired at its block, whose new voters
are relayers, and which are approved only with `RelayerThreshold` votes
for. -/
def KeyStep (s s' : State AccountId Proposal ρ) (k : Key Proposal) : Prop :=
  s'.votes.lookup k = s.votes.lookup k ∨
    ∃ v', s'.votes.lookup k = some v' ∧
      (∀ v, s.votes.lookup k = some v → v.status = .initiated) ∧
      R.blockNumber s.rest < v'.expiry ∧
      (∀ x ∈ v'.voters, (∃ v, s.votes.lookup k = some v ∧ x ∈ v.voters) ∨ s.relayers x = true) ∧
      (v'.status = .approved → s.relayerThreshold ≤ v'.votesFor.length)

variable {R} {T : Config AccountId} {s mid s' : State AccountId Proposal ρ} {key : Key Proposal}

omit [DecidableEq AccountId] in
theorem votesOrNew_of_lookup {v : ProposalVotes AccountId} (h : s.votes.lookup key = some v) :
    votesOrNew R T s key = v := by
  simp [votesOrNew, h]

omit [DecidableEq AccountId] in
theorem mem_voters_votesOrNew {x : AccountId} (hx : x ∈ (votesOrNew R T s key).voters) :
    ∃ v, s.votes.lookup key = some v ∧ x ∈ v.voters := by
  cases h : s.votes.lookup key with
  | none => simp [votesOrNew, h, voters, ProposalVotes.default] at hx
  | some v => exact ⟨v, rfl, by rwa [votesOrNew_of_lookup h] at hx⟩

omit [DecidableEq AccountId] in
theorem Resolved.lookup_ne (h : Resolved R s s' key) {k : Key Proposal} (hk : k ≠ key) :
    s'.votes.lookup k = s.votes.lookup k := by
  obtain ⟨v, -, -, -, hvotes, -⟩ := h
  rw [hvotes, Finmap.lookup_insert_of_ne _ hk]

omit [DecidableEq AccountId] in
/-- A resolution changes the status of the votes it resolves, and nothing
else of them. -/
theorem Resolved.keyStep (h : Resolved R s s' key) (k : Key Proposal) : KeyStep R s s' k := by
  by_cases hk : k = key
  · subst hk
    obtain ⟨v, hv, hcomplete, hexpired, hvotes, -⟩ := h
    have hinitiated : v.status = .initiated := isComplete_eq_false_iff.mp hcomplete
    refine .inr ⟨_, by rw [hvotes, Finmap.lookup_insert], fun v₀ hv₀ => ?_, ?_, fun x hx => ?_,
      fun happroved => ?_⟩
    · rw [hv] at hv₀
      exact Option.some.inj hv₀ ▸ hinitiated
    · rw [tryToComplete_expiry]
      exact isExpired_eq_false_iff.mp hexpired
    · rw [tryToComplete_voters] at hx
      exact .inl ⟨v, hv, hx⟩
    · rw [tryToComplete_status v _ _ hinitiated] at happroved
      rw [tryToComplete_votesFor]
      exact threshold_le_of_tryToComplete v _ _ happroved
  · exact .inl (h.lookup_ne hk)

theorem Committed.keyStep {who : AccountId} {inFavour : Bool} {v' : ProposalVotes AccountId}
    (hc : Committed R T s key who inFavour v') (hrelayer : s.relayers who = true)
    (k : Key Proposal) : KeyStep R s (s.withVote key v') k := by
  obtain ⟨hcomplete, hexpired, -, rfl⟩ := hc
  by_cases hk : k = key
  · subst hk
    have hinitiated := isComplete_eq_false_iff.mp hcomplete
    refine .inr ⟨_, Finmap.lookup_insert _, fun v hv => ?_, ?_, fun x hx => ?_,
      fun happroved => ?_⟩
    · rw [votesOrNew_of_lookup hv] at hinitiated
      exact hinitiated
    · rw [addVote_expiry]
      exact isExpired_eq_false_iff.mp hexpired
    · rcases mem_voters_addVote.mp hx with hx | rfl
      · exact .inl (mem_voters_votesOrNew hx)
      · exact .inr hrelayer
    · rw [addVote_status, hinitiated] at happroved
      cases happroved
  · exact .inl (Finmap.lookup_insert_of_ne _ hk)

omit [DecidableEq AccountId] in
/-- Two writes in one call, the second from a state with the first's
rest of the runtime, relayers and threshold, make one `KeyStep`. -/
theorem KeyStep.trans {k : Key Proposal} (h₁ : KeyStep R s mid k) (h₂ : KeyStep R mid s' k)
    (hrest : mid.rest = s.rest) (hrelayers : mid.relayers = s.relayers)
    (hthreshold : mid.relayerThreshold = s.relayerThreshold) : KeyStep R s s' k := by
  rcases h₁ with h₁ | ⟨v₁, hv₁, hopen₁, hexpiry₁, hvoters₁, happroved₁⟩
  · rcases h₂ with h₂ | ⟨v₂, hv₂, hopen₂, hexpiry₂, hvoters₂, happroved₂⟩
    · exact .inl (h₂.trans h₁)
    · rw [h₁, hrest, hrelayers, hthreshold] at *
      exact .inr ⟨v₂, hv₂, hopen₂, hexpiry₂, hvoters₂, happroved₂⟩
  · rcases h₂ with h₂ | ⟨v₂, hv₂, -, hexpiry₂, hvoters₂, happroved₂⟩
    · exact .inr ⟨v₁, h₂.trans hv₁, hopen₁, hexpiry₁, hvoters₁, happroved₁⟩
    · refine .inr ⟨v₂, hv₂, hopen₁, hrest ▸ hexpiry₂, fun x hx => ?_, hthreshold ▸ happroved₂⟩
      rcases hvoters₂ x hx with ⟨v, hv, hxv⟩ | hx
      · rw [hv₁] at hv
        exact hvoters₁ x (Option.some.inj hv ▸ hxv)
      · exact .inr (hrelayers ▸ hx)

end KeyStep

/-! ## Safety of every step -/

section Safety

variable (R : Runtime Proposal ρ κ) (T : Config AccountId)

/-- Every proposal's votes are duplicate-free, with no relayer on both
sides. -/
def VotesWf (m : StorageMap (Key Proposal) (ProposalVotes AccountId)) : Prop :=
  ∀ k v, m.lookup k = some v → v.Wf

/-- **A safe step.** A voter of the votes after the step voted before it or
was a relayer; complete votes are kept as they are; votes are written only
while unexpired at the step's block; and votes become approved only with
`RelayerThreshold` votes for them. -/
structure SafeStep (s s' : State AccountId Proposal ρ) : Prop where
  voters_relayers : ∀ k v' x, s'.votes.lookup k = some v' → x ∈ v'.voters →
    (∃ v, s.votes.lookup k = some v ∧ x ∈ v.voters) ∨ s.relayers x = true
  complete_kept : ∀ k v, s.votes.lookup k = some v → v.isComplete = true →
    s'.votes.lookup k = some v
  unexpired : ∀ k, s'.votes.lookup k ≠ s.votes.lookup k →
    ∃ v', s'.votes.lookup k = some v' ∧ R.blockNumber s.rest < v'.expiry
  threshold_of_approved : ∀ k v', s'.votes.lookup k = some v' → v'.status = .approved →
    (∀ v, s.votes.lookup k = some v → v.status ≠ .approved) →
    s.relayerThreshold ≤ v'.votesFor.length

variable {R T} {s s' : State AccountId Proposal ρ}

theorem Step.keyStep (h : Step R T s s') (k : Key Proposal) : KeyStep R s s' k := by
  cases h with
  | kept hvotes _ => exact .inl (by rw [hvotes])
  | resolved key h => exact h.keyStep k
  | committed key who inFavour v' hrelayer hc h =>
      subst h
      exact hc.keyStep hrelayer k
  | voted key who inFavour v' hrelayer hc h =>
      exact (hc.keyStep hrelayer k).trans (h.keyStep k) rfl rfl rfl

omit [DecidableEq AccountId] in
theorem safeStep_of_keyStep (h : ∀ k, KeyStep R s s' k) : SafeStep R s s' := by
  refine ⟨fun k v' x hv' hx => ?_, fun k v hv hcomplete => ?_, fun k hne => ?_,
    fun k v' hv' happroved hbefore => ?_⟩
  · rcases h k with hk | ⟨v'', hv'', -, -, hvoters, -⟩
    · exact .inl ⟨v', hk ▸ hv', hx⟩
    · rw [hv''] at hv'
      exact hvoters x (Option.some.inj hv' ▸ hx)
  · rcases h k with hk | ⟨-, -, hopen, -⟩
    · rw [hk, hv]
    · -- complete votes are not open
      have := hopen v hv
      simp [isComplete, this] at hcomplete
  · rcases h k with hk | ⟨v', hv', -, hexpiry, -⟩
    · exact absurd hk hne
    · exact ⟨v', hv', hexpiry⟩
  · rcases h k with hk | ⟨v'', hv'', -, -, -, hthreshold⟩
    · exact absurd happroved (hbefore v' (hk ▸ hv'))
    · rw [hv''] at hv'
      exact Option.some.inj hv' ▸ hthreshold (Option.some.inj hv' ▸ happroved)

omit [DecidableEq AccountId] in
theorem VotesWf.insert {m : StorageMap (Key Proposal) (ProposalVotes AccountId)} (h : VotesWf m)
    {key : Key Proposal} {v : ProposalVotes AccountId} (hv : v.Wf) : VotesWf (m.insert key v) := by
  intro k v' hk
  by_cases hkey : k = key
  · subst hkey
    rw [Finmap.lookup_insert] at hk
    exact Option.some.inj hk ▸ hv
  · rw [Finmap.lookup_insert_of_ne _ hkey] at hk
    exact h k v' hk

omit [DecidableEq AccountId] in
theorem Resolved.votesWf {key : Key Proposal} (h : Resolved R s s' key) (hs : VotesWf s.votes) :
    VotesWf s'.votes := by
  obtain ⟨v, hv, -, -, hvotes, -⟩ := h
  rw [hvotes]
  exact hs.insert ((hs key v hv).tryToComplete _ _)

theorem Committed.wf {key : Key Proposal} {who : AccountId} {inFavour : Bool}
    {v' : ProposalVotes AccountId} (hc : Committed R T s key who inFavour v')
    (hs : VotesWf s.votes) : v'.Wf := by
  obtain ⟨-, -, hnew, rfl⟩ := hc
  refine Wf.addVote ?_ hnew inFavour
  cases h : s.votes.lookup key with
  | none =>
      simp only [votesOrNew, h]
      exact ⟨List.nodup_nil, List.nodup_nil, List.disjoint_nil_left _⟩
  | some v => exact votesOrNew_of_lookup h ▸ hs key v h

theorem Committed.not_approved {key : Key Proposal} {who : AccountId} {inFavour : Bool}
    {v' : ProposalVotes AccountId} (hc : Committed R T s key who inFavour v') :
    ∀ v, s.votes.lookup key = some v → v.status ≠ .approved := by
  intro v hv
  have hopen := isComplete_eq_false_iff.mp hc.1
  rw [votesOrNew_of_lookup hv] at hopen
  rw [hopen]
  decide

theorem Committed.status_ne {key : Key Proposal} {who : AccountId} {inFavour : Bool}
    {v' : ProposalVotes AccountId} (hc : Committed R T s key who inFavour v') :
    v'.status ≠ .approved := by
  obtain ⟨hcomplete, -, -, rfl⟩ := hc
  rw [addVote_status, isComplete_eq_false_iff.mp hcomplete]
  decide

theorem Step.votesWf (h : Step R T s s') (hs : VotesWf s.votes) : VotesWf s'.votes := by
  cases h with
  | kept hvotes _ => exact hvotes ▸ hs
  | resolved key h => exact h.votesWf hs
  | committed key who inFavour v' _ hc h =>
      subst h
      exact hs.insert (hc.wf hs)
  | voted key who inFavour v' _ hc h => exact h.votesWf (hs.insert (hc.wf hs))

end Safety

/-! ## Each proposal dispatched once

The runtime is given a log: `Runtime.logged` appends each proposal it
dispatches to a list kept beside the rest of the runtime, and changes
nothing else. Over every run, a proposal `p` was dispatched as many times
as there are approved votes with the call `p`; as complete votes are never
written again (`SafeStep.complete_kept`), each `(src_id, nonce, p)` is
dispatched at most once, in the step that approves it. -/

section Logged

def Runtime.logged (R : Runtime Proposal ρ κ) : Runtime Proposal (List Proposal × ρ) κ where
  blockNumber r := R.blockNumber r.2
  dispatch p := do
    modify fun r : List Proposal × ρ => (r.1 ++ [p], r.2)
    zoom Prod.snd (fun r x => (r.1, x)) (R.dispatch p)
  apply c := zoom Prod.snd (fun r x => (r.1, x)) (R.apply c)

variable {R : Runtime Proposal ρ κ} {T : Config AccountId}

omit [DecidableEq Proposal] in
theorem Runtime.log_of_dispatch {p : Proposal} {r r' : List Proposal × ρ}
    (h : Leaves (R.logged.dispatch p) r r') : r'.1 = r.1 ++ [p] := by
  have hkeeps : Keeps Prod.fst (zoom Prod.snd (fun r x => (r.1, x)) (R.dispatch p) :
      Call DispatchError (List Proposal × ρ) Unit) := keeps_zoom _ fun _ _ => rfl
  refine Leaves.of_wp (P := fun r' => r'.1 = r.1 ++ [p]) ?_ h
  show Wp (modify _ >>= fun _ => zoom Prod.snd _ (R.dispatch p)) _ _ r
  rw [wp_bind, wp_modify]
  exact hkeeps.wp

omit [DecidableEq Proposal] in
theorem Runtime.log_of_apply {c : κ} {r r' : List Proposal × ρ}
    (h : Leaves (R.logged.apply c) r r') : r'.1 = r.1 := by
  have hkeeps : Keeps Prod.fst (zoom Prod.snd (fun r x => (r.1, x)) (R.apply c) :
      Call DispatchError (List Proposal × ρ) Unit) := keeps_zoom _ fun _ _ => rfl
  exact Leaves.of_wp (P := fun r' => r'.1 = r.1) hkeeps.wp h

def approvals (p : Proposal) (m : StorageMap (Key Proposal) (ProposalVotes AccountId)) : ℕ :=
  StorageMap.count (fun k v => decide (k.2.2 = p) && decide (v.status = .approved)) m

def Logged (s : State AccountId Proposal (List Proposal × ρ)) : Prop :=
  ∀ p, s.rest.1.count p = approvals p s.votes

omit [DecidableEq AccountId] in
/-- Writing votes over votes that were not approved adds one approval of
their call when the new ones are approved. -/
theorem approvals_insert {m : StorageMap (Key Proposal) (ProposalVotes AccountId)}
    {key : Key Proposal} (hold : ∀ v, m.lookup key = some v → v.status ≠ .approved)
    (v' : ProposalVotes AccountId) (p : Proposal) :
    approvals p (m.insert key v') =
      approvals p m + if key.2.2 = p ∧ v'.status = .approved then 1 else 0 := by
  have h := StorageMap.count_insert
    (p := fun k v => decide (k.2.2 = p) && decide (v.status = .approved)) m key v'
  have hat : StorageMap.countAt
      (fun k v => decide (k.2.2 = p) && decide (v.status = .approved)) m key = 0 := by
    cases hv : m.lookup key with
    | none => simp [StorageMap.countAt, hv]
    | some v => simp [StorageMap.countAt, hv, hold v hv]
  rw [hat, Nat.add_zero] at h
  rw [approvals, approvals, h]
  simp [Bool.and_eq_true]

omit [DecidableEq AccountId] in
theorem Logged.withVote {s : State AccountId Proposal (List Proposal × ρ)} (hs : Logged s)
    {key : Key Proposal} (hold : ∀ v, s.votes.lookup key = some v → v.status ≠ .approved)
    {v' : ProposalVotes AccountId} (hv' : v'.status ≠ .approved) : Logged (s.withVote key v') := by
  intro p
  rw [State.withVote, approvals_insert hold v' p, if_neg fun h => hv' h.2, Nat.add_zero]
  exact hs p

omit [DecidableEq AccountId] in
theorem Resolved.logged {s s' : State AccountId Proposal (List Proposal × ρ)} {key : Key Proposal}
    (h : Resolved R.logged s s' key) (hs : Logged s) : Logged s' := by
  obtain ⟨v, hv, hcomplete, -, hvotes, -, -, hrest⟩ := h
  have hinitiated := isComplete_eq_false_iff.mp hcomplete
  have hold : ∀ v₀, s.votes.lookup key = some v₀ → v₀.status ≠ .approved := by
    intro v₀ hv₀
    rw [hv] at hv₀
    rw [← Option.some.inj hv₀, hinitiated]
    decide
  have hstatus := tryToComplete_status v s.relayerThreshold s.relayerCount hinitiated
  intro p
  rw [hvotes, approvals_insert hold _ p, hstatus]
  split at hrest
  · next happroved =>
      rw [Runtime.log_of_dispatch hrest, List.count_append, List.count_singleton, hs p, happroved]
      simp [beq_iff_eq, and_true]
  · next happroved =>
      rw [hrest, if_neg fun h => happroved h.2, Nat.add_zero]
      exact hs p

theorem Step.logged {s s' : State AccountId Proposal (List Proposal × ρ)}
    (h : Step R.logged T s s') (hs : Logged s) : Logged s' := by
  cases h with
  | kept hvotes hrest =>
      intro p
      rw [hvotes]
      rcases hrest with hrest | ⟨c, hc⟩
      · rw [hrest]
        exact hs p
      · rw [Runtime.log_of_apply hc]
        exact hs p
  | resolved key h => exact h.logged hs
  | committed key who inFavour v' _ hc h =>
      subst h
      exact hs.withVote (Committed.not_approved hc) (Committed.status_ne hc)
  | voted key who inFavour v' _ hc h =>
      exact h.logged (hs.withVote (Committed.not_approved hc) (Committed.status_ne hc))

end Logged

/-! ## Over every run -/

section Runs

variable (R : Runtime Proposal ρ κ) (T : Config AccountId)

def Fresh (s : State AccountId Proposal (List Proposal × ρ)) : Prop := s.votes = ∅ ∧ s.rest.1 = []

theorem entry_preserves_votes (c : Entry AccountId Proposal κ) :
    Preserves (fun s => VotesWf s.votes ∧ Logged s) (Entry.apply R.logged T c) :=
  preserves_of_wp fun s hs => Wp.mono (entry_step R.logged T c s)
    (fun _ _ h => ⟨h.votesWf hs.1, h.logged hs.2⟩) (fun _ _ h => ⟨h.votesWf hs.1, h.logged hs.2⟩)

/-- **Proposal safety.** In every state reachable from a fresh chain, by
any calls of the bridge and of the rest of the runtime in any order, the
votes are duplicate-free, and each call was dispatched as many times as
there are approved votes with it; and every call from such a state is a
safe step. -/
theorem proposals_safe {s s' : State AccountId Proposal (List Proposal × ρ)}
    {c : Entry AccountId Proposal κ} (hs : Reachable (Entry.apply R.logged T) Fresh s)
    (hstep : Leaves (Entry.apply R.logged T c) s s') :
    VotesWf s.votes ∧ Logged s ∧ SafeStep R.logged s s' := by
  have hinv : VotesWf s.votes ∧ Logged s := by
    refine hs.invariant (fun s₀ ⟨hvotes, hlog⟩ => ⟨fun k v hk => ?_, fun p => ?_⟩)
      (entry_preserves_votes R T)
    · rw [hvotes] at hk
      cases hk
    · rw [hlog, hvotes]
      rfl
  have hstep' := Leaves.of_wp (entry_step R.logged T c s) hstep
  exact ⟨hinv.1, hinv.2, safeStep_of_keyStep hstep'.keyStep⟩

/-- A runtime whose state is the block number: proposals do nothing, and
its one other call ends the block. -/
def bridgeRuntime : Runtime ℕ ℕ Unit where
  blockNumber n := n
  dispatch _ := pure ()
  apply _ := modify (· + 1)

/-- The constants of the node runtime: root administers, chain 5, proposals
live 50 blocks. -/
def bridgeConfig : Config ℕ where
  adminOrigin _ := false
  chainId := 5
  proposalLifetime := 50

/-- Account 1 is the only relayer, chain 0 is whitelisted, every resource
exists, at block 1. -/
def bridgeState : State ℕ ℕ (List ℕ × ℕ) :=
  { State.init ([], 1) with
    relayers := fun a => decide (a = 1)
    relayerCount := 1
    chainNonces := fun c => if c = 0 then some 0 else none
    resources := fun _ => some [] }

example : (after ((Entry.apply bridgeRuntime.logged bridgeConfig
    (.acknowledgeProposal (.signed 1) 0 0 [] 7)).run bridgeState)).rest.1 = [7] := rfl

/-- Account 1 acknowledges proposal 7 of chain 0, which is then approved
and dispatched. -/
theorem proposals_safe_after_acknowledge :
    VotesWf bridgeState.votes ∧ Logged bridgeState ∧
      SafeStep bridgeRuntime.logged bridgeState
        (after ((Entry.apply bridgeRuntime.logged bridgeConfig
          (.acknowledgeProposal (.signed 1) 0 0 [] 7)).run bridgeState)) :=
  proposals_safe bridgeRuntime bridgeConfig (c := .acknowledgeProposal (.signed 1) 0 0 [] 7)
    (Reachable.start ⟨rfl, rfl⟩) (.inl ⟨(), rfl⟩)

end Runs

end SocialNetwork.Chainbridge
