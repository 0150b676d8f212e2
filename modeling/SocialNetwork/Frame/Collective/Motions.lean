import SocialNetwork.Frame.Collective.Pallet
import SocialNetwork.Lib.Total

/-!
# The motions of a collective

Every state reached from genesis by the dispatchables of the collective and
by `change_members_sorted` is `Consistent`: `Proposals`, `ProposalOf` and
`Voting` name the same motions, each once and at most `MaxProposals` of
them, and the ayes and nays of each motion are disjoint, duplicate-free
lists of current members. So `close` counts no more votes than seats, and
never panics on the abstentions; and a proposal is dispatched with the
origin `Members(threshold, seats)` only when its ayes, or after the end its
ayes with the abstentions counted by the default vote, reach the threshold.

The rules are total (`Wpt`): each call of a consistent state returns or
fails, with no panic, and leaves a consistent state.
-/

namespace SocialNetwork.Collective

open Dispatch

variable {AccountId Proposal Hash E : Type} [DecidableEq Hash]

/-! ## The votes of a motion -/

/-- The votes of a motion come from distinct members, none on both sides. -/
structure Votes.WellFormed (members : List AccountId) (votes : Votes AccountId) : Prop where
  ayes_nodup : votes.ayes.Nodup
  nays_nodup : votes.nays.Nodup
  disjoint : ∀ a ∈ votes.ayes, a ∉ votes.nays
  ayes_mem : ∀ a ∈ votes.ayes, a ∈ members
  nays_mem : ∀ a ∈ votes.nays, a ∈ members

variable {members : List AccountId} {votes : Votes AccountId}

theorem Votes.WellFormed.length_le (h : votes.WellFormed members) :
    votes.ayes.length + votes.nays.length ≤ members.length := by
  have hnodup : (votes.ayes ++ votes.nays).Nodup :=
    List.nodup_append.2 ⟨h.ayes_nodup, h.nays_nodup, fun a ha b hb hab => h.disjoint a ha (hab ▸ hb)⟩
  have hsub : votes.ayes ++ votes.nays ⊆ members := by
    intro a ha
    rcases List.mem_append.1 ha with ha | ha
    · exact h.ayes_mem a ha
    · exact h.nays_mem a ha
  rw [← List.length_append]
  exact (hnodup.subperm hsub).length_le

/-! ## The invariant -/

variable (T : Config AccountId Proposal Hash E)

/-- `Proposals`, `ProposalOf` and `Voting` name the same motions, each once
and at most `MaxProposals` of them, and the votes of each motion are well
formed for the current members. -/
structure Consistent (s : State AccountId Proposal Hash E) : Prop where
  proposalOf : ∀ h, h ∈ s.proposals ↔ h ∈ s.proposalOf
  voting : ∀ h, h ∈ s.proposals ↔ h ∈ s.voting
  nodup : s.proposals.Nodup
  bound : s.proposals.length ≤ T.maxProposals
  votes : ∀ h votes, s.voting.lookup h = some votes → votes.WellFormed s.members

variable {T} {s s' : State AccountId Proposal Hash E} {α : Type}
  {Q : α → State AccountId Proposal Hash E → Prop} {R : DispatchError → State AccountId Proposal Hash E → Prop}

/-- A write of the events, the dispatches, `Prime`, `ProposalCount` or the
block number keeps the invariant. -/
theorem Consistent.of_eq (hs : Consistent T s) (hp : s'.proposals = s.proposals)
    (ho : s'.proposalOf = s.proposalOf) (hv : s'.voting = s.voting) (hm : s'.members = s.members) :
    Consistent T s' where
  proposalOf h := by rw [hp, ho]; exact hs.proposalOf h
  voting h := by rw [hp, hv]; exact hs.voting h
  nodup := hp ▸ hs.nodup
  bound := hp ▸ hs.bound
  votes h votes hh := hm ▸ hs.votes h votes (hv ▸ hh)

theorem Consistent.removeProposal (hs : Consistent T s) (h : Hash) :
    Consistent T
      { s with
        proposalOf := s.proposalOf.erase h
        voting := s.voting.erase h
        proposals := s.proposals.filter (· ≠ h) } where
  proposalOf x := by simp [hs.proposalOf x, and_comm]
  voting x := by simp [hs.voting x, and_comm]
  nodup := hs.nodup.filter _
  bound := (List.length_filter_le _ _).trans hs.bound
  votes x votes hx := by
    by_cases hxh : x = h
    · subst hxh
      simp at hx
    · rw [Finmap.lookup_erase_ne hxh] at hx
      exact hs.votes x votes hx

/-- A new motion, not named before and within `MaxProposals`, with votes
well formed, keeps the invariant. -/
theorem Consistent.addMotion (hs : Consistent T s) {h : Hash} {proposal : Proposal}
    {votes : Votes AccountId} (hnew : h ∉ s.proposalOf)
    (hbound : (s.proposals ++ [h]).length ≤ T.maxProposals) (hvotes : votes.WellFormed s.members) :
    Consistent T
      { s with
        proposals := s.proposals ++ [h]
        proposalOf := s.proposalOf.insert h proposal
        voting := s.voting.insert h votes } where
  proposalOf x := by simp [hs.proposalOf x, or_comm]
  voting x := by simp [hs.voting x, or_comm]
  nodup := by
    rw [List.nodup_append]
    refine ⟨hs.nodup, List.nodup_singleton h, fun a ha b hb hab => ?_⟩
    rw [List.mem_singleton] at hb
    subst hb hab
    exact hnew ((hs.proposalOf a).1 ha)
  bound := hbound
  votes x votes' hx := by
    by_cases hxh : x = h
    · subst hxh
      rw [Finmap.lookup_insert, Option.some.injEq] at hx
      exact hx ▸ hvotes
    · rw [Finmap.lookup_insert_of_ne _ hxh] at hx
      exact hs.votes x votes' hx

theorem Consistent.setVotes (hs : Consistent T s) {h : Hash} {votes : Votes AccountId}
    (hh : h ∈ s.voting) (hvotes : votes.WellFormed s.members) :
    Consistent T { s with voting := s.voting.insert h votes } where
  proposalOf := hs.proposalOf
  voting x := by
    rw [hs.voting x, Finmap.mem_insert]
    constructor
    · exact Or.inr
    · rintro (rfl | hx)
      · exact hh
      · exact hx
  nodup := hs.nodup
  bound := hs.bound
  votes x votes' hx := by
    by_cases hxh : x = h
    · subst hxh
      rw [Finmap.lookup_insert, Option.some.injEq] at hx
      exact hx ▸ hvotes
    · rw [Finmap.lookup_insert_of_ne _ hxh] at hx
      exact hs.votes x votes' hx

/-! ## The calls that do not read the members -/

@[simp] theorem wpt_ensureSigned (origin : Origin AccountId) {Q : AccountId → State AccountId Proposal Hash E → Prop} :
    Wpt (ensureSigned origin) Q R s = match origin with
      | .signed who => Q who s
      | _ => R .badOrigin s := by
  cases origin <;> rfl

@[simp] theorem wpt_ensureRoot (origin : Origin AccountId) {Q : Unit → State AccountId Proposal Hash E → Prop} :
    Wpt (ensureRoot origin) Q R s = match origin with
      | .root => Q () s
      | _ => R .badOrigin s := by
  cases origin <;> rfl

@[simp] theorem wpt_depositEvent (e : Event AccountId Hash E) {Q : Unit → State AccountId Proposal Hash E → Prop} :
    Wpt (depositEvent e) Q R s = Q () { s with events := s.events ++ [e] } := rfl

@[simp] theorem wpt_dispatchProposal (proposal : Proposal) (origin : RawOrigin AccountId)
    {Q : Except E Unit → State AccountId Proposal Hash E → Prop} :
    Wpt (dispatchProposal T proposal origin) Q R s =
      Q (T.dispatch proposal origin) { s with dispatched := s.dispatched ++ [(proposal, origin)] } := rfl

theorem wpt_removeProposal (h : Hash) {Q : Unit → State AccountId Proposal Hash E → Prop} :
    Wpt (removeProposal h) Q R s =
      Q () { s with
        proposalOf := s.proposalOf.erase h
        voting := s.voting.erase h
        proposals := s.proposals.filter (· ≠ h) } := rfl

/-- `validate_and_get_proposal` returns the stored proposal, or fails
with no write. -/
theorem wpt_validateAndGetProposal {h : Hash} {lengthBound weightBound : ℕ} {Q : Proposal → State AccountId Proposal Hash E → Prop}
    (hQ : ∀ proposal, s.proposalOf.lookup h = some proposal → Q proposal s) (hR : ∀ e, R e s) :
    Wpt (validateAndGetProposal T h lengthBound weightBound) Q R s := by
  unfold validateAndGetProposal
  cases hp : s.proposalOf.lookup h with
  | none => simp [hp, hR]
  | some proposal =>
    simp only [wpt_bind, wpt_get, hp, Option.map_some, wpt_okOr_some, wpt_ensure]
    split_ifs
    · exact hQ proposal hp
    · exact hR _
    · exact hR _

theorem wpt_disapproveProposal (hs : Consistent T s) (origin : Origin AccountId) (h : Hash) :
    Wpt (disapproveProposal origin h) (fun _ => Consistent T) (fun _ => Consistent T) s := by
  unfold disapproveProposal doDisapproveProposal
  simp only [wpt_bind, wpt_ensureRoot]
  cases origin with
  | root =>
    simp only [wpt_depositEvent, wpt_removeProposal]
    exact (hs.removeProposal h).of_eq rfl rfl rfl rfl
  | signed | none => exact hs

theorem consistent_genesis {s : State AccountId Proposal Hash E} (hs : Genesis s) : Consistent T s := by
  obtain ⟨members, hrun⟩ := hs
  have hnone : s.proposals = [] ∧ s.proposalOf = ∅ ∧ s.voting = ∅ := by
    by_cases hm : members.isEmpty
    · simp [initializeMembers, hm] at hrun
      subst hrun
      exact ⟨rfl, rfl, rfl⟩
    · simp [initializeMembers, hm, State.empty] at hrun
      subst hrun
      exact ⟨rfl, rfl, rfl⟩
  obtain ⟨hp, ho, hv⟩ := hnone
  refine ⟨fun h => ?_, fun h => ?_, hp ▸ List.nodup_nil, by simp [hp], fun h votes hh => ?_⟩
  · simp [hp, ho, Finmap.notMem_empty]
  · simp [hp, hv, Finmap.notMem_empty]
  · simp [hv] at hh

section Members

/-! ## The calls that read the members

`Members` is sorted and searched with the order of the accounts. -/

variable [LinearOrder AccountId]

/-! ### The diff of the members -/

theorem subset_diffLoop_outgoing (incoming outgoing olds news : List AccountId) :
    outgoing ⊆ (diffLoop incoming outgoing olds news).2 := by
  fun_induction diffLoop incoming outgoing olds news with
  | case1 => exact List.Subset.refl _
  | case2 => assumption
  | case3 _ _ _ _ _ _ _ _ ih => exact List.Subset.trans (List.subset_append_left _ _) ih
  | case4 _ _ _ _ _ _ _ _ ih => exact ih
  | case5 _ _ _ _ ih => exact List.Subset.trans (List.subset_append_left _ _) ih
  | case6 _ _ _ _ ih => exact ih

/-- Each old member the loop meets is outgoing, or met a new member equal
to it. -/
theorem mem_diffLoop_outgoing {x : AccountId} (incoming outgoing olds news : List AccountId)
    (hx : x ∈ olds) : x ∈ (diffLoop incoming outgoing olds news).2 ∨ x ∈ news := by
  fun_induction diffLoop incoming outgoing olds news with
  | case1 => simp at hx
  | case2 incoming outgoing olds new news ih =>
    rcases List.mem_cons.1 hx with rfl | hx
    · exact .inr List.mem_cons_self
    · exact (ih hx).imp_right (List.mem_cons_of_mem _)
  | case3 incoming outgoing old olds new news _ _ ih =>
    rcases List.mem_cons.1 hx with rfl | hx
    · exact .inl (subset_diffLoop_outgoing _ _ _ _ (List.mem_append_right _ (List.mem_singleton_self _)))
    · exact ih hx
  | case4 incoming outgoing old olds new news _ _ ih =>
    exact (ih hx).imp_right (List.mem_cons_of_mem _)
  | case5 incoming outgoing old olds ih =>
    rcases List.mem_cons.1 hx with rfl | hx
    · exact .inl (subset_diffLoop_outgoing _ _ _ _ (List.mem_append_right _ (List.mem_singleton_self _)))
    · exact ih hx
  | case6 => simp at hx

theorem mem_of_not_mem_outgoing {x : AccountId} {newMembers oldMembers : List AccountId}
    (hx : x ∈ oldMembers) (hout : x ∉ (computeMembersDiffSorted newMembers oldMembers).2) :
    x ∈ newMembers :=
  (mem_diffLoop_outgoing [] [] oldMembers newMembers hx).resolve_left hout

/-- Taking the outgoing members' votes out leaves votes of the members
that stay. -/
theorem Votes.WellFormed.without {old new outgoing : List AccountId} (h : votes.WellFormed old)
    (hstay : ∀ a ∈ old, a ∉ outgoing → a ∈ new) : (votes.without outgoing).WellFormed new where
  ayes_nodup := h.ayes_nodup.filter _
  nays_nodup := h.nays_nodup.filter _
  disjoint a ha hb := h.disjoint a (List.mem_of_mem_filter ha) (List.mem_of_mem_filter hb)
  ayes_mem a ha := by
    rw [Votes.without, List.mem_filter, decide_eq_true_iff] at ha
    exact hstay a (h.ayes_mem a ha.1) ha.2
  nays_mem a ha := by
    rw [Votes.without, List.mem_filter, decide_eq_true_iff] at ha
    exact hstay a (h.nays_mem a ha.1) ha.2

@[simp] theorem Votes.without_without (outgoing : List AccountId) :
    (votes.without outgoing).without outgoing = votes.without outgoing := by
  simp [Votes.without, List.filter_filter]

/-- The loop of `change_members_sorted` filters the votes of each motion it
goes through, once however often it meets it. -/
theorem lookup_foldl_withoutOutgoing (outgoing : List AccountId) (h : Hash) :
    ∀ (hs : List Hash) (voting : StorageMap Hash (Votes AccountId)),
      (hs.foldl (withoutOutgoing outgoing) voting).lookup h =
        if h ∈ hs then (voting.lookup h).map (·.without outgoing) else voting.lookup h := by
  intro hs
  induction hs with
  | nil => intro voting; rfl
  | cons h' hs ih =>
    intro voting
    rw [List.foldl_cons, ih]
    -- the turn at `h'` filters its votes
    have hturn : (withoutOutgoing outgoing voting h').lookup h =
        if h = h' then (voting.lookup h).map (·.without outgoing) else voting.lookup h := by
      unfold withoutOutgoing
      by_cases hh : h = h'
      · subst hh
        cases hv : voting.lookup h with
        | none => simp [hv]
        | some v => simp
      · cases voting.lookup h' with
        | none => simp [hh]
        | some v => simp [hh, Finmap.lookup_insert_of_ne]
    rw [hturn]
    by_cases hh : h = h'
    · subst hh
      by_cases hin : h ∈ hs
      · simp [hin, Option.map_map, Function.comp_def]
      · simp [hin]
    · simp [hh]

/-- New members keep the invariant when the votes of the outgoing ones are
taken out of every motion and every other old member stays. -/
theorem Consistent.changeMembers (hs : Consistent T s) {outgoing new : List AccountId}
    (hstay : ∀ a ∈ s.members, a ∉ outgoing → a ∈ new) :
    Consistent T { s with voting := s.proposals.foldl (withoutOutgoing outgoing) s.voting, members := new } where
  proposalOf := hs.proposalOf
  voting x := by
    rw [hs.voting x, Finmap.mem_iff, Finmap.mem_iff, lookup_foldl_withoutOutgoing]
    split_ifs <;> simp
  nodup := hs.nodup
  bound := hs.bound
  votes x votes hx := by
    rw [lookup_foldl_withoutOutgoing] at hx
    split_ifs at hx with hin
    · obtain ⟨votes₀, h₀, rfl⟩ := Option.map_eq_some_iff.1 hx
      exact (hs.votes x votes₀ h₀).without hstay
    · -- every motion is in `Proposals`
      exact absurd ((hs.voting x).2 (Finmap.mem_iff.2 ⟨votes, hx⟩)) hin

/-- `change_members_sorted` keeps the invariant when every old member
that is not outgoing is a new one. -/
theorem wpt_changeMembersSorted (hs : Consistent T s) {incoming outgoing new : List AccountId}
    (hstay : ∀ a ∈ s.members, a ∉ outgoing → a ∈ new) :
    Wpt (changeMembersSorted incoming outgoing new) (fun _ => Consistent T) R s := by
  simp only [changeMembersSorted, wpt_bind, wpt_modify]
  have hsorted : ∀ a ∈ s.members, a ∉ outgoing.insertionSort (· ≤ ·) → a ∈ new := fun a ha hout =>
    hstay a ha fun h => hout ((List.perm_insertionSort _ _).mem_iff.2 h)
  exact (hs.changeMembers hsorted).of_eq rfl rfl rfl rfl

theorem wpt_setMembers (hs : Consistent T s) (origin : Origin AccountId) (newMembers : List AccountId)
    (prime : Option AccountId) (oldCount : ℕ) :
    Wpt (setMembers origin newMembers prime oldCount) (fun _ => Consistent T) (fun _ => Consistent T) s := by
  unfold setMembers setMembersSorted
  simp only [wpt_bind, wpt_ensureRoot]
  cases origin with
  | root =>
    simp only [wpt_get]
    rcases hdiff : computeMembersDiffSorted (newMembers.insertionSort (· ≤ ·)) s.members with ⟨incoming, outgoing⟩
    have hstay : ∀ a ∈ s.members, a ∉ outgoing → a ∈ newMembers.insertionSort (· ≤ ·) := fun a ha hout =>
      mem_of_not_mem_outgoing ha (by rw [hdiff]; exact hout)
    refine Wpt.mono (wpt_changeMembersSorted hs hstay) (fun _ s' hs' => ?_) (fun _ _ h => h)
    rw [wpt_modify]
    exact hs'.of_eq rfl rfl rfl rfl
  | signed | none => exact hs

theorem wpt_execute (hs : Consistent T s) (origin : Origin AccountId) (proposal : Proposal)
    (lengthBound : ℕ) :
    Wpt (execute T origin proposal lengthBound) (fun _ => Consistent T) (fun _ => Consistent T) s := by
  unfold execute
  simp only [wpt_bind, wpt_ensureSigned]
  cases origin with
  | signed who =>
    simp only [wpt_get, wpt_ensure, wpt_dispatchProposal, wpt_depositEvent]
    split_ifs
    · exact hs.of_eq rfl rfl rfl rfl
    all_goals exact hs
  | root | none => exact hs

theorem wpt_propose (hs : Consistent T s) (origin : Origin AccountId) (threshold : ℕ) (proposal : Proposal)
    (lengthBound : ℕ) :
    Wpt (propose T origin threshold proposal lengthBound) (fun _ => Consistent T) (fun _ => Consistent T) s := by
  unfold propose
  simp only [wpt_bind, wpt_ensureSigned]
  cases origin with
  | signed who =>
    simp only [wpt_bind, wpt_get, wpt_ensure, wpt_depositEvent, wpt_dispatchProposal, wpt_ite, wpt_modify]
    split_ifs with hmem hlen hnew hthreshold hbound
    · -- dispatched at once: only the logs change
      exact hs.of_eq rfl rfl rfl rfl
    · -- a new motion, with the proposer's aye
      have hvotes : (⟨s.proposalCount, threshold, [who], [], s.blockNumber + T.motionDuration⟩ :
          Votes AccountId).WellFormed s.members :=
        ⟨List.nodup_singleton who, List.nodup_nil, by simp, by simpa using hmem, by simp⟩
      exact (hs.addMotion (Finmap.lookup_eq_none.1 hnew) hbound hvotes).of_eq rfl rfl rfl rfl
    all_goals exact hs
  | root | none => exact hs

/-! ### Votes -/

/-- The other side of a vote after `swap_remove` of the voter's vote, if
there is one: duplicate-free, without the voter, within the side before. -/
theorem takeOff_spec (who : AccountId) {theirs : List AccountId} (hnodup : theirs.Nodup) :
    (takeOff who theirs).Nodup ∧ who ∉ takeOff who theirs ∧ takeOff who theirs ⊆ theirs := by
  unfold takeOff
  cases hpos : theirs.findIdx? (· == who) with
  | none =>
    have hwho : who ∉ theirs := fun h => by
      have := List.findIdx?_eq_none_iff.1 hpos who h
      simp at this
    exact ⟨hnodup, hwho, List.Subset.refl _⟩
  | some pos =>
    obtain ⟨hlt, hfound, -⟩ := List.findIdx?_eq_some_iff_getElem.1 hpos
    have hwho : theirs[pos] = who := by simpa using hfound
    have hperm : (Fork.swapRemove theirs pos).Perm (theirs.erase who) := by
      rw [← hwho, hnodup.erase_getElem]
      exact Fork.swapRemove_perm hlt
    refine ⟨hperm.nodup_iff.2 (hnodup.erase who), fun h => ?_, fun a ha => ?_⟩
    · exact (hnodup.not_mem_erase) (hperm.mem_iff.1 h)
    · exact List.mem_of_mem_erase (hperm.mem_iff.1 ha)

/-- The voter added on one side, which it was not on, and taken off the
other: the two sides stay duplicate-free, apart, and within the members. -/
theorem switch_wellFormed {who : AccountId} {mine theirs : List AccountId}
    (hmine : mine.Nodup) (htheirs : theirs.Nodup) (hdisjoint : ∀ a ∈ mine, a ∉ theirs)
    (hmem : ∀ a ∈ mine, a ∈ members) (hmem' : ∀ a ∈ theirs, a ∈ members) (hwho : who ∈ members)
    (hnew : who ∉ mine) :
    (mine ++ [who]).Nodup ∧ (takeOff who theirs).Nodup ∧ (∀ a ∈ mine ++ [who], a ∉ takeOff who theirs) ∧
      (∀ a ∈ mine ++ [who], a ∈ members) ∧ (∀ a ∈ takeOff who theirs, a ∈ members) := by
  obtain ⟨hnodup, hoff, hsub⟩ := takeOff_spec who htheirs
  refine ⟨?_, hnodup, fun a ha h => ?_, fun a ha => ?_, fun a ha => hmem' a (hsub ha)⟩
  · exact List.nodup_append.2 ⟨hmine, List.nodup_singleton who, fun a ha b hb hab => by
      rw [List.mem_singleton] at hb
      exact hnew (hb ▸ hab ▸ ha)⟩
  · rcases List.mem_append.1 ha with ha | ha
    · exact hdisjoint a ha (hsub h)
    · rw [List.mem_singleton] at ha
      exact hoff (ha ▸ h)
  · rcases List.mem_append.1 ha with ha | ha
    · exact hmem a ha
    · rw [List.mem_singleton] at ha
      exact ha ▸ hwho

theorem Votes.WellFormed.aye {who : AccountId} (h : votes.WellFormed members) (hwho : who ∈ members)
    (hnew : who ∉ votes.ayes) :
    ({ votes with ayes := votes.ayes ++ [who], nays := takeOff who votes.nays } : Votes AccountId).WellFormed
      members := by
  obtain ⟨h₁, h₂, h₃, h₄, h₅⟩ :=
    switch_wellFormed h.ayes_nodup h.nays_nodup h.disjoint h.ayes_mem h.nays_mem hwho hnew
  exact ⟨h₁, h₂, h₃, h₄, h₅⟩

theorem Votes.WellFormed.nay {who : AccountId} (h : votes.WellFormed members) (hwho : who ∈ members)
    (hnew : who ∉ votes.nays) :
    ({ votes with ayes := takeOff who votes.ayes, nays := votes.nays ++ [who] } : Votes AccountId).WellFormed
      members := by
  obtain ⟨h₁, h₂, h₃, h₄, h₅⟩ := switch_wellFormed h.nays_nodup h.ayes_nodup
    (fun a ha hb => h.disjoint a hb ha) h.nays_mem h.ayes_mem hwho hnew
  exact ⟨h₂, h₁, fun a ha hb => h₃ a hb ha, h₅, h₄⟩

theorem isSome_findIdx?_beq {who : AccountId} {l : List AccountId} :
    (l.findIdx? (· == who)).isSome ↔ who ∈ l := by
  simp [List.findIdx?_isSome, List.any_eq_true]

theorem wpt_switchVote {who : AccountId} {mine theirs : List AccountId}
    {Q : List AccountId × List AccountId → State AccountId Proposal Hash E → Prop} :
    Wpt (switchVote who mine theirs) Q R s =
      if who ∈ mine then R (.module .duplicateVote) s else Q (mine ++ [who], takeOff who theirs) s := by
  by_cases h : who ∈ mine
  · have hsome : (mine.findIdx? (· == who)).isSome = true := isSome_findIdx?_beq.2 h
    simp only [switchVote, hsome, if_pos h]
    rfl
  · have hnone : (mine.findIdx? (· == who)).isSome = false := by
      rw [Bool.eq_false_iff]
      exact fun h' => h (isSome_findIdx?_beq.1 h')
    simp only [switchVote, hnone, if_neg h]
    rfl

theorem wpt_vote (hs : Consistent T s) (origin : Origin AccountId) (proposal : Hash) (index : ℕ)
    (approve : Bool) :
    Wpt (vote origin proposal index approve) (fun _ => Consistent T) (fun _ => Consistent T) s := by
  unfold vote
  simp only [wpt_bind, wpt_ensureSigned]
  cases origin with
  | signed who =>
    simp only [wpt_get, wpt_ensure]
    by_cases hmem : who ∈ s.members
    · rw [if_pos hmem]
      cases hv : s.voting.lookup proposal with
      | none => exact hs
      | some votes =>
        have hwf := hs.votes proposal votes hv
        have hin : proposal ∈ s.voting := Finmap.mem_iff.2 ⟨votes, hv⟩
        simp only [wpt_okOr_some]
        by_cases hindex : votes.index = index
        · rw [if_pos hindex]
          cases approve with
          | false =>
            simp only [Bool.false_eq_true, ↓reduceIte, wpt_bind, wpt_switchVote]
            by_cases hdup : who ∈ votes.nays
            · rw [if_pos hdup]
              exact hs
            · rw [if_neg hdup]
              simp only [wpt_pure, wpt_depositEvent, wpt_modify]
              exact (hs.setVotes hin (hwf.nay hmem hdup)).of_eq rfl rfl rfl rfl
          | true =>
            simp only [↓reduceIte, wpt_bind, wpt_switchVote]
            by_cases hdup : who ∈ votes.ayes
            · rw [if_pos hdup]
              exact hs
            · rw [if_neg hdup]
              simp only [wpt_pure, wpt_depositEvent, wpt_modify]
              exact (hs.setVotes hin (hwf.aye hmem hdup)).of_eq rfl rfl rfl rfl
        · rw [if_neg hindex]
          exact hs
    · rw [if_neg hmem]
      exact hs
  | root | none => exact hs

/-! ### Close -/

/-- What `close` of the motion `h` may leave from `s`: a consistent state,
and no dispatch, or one of the motion's proposal with the origin
`Members(threshold, seats)`, when its ayes reach the threshold or, after
the end, when the default vote is aye and the ayes with the abstentions
reach it. -/
def CloseOutcome (T : Config AccountId Proposal Hash E) (s : State AccountId Proposal Hash E) (h : Hash)
    (s' : State AccountId Proposal Hash E) : Prop :=
  Consistent T s' ∧ (s'.dispatched = s.dispatched ∨
    ∃ votes proposal, s.voting.lookup h = some votes ∧ s.proposalOf.lookup h = some proposal ∧
      s'.dispatched = s.dispatched ++ [(proposal, .members votes.threshold s.members.length)] ∧
      (votes.threshold ≤ votes.ayes.length ∨
        (votes.ends ≤ s.blockNumber ∧
          T.defaultVote (s.prime.map fun who => votes.ayes.any (· == who)) votes.ayes.length
            votes.nays.length s.members.length = true ∧
          votes.threshold ≤ votes.ayes.length + (s.members.length - (votes.ayes.length + votes.nays.length)))))

/-- The approval of a motion whose votes meet the condition of
`CloseOutcome`: its proposal is dispatched, and the motion removed. -/
theorem closeOutcome_approve (hs : Consistent T s) {h : Hash} {votes : Votes AccountId}
    (hv : s.voting.lookup h = some votes)
    (hcond : votes.threshold ≤ votes.ayes.length ∨
      (votes.ends ≤ s.blockNumber ∧
        T.defaultVote (s.prime.map fun who => votes.ayes.any (· == who)) votes.ayes.length
          votes.nays.length s.members.length = true ∧
        votes.threshold ≤ votes.ayes.length + (s.members.length - (votes.ayes.length + votes.nays.length))))
    (lengthBound weightBound : ℕ) (e : Event AccountId Hash E) :
    Wpt (validateAndGetProposal T h lengthBound weightBound)
      (fun p s' => Wpt (depositEvent e)
        (fun _ s'' => Wpt (doApproveProposal T s.members.length votes h p) (fun _ => CloseOutcome T s h)
          (fun _ => CloseOutcome T s h) s'')
        (fun _ => CloseOutcome T s h) s')
      (fun _ => CloseOutcome T s h) s := by
  refine wpt_validateAndGetProposal (fun proposal hp => ?_) (fun _ => ⟨hs, .inl rfl⟩)
  simp only [wpt_depositEvent, doApproveProposal, wpt_bind, wpt_dispatchProposal, wpt_removeProposal]
  exact ⟨(hs.removeProposal h).of_eq rfl rfl rfl rfl, .inr ⟨votes, proposal, hv, hp, rfl, hcond⟩⟩

theorem closeOutcome_disapprove (hs : Consistent T s) (h : Hash) (e : Event AccountId Hash E) :
    Wpt (depositEvent e)
      (fun _ s' => Wpt (doDisapproveProposal h) (fun _ => CloseOutcome T s h) (fun _ => CloseOutcome T s h) s')
      (fun _ => CloseOutcome T s h) s := by
  simp only [wpt_depositEvent, doDisapproveProposal, wpt_bind, wpt_removeProposal]
  exact ⟨(hs.removeProposal h).of_eq rfl rfl rfl rfl, .inl rfl⟩

theorem wpt_close (hs : Consistent T s) (origin : Origin AccountId) (h : Hash) (index weightBound lengthBound : ℕ) :
    Wpt (close T origin h index weightBound lengthBound) (fun _ => CloseOutcome T s h)
      (fun _ => CloseOutcome T s h) s := by
  have hkeep : CloseOutcome T s h s := ⟨hs, .inl rfl⟩
  unfold close
  simp only [wpt_bind, wpt_ensureSigned]
  cases origin with
  | signed who =>
    simp only [wpt_get]
    cases hv : s.voting.lookup h with
    | none => exact hkeep
    | some votes =>
      simp only [wpt_okOr_some, wpt_ensure]
      by_cases hindex : votes.index = index
      · rw [if_pos hindex]
        have hle := (hs.votes h votes hv).length_le
        simp only [wpt_bind, wpt_get, wpt_ite]
        by_cases happroved : votes.threshold ≤ votes.ayes.length
        · -- early approval
          rw [if_pos happroved]
          exact closeOutcome_approve hs hv (.inl happroved) _ _ _
        rw [if_neg happroved]
        by_cases hdisapproved : s.members.length - votes.nays.length < votes.threshold
        · -- early disapproval
          rw [if_pos hdisapproved]
          exact closeOutcome_disapprove hs h _
        rw [if_neg hdisapproved, wpt_ensure]
        by_cases hends : votes.ends ≤ s.blockNumber
        · -- the abstentions: no more votes than seats
          rw [if_pos hends, Unsigned.checkedSub, if_pos hle, wpt_unwrap_some]
          by_cases hdefault : T.defaultVote (s.prime.map fun who => votes.ayes.any (· == who))
              votes.ayes.length votes.nays.length s.members.length = true
          · simp only [hdefault, if_true]
            split_ifs with hthreshold
            · exact closeOutcome_approve hs hv (.inr ⟨hends, hdefault, hthreshold⟩) _ _ _
            · exact closeOutcome_disapprove hs h _
          · -- the abstentions go to the nays: the ayes are short as before
            simp only [hdefault, Bool.false_eq_true, if_false, if_neg happroved]
            exact closeOutcome_disapprove hs h _
        · rw [if_neg hends]
          exact hkeep
      · rw [if_neg hindex]
        exact hkeep
  | root | none => exact hkeep

/-! ### Runs -/

/-- **Step.** Every command, from a consistent state, returns or fails
without a panic, and leaves a consistent state. -/
theorem wpt_apply (hs : Consistent T s) (c : Command AccountId Proposal Hash) :
    Wpt (c.apply T) (fun _ => Consistent T) (fun _ => Consistent T) s := by
  cases c with
  | setMembers origin newMembers prime oldCount => exact wpt_setMembers hs origin newMembers prime oldCount
  | execute origin proposal lengthBound => exact wpt_execute hs origin proposal lengthBound
  | propose origin threshold proposal lengthBound => exact wpt_propose hs origin threshold proposal lengthBound
  | vote origin proposal index approve => exact wpt_vote hs origin proposal index approve
  | close origin h index weightBound lengthBound =>
    exact (wpt_close hs origin h index weightBound lengthBound).mono (fun _ _ h => h.1) (fun _ _ h => h.1)
  | disapproveProposal origin h => exact wpt_disapproveProposal hs origin h
  | changeMembers new =>
    simp only [Command.apply, wpt_bind, wpt_get]
    refine wpt_changeMembersSorted hs fun a ha hout => ?_
    by_contra hnew
    exact hout (List.mem_filter.2 ⟨ha, decide_eq_true hnew⟩)
  | nextBlock => exact hs.of_eq rfl rfl rfl rfl

theorem consistent_of_reachable (hs : Reachable (Command.apply T) Genesis s) : Consistent T s :=
  Reachable.invariant (fun s' (h : Genesis s') => consistent_genesis h)
    (fun c => preserves_of_wp fun _ hs => (wpt_apply hs c).wp) hs

theorem motions_of_reachable {T : Config AccountId Proposal Hash E} {s : State AccountId Proposal Hash E}
    (hs : Reachable (Command.apply T) Genesis s) :
    (∀ h ∈ s.proposals, h ∈ s.proposalOf ∧ h ∈ s.voting) ∧ s.proposals.Nodup ∧
    s.proposals.length ≤ T.maxProposals ∧
    (∀ h votes, s.voting.lookup h = some votes →
      votes.ayes.Nodup ∧ votes.nays.Nodup ∧ (∀ a ∈ votes.ayes, a ∉ votes.nays) ∧
      (∀ a ∈ votes.ayes, a ∈ s.members) ∧ (∀ a ∈ votes.nays, a ∈ s.members) ∧
      votes.ayes.length + votes.nays.length ≤ s.members.length) ∧
    ∀ (origin : Origin AccountId) (h : Hash) (index weightBound lengthBound : ℕ),
      (∀ s', (close T origin h index weightBound lengthBound).run s ≠ .error .panic s') ∧
      ∀ s', Leaves (close T origin h index weightBound lengthBound) s s' → s'.dispatched ≠ s.dispatched →
        ∃ votes proposal, s.voting.lookup h = some votes ∧ s.proposalOf.lookup h = some proposal ∧
          s'.dispatched = s.dispatched ++ [(proposal, .members votes.threshold s.members.length)] ∧
          (votes.threshold ≤ votes.ayes.length ∨
            (votes.ends ≤ s.blockNumber ∧
              T.defaultVote (s.prime.map fun who => votes.ayes.any (· == who)) votes.ayes.length
                votes.nays.length s.members.length = true ∧
              votes.threshold ≤ votes.ayes.length + (s.members.length - (votes.ayes.length + votes.nays.length)))) := by
  have hcons := consistent_of_reachable hs
  refine ⟨fun h hh => ⟨(hcons.proposalOf h).1 hh, (hcons.voting h).1 hh⟩, hcons.nodup, hcons.bound,
    fun h votes hv => ?_, fun origin h index weightBound lengthBound => ?_⟩
  · have hwf := hcons.votes h votes hv
    exact ⟨hwf.ayes_nodup, hwf.nays_nodup, hwf.disjoint, hwf.ayes_mem, hwf.nays_mem, hwf.length_le⟩
  · have hclose := wpt_close hcons origin h index weightBound lengthBound
    refine ⟨hclose.not_panic, fun s' hl hne => ?_⟩
    exact ((Leaves.of_wp hclose.wp hl).2.resolve_left hne)

end Members

/-- A runtime for the examples: motions of ten blocks, two at most, the
default vote nay, proposals that are their own hashes, of length and
weight one, whose dispatch succeeds. -/
def exampleConfig : Config ℕ ℕ ℕ Unit :=
  ⟨10, 2, fun _ _ _ _ => false, id, fun _ => 1, fun _ => 1, fun _ _ => .ok ()⟩

/-- Members 1 and 2, after 1 has proposed 7 with threshold 2 and 2 has voted
aye: one open motion with both ayes. -/
def votedCollective : State ℕ ℕ ℕ Unit :=
  (Dispatch.execute (Command.apply exampleConfig) [Command.propose (.signed 1) 2 7 1, Command.vote (.signed 2) 7 0 true]
    { State.empty with members := [1, 2] }).getD State.empty

theorem motions_of_voted :
    votedCollective.proposals = [7] ∧ votedCollective.voting.lookup 7 = some ⟨0, 2, [1, 2], [], 10⟩ ∧
    Reachable (Command.apply exampleConfig) Genesis votedCollective ∧
    (∀ h ∈ votedCollective.proposals, h ∈ votedCollective.proposalOf ∧ h ∈ votedCollective.voting) ∧
    votedCollective.proposals.Nodup ∧
    votedCollective.proposals.length ≤ exampleConfig.maxProposals ∧
    (∀ h votes, votedCollective.voting.lookup h = some votes →
      votes.ayes.Nodup ∧ votes.nays.Nodup ∧ (∀ a ∈ votes.ayes, a ∉ votes.nays) ∧
      (∀ a ∈ votes.ayes, a ∈ votedCollective.members) ∧ (∀ a ∈ votes.nays, a ∈ votedCollective.members) ∧
      votes.ayes.length + votes.nays.length ≤ votedCollective.members.length) ∧
    ∀ (origin : Origin ℕ) (h : ℕ) (index weightBound lengthBound : ℕ),
      (∀ s', (close exampleConfig origin h index weightBound lengthBound).run votedCollective ≠ .error .panic s') ∧
      ∀ s', Leaves (close exampleConfig origin h index weightBound lengthBound) votedCollective s' →
          s'.dispatched ≠ votedCollective.dispatched →
        ∃ votes proposal, votedCollective.voting.lookup h = some votes ∧
          votedCollective.proposalOf.lookup h = some proposal ∧
          s'.dispatched = votedCollective.dispatched ++
            [(proposal, .members votes.threshold votedCollective.members.length)] ∧
          (votes.threshold ≤ votes.ayes.length ∨
            (votes.ends ≤ votedCollective.blockNumber ∧
              exampleConfig.defaultVote (votedCollective.prime.map fun who => votes.ayes.any (· == who))
                votes.ayes.length votes.nays.length votedCollective.members.length = true ∧
              votes.threshold ≤ votes.ayes.length +
                (votedCollective.members.length - (votes.ayes.length + votes.nays.length)))) :=
  have h0 : Reachable (Command.apply exampleConfig) Genesis ({ State.empty with members := [1, 2] } : State ℕ ℕ ℕ Unit) :=
    Reachable.start ⟨[1, 2], rfl⟩
  have hrun : Dispatch.execute (Command.apply exampleConfig)
      [Command.propose (.signed 1) 2 7 1, Command.vote (.signed 2) 7 0 true]
      ({ State.empty with members := [1, 2] } : State ℕ ℕ ℕ Unit) = some votedCollective := rfl
  have hs : Reachable (Command.apply exampleConfig) Genesis votedCollective := h0.execute hrun
  ⟨rfl, rfl, hs, motions_of_reachable hs⟩

end SocialNetwork.Collective
