import SocialNetwork.Client.FinalityGrandpa.Authorities
import SocialNetwork.Utils.ForkTree.Agreement

/-!
# Enacting standard changes

`enacts_standard_change` asks the tree of standard changes, without changing
it, whether finalizing a block enacts a change (`finalizes_any_with_descendent_if`
with effective number equal to the block's); `apply_standard_changes` then
finalizes the block in the tree (`finalize_with_descendent_if` with effective
number at most the block's). On a well-formed tree, with a client that answers
from the ancestry, a change the check reports is one the finalization enacts
(`applies_of_enacts`): the agreement of the two searches of the fork tree
(`changed_of_finalizesAny`) carried to the set.

A tree whose roots are not incomparable is another matter: there the search
over the roots can stop at a root the check passes over
(`enacts_but_apply_fails`).
-/

namespace SocialNetwork.Grandpa

open Dispatch Fork

variable {H N Id E : Type} [DecidableEq H] [LinearOrder N] [Add N] (A : Ancestry H N)

section Runs

variable {A} {hash : H} {number : N} {s : AuthoritySet H N Id}

omit [DecidableEq H] [Add N] in
theorem run_descendsIn (a b : H) :
    (descendsIn (ancestryOracle A) a b : SetCall H N Id E Bool).run s = .ok (A.desc a b) s := rfl

omit [DecidableEq H] in
/-- The loop that puts back the forced changes never fails when the client
does not, and writes only the forced changes. -/
theorem run_retainForcedChanges_ok (hash : H) (number : N) :
    ∀ (changes : List (PendingChange H N Id)) (s : AuthoritySet H N Id),
      ∃ forced, (retainForcedChanges (ancestryOracle (E := E) A) hash number changes).run s =
        .ok () { s with pendingForcedChanges := forced }
  | [], s => ⟨s.pendingForcedChanges, rfl⟩
  | change :: changes, s => by
      unfold retainForcedChanges
      dsimp only
      by_cases hgt : change.effectiveNumber > number
      · -- kept when the client places it on the finalized branch
        rw [if_pos hgt, run_bind_ok (run_descendsIn hash change.canonHash)]
        cases A.desc hash change.canonHash
        · exact run_retainForcedChanges_ok hash number changes s
        · rw [if_pos rfl, run_modify_bind]
          obtain ⟨forced, h⟩ := run_retainForcedChanges_ok hash number changes
            { s with pendingForcedChanges := s.pendingForcedChanges ++ [change] }
          exact ⟨forced, h⟩
      · rw [if_neg hgt, pure_bind]
        exact run_retainForcedChanges_ok hash number changes s

omit [DecidableEq H] [LinearOrder N] [Add N] in
theorem run_onStandard_ok {α : Type} {m : TreeCall H N (PendingChange H N Id) E α} {a : α}
    {t : ForkTree H N (PendingChange H N Id)} (h : m.run s.pendingStandardChanges = .ok a t) :
    (onStandard m).run s = .ok a { s with pendingStandardChanges := t } := by
  rw [onStandard, run_mapError, run_zoom, h]

omit [DecidableEq H] [LinearOrder N] [Add N] in
theorem run_onStandard_error {α : Type} {m : TreeCall H N (PendingChange H N Id) E α}
    {e : Fork.Error E} {t : ForkTree H N (PendingChange H N Id)}
    (h : m.run s.pendingStandardChanges = .error (.error e) t) :
    (onStandard m).run s = .error (.error (Error.ofForkTree e)) { s with pendingStandardChanges := t } := by
  rw [onStandard, run_mapError, run_zoom, h]

section Apply

variable {t' : ForkTree H N (PendingChange H N Id)}

theorem run_applyStandardChanges_unchanged
    (h : (finalizeWithDescendentIf (ancestryOracle (E := E) A) hash number
      fun change => decide (change.effectiveNumber ≤ number)).run s.pendingStandardChanges =
        .ok .unchanged t') :
    (applyStandardChanges (ancestryOracle (E := E) A) hash number).run s =
      .ok ⟨false, none⟩ { s with pendingStandardChanges := t' } := by
  unfold applyStandardChanges
  rw [run_bind_ok (run_onStandard_ok h)]
  rfl

/-- A root the tree finalizes is a change the set enacts, at the finalized
block: its authorities become the set's, under the next set id, and the set
that ends is recorded as ending at the block. -/
theorem run_applyStandardChanges_enacts {d : PendingChange H N Id}
    (h : (finalizeWithDescendentIf (ancestryOracle (E := E) A) hash number
      fun change => decide (change.effectiveNumber ≤ number)).run s.pendingStandardChanges =
        .ok (.changed (some d)) t') :
    ∃ forced, (applyStandardChanges (ancestryOracle (E := E) A) hash number).run s =
      .ok ⟨true, some (hash, number)⟩
        { s with currentAuthorities := d.nextAuthorities, setId := s.setId + 1,
                 pendingStandardChanges := t', pendingForcedChanges := forced,
                 authoritySetChanges := appendSetChange s.authoritySetChanges s.setId number } := by
  unfold applyStandardChanges
  rw [run_bind_ok (run_onStandard_ok h)]
  dsimp only
  rw [run_get_bind, run_set_bind]
  obtain ⟨forced, h₁⟩ := run_retainForcedChanges_ok (E := E) (A := A) hash number
    s.pendingForcedChanges { s with pendingStandardChanges := t', pendingForcedChanges := [] }
  rw [run_bind_ok h₁, run_modify_bind]
  exact ⟨forced, rfl⟩

/-- A finalization that only prunes the tree enacts nothing: the set keeps its
authorities, id and past sets. -/
theorem run_applyStandardChanges_pruned
    (h : (finalizeWithDescendentIf (ancestryOracle (E := E) A) hash number
      fun change => decide (change.effectiveNumber ≤ number)).run s.pendingStandardChanges =
        .ok (.changed none) t') :
    ∃ forced, (applyStandardChanges (ancestryOracle (E := E) A) hash number).run s =
      .ok ⟨true, none⟩ { s with pendingStandardChanges := t', pendingForcedChanges := forced } := by
  unfold applyStandardChanges
  rw [run_bind_ok (run_onStandard_ok h)]
  dsimp only
  rw [run_get_bind, run_set_bind]
  obtain ⟨forced, h₁⟩ := run_retainForcedChanges_ok (E := E) (A := A) hash number
    s.pendingForcedChanges { s with pendingStandardChanges := t', pendingForcedChanges := [] }
  rw [run_bind_ok h₁]
  exact ⟨forced, rfl⟩

/-- A finalization the tree refuses is refused by the set, with the tree as
the tree left it. -/
theorem run_applyStandardChanges_error {e : Fork.Error E}
    (h : (finalizeWithDescendentIf (ancestryOracle (E := E) A) hash number
      fun change => decide (change.effectiveNumber ≤ number)).run s.pendingStandardChanges =
        .error (.error e) t') :
    (applyStandardChanges (ancestryOracle (E := E) A) hash number).run s =
      .error (.error (Error.ofForkTree e)) { s with pendingStandardChanges := t' } := by
  unfold applyStandardChanges
  rw [run_bind_error (run_onStandard_error h)]

theorem run_applyStandardChanges_of_changed {d : PendingChange H N Id}
    (h : (finalizeWithDescendentIf (ancestryOracle (E := E) A) hash number
      fun change => decide (change.effectiveNumber ≤ number)).run s.pendingStandardChanges =
        .ok (.changed (some d)) t') :
    ∃ s', (applyStandardChanges (ancestryOracle (E := E) A) hash number).run s =
      .ok ⟨true, some (hash, number)⟩ s' := by
  obtain ⟨forced, hrun⟩ := run_applyStandardChanges_enacts h
  exact ⟨_, hrun⟩

end Apply

theorem finalizesAny_of_enacts
    (h : (enactsStandardChange (ancestryOracle (E := E) A) hash number).run s = .ok (some true) s) :
    (finalizesAnyWithDescendentIf (ancestryOracle (E := E) A) hash number
      fun change => decide (change.effectiveNumber = number)).run s.pendingStandardChanges =
        .ok (some true) s.pendingStandardChanges := by
  unfold enactsStandardChange at h
  rw [run_mapError, run_zoom] at h
  rcases hr : (finalizesAnyWithDescendentIf (ancestryOracle (E := E) A) hash number
      fun change => decide (change.effectiveNumber = number)).run s.pendingStandardChanges
    with ⟨a, t⟩ | ⟨e | e, t⟩ <;> rw [hr] at h
  · simp only [EStateM.Result.ok.injEq] at h
    obtain ⟨rfl, hs⟩ := h
    have ht : t = s.pendingStandardChanges := congrArg AuthoritySet.pendingStandardChanges hs
    rw [hr, ht]
  · cases h
  · cases h

end Runs

/-- On well-formed trees, with a client that answers from the ancestry, the
check and the finalization of the fork tree agree, and on a set whose tree of
standard changes is well formed a change the check reports is enacted. -/
theorem finalizes_check_agrees_with_apply {V : Type} :
    (∀ (t : ForkTree H N V) (hash : H) (number : N) (predicate : V → Bool), t.Wf A →
      ((finalizesAnyWithDescendentIf (ancestryOracle (E := E) A) hash number predicate).run t =
          .ok (some true) t ↔
        ∃ d t', (finalizeWithDescendentIf (ancestryOracle (E := E) A) hash number predicate).run t =
          .ok (.changed (some d)) t') ∧
      ∀ t', (finalizeWithDescendentIf (ancestryOracle (E := E) A) hash number predicate).run t =
          .error (.error .unfinalizedAncestor) t' →
        (finalizesAnyWithDescendentIf (ancestryOracle (E := E) A) hash number predicate).run t =
          .error (.error .unfinalizedAncestor) t) ∧
    ∀ (s : AuthoritySet H N Id) (hash : H) (number : N), s.pendingStandardChanges.Wf A →
      (enactsStandardChange (ancestryOracle (E := E) A) hash number).run s = .ok (some true) s →
      ∃ status s', (applyStandardChanges (ancestryOracle (E := E) A) hash number).run s =
        .ok status s' ∧ status.newSetBlock = some (hash, number) := by
  refine ⟨fun t hash number predicate ht => ⟨⟨changed_of_finalizesAny ht fun _ h => h, ?_⟩, ?_⟩, ?_⟩
  · rintro ⟨d, t', h⟩
    exact finalizesAny_of_changed ht h
  · intro t' h
    exact finalizesAny_unfinalized ht h
  · intro s hash number hwf h
    -- a change effective at the block is one effective by it
    have hweaker : ∀ change : PendingChange H N Id,
        decide (change.effectiveNumber = number) = true →
          decide (change.effectiveNumber ≤ number) = true := by
      intro change hc
      simp only [decide_eq_true_eq] at hc ⊢
      exact hc.le
    obtain ⟨d, t', ht'⟩ := changed_of_finalizesAny hwf hweaker (finalizesAny_of_enacts h)
    obtain ⟨s', hs'⟩ := run_applyStandardChanges_of_changed ht'
    exact ⟨_, s', hs', rfl⟩

/-- One standard change, signalled at block `1` of a chain with a delay of one
block. -/
def oneChange : AuthoritySet ℕ ℕ ℕ :=
  ⟨[(0, 1)], 0, ⟨[⟨1, 1, ⟨[(1, 1)], 1, 1, 1, .finalized⟩, []⟩], none⟩, [], []⟩

theorem finalizes_check_agrees_with_apply_oneChange :
    oneChange.pendingStandardChanges.Wf chainAncestry ∧
      (enactsStandardChange (ancestryOracle (E := Unit) chainAncestry) 2 2).run oneChange =
        .ok (some true) oneChange ∧
      ∃ status s', (applyStandardChanges (ancestryOracle (E := Unit) chainAncestry) 2 2).run oneChange =
        .ok status s' ∧ status.newSetBlock = some (2, 2) := by
  have hwf : oneChange.pendingStandardChanges.Wf chainAncestry :=
    Siblings.singleton (Node.Wf.leaf (A := chainAncestry) 1 _)
  have henacts : (enactsStandardChange (ancestryOracle (E := Unit) chainAncestry) 2 2).run oneChange =
      .ok (some true) oneChange := rfl
  exact ⟨hwf, henacts,
    (finalizes_check_agrees_with_apply (V := Unit) chainAncestry).2 oneChange 2 2 hwf henacts⟩

/-- Three standard changes on one chain, signalled at blocks `1`, `2` and `3`,
in a tree that keeps `1` and `3` both as roots although `1` is an ancestor of
`3`: the tree that adding them in the order `3`, `1`, `2` builds. -/
def unorderedChanges : AuthoritySet ℕ ℕ ℕ :=
  ⟨[(0, 1)], 0,
    ⟨[⟨1, 1, ⟨[(1, 1)], 0, 1, 1, .finalized⟩, [⟨2, 2, ⟨[(2, 1)], 0, 2, 2, .finalized⟩, []⟩]⟩,
      ⟨3, 3, ⟨[(3, 1)], 2, 3, 3, .finalized⟩, []⟩], none⟩, [], []⟩

/-- Adding the changes of blocks `3`, `1` and `2`, in that order, to a new set
builds `unorderedChanges`. The check then reports that finalizing block `5`
enacts the change of block `3`, and the finalization fails: it stops at root
`1`, whose child `2` it would pass over. -/
theorem enacts_but_apply_fails :
    (do
        addPendingChange (ancestryOracle (E := Unit) chainAncestry) ⟨[(3, 1)], 2, 3, 3, .finalized⟩
        addPendingChange (ancestryOracle (E := Unit) chainAncestry) ⟨[(1, 1)], 0, 1, 1, .finalized⟩
        addPendingChange (ancestryOracle (E := Unit) chainAncestry) ⟨[(2, 1)], 0, 2, 2, .finalized⟩ :
          SetCall ℕ ℕ ℕ Unit Unit).run ⟨[(0, 1)], 0, ForkTree.new, [], []⟩ =
        .ok () unorderedChanges ∧
      (enactsStandardChange (ancestryOracle (E := Unit) chainAncestry) 5 5).run unorderedChanges =
        .ok (some true) unorderedChanges ∧
      (applyStandardChanges (ancestryOracle (E := Unit) chainAncestry) 5 5).run unorderedChanges =
        .error (.error (.forkTree .unfinalizedAncestor)) unorderedChanges := by
  refine ⟨?_, rfl, rfl⟩
  simp [addPendingChange, invalidAuthorityList, addStandardChange, onStandard, run_mapError,
    run_zoom, ForkTree.import, checkRevert, importRoots, Node.import, Node.importChildren,
    ancestryOracle, chainAncestry, rebalance, byDepth, Node.rebalance_eq, ForkTree.new,
    List.mergeSort, Node.maxDepth, Node.maxDepthOf, unorderedChanges]

end SocialNetwork.Grandpa
