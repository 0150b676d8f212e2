import SocialNetwork.Client.FinalityGrandpa.Authorities
import SocialNetwork.Utils.ForkTree.Agreement

/-!
# Runs of the authority set

The client changes its authority set in three ways: it adds the changes that
blocks signal (`add_pending_change`, in order along a branch), it finalizes
blocks (`apply_standard_changes`, at increasing numbers), and it adopts the
set that `apply_forced_changes` returns for a new best block. `SetStep` is one
of these with a client that answers from the block ancestry; the sets of a
client are those reachable from a genesis set.

A forced change records, as the last block of the set it ends, the median
last finalized block it was signalled with, and that can be below a block
already recorded by a standard change: the history of set changes then goes
back, and `get_set_id`'s binary search no longer finds the set of a block
(`set_changes_unsorted_by_forced_change`).
-/

namespace SocialNetwork.Grandpa

open Dispatch Fork

variable {H N Id : Type} [DecidableEq H] [LinearOrder N] [Add N]

/-- The pending changes of a set: the standard ones in its tree, and the
forced ones. -/
def pendingChanges (s : AuthoritySet H N Id) : List (PendingChange H N Id) :=
  (Node.preorderAll s.pendingStandardChanges.roots).map (·.data) ++ s.pendingForcedChanges

variable (A : Ancestry H N) (E : Type)

/-- One change of the set in the client, with a client that answers from the
ancestry `A`. A call that returns `Err` keeps its writes. -/
inductive SetStep : AuthoritySet H N Id → AuthoritySet H N Id → Prop
  /-- A change signalled by a block, after every pending change of its branch. -/
  | addChange {s s' : AuthoritySet H N Id} (change : PendingChange H N Id) :
      (∀ c ∈ pendingChanges s, A.desc change.canonHash c.canonHash = false) →
      Leaves (addPendingChange (ancestryOracle (E := E) A) change) s s' → SetStep s s'
  /-- A block finalized above the last one. -/
  | applyStandard {s s' : AuthoritySet H N Id} (hash : H) (number : N) :
      (∀ best, s.pendingStandardChanges.bestFinalizedNumber = some best → best < number) →
      Leaves (applyStandardChanges (ancestryOracle (E := E) A) hash number) s s' → SetStep s s'
  /-- The set a forced change enacts at a new best block, adopted. -/
  | adoptForced {s s' : AuthoritySet H N Id} (hash : H) (number median : N) :
      (applyForcedChanges (ancestryOracle (E := E) A) hash number).run s = .ok (some (median, s')) s →
      SetStep s s'

def SetReachable (initial : AuthorityList Id) (s : AuthoritySet H N Id) : Prop :=
  ∃ s₀, AuthoritySet.genesis initial = some s₀ ∧ Relation.ReflTransGen (SetStep A E) s₀ s

def standardAtTen : PendingChange ℕ ℕ ℕ := ⟨[(1, 1)], 0, 10, 10, .finalized⟩

/-- A forced change signalled at block `12`, enacted at once, with `5` as the
median last finalized block. -/
def forcedAtTwelve : PendingChange ℕ ℕ ℕ := ⟨[(2, 1)], 0, 12, 12, .best 5⟩

/-- From the genesis set, the standard change of block `10` is added and
enacted, then the forced change of block `12` is added and its set adopted.
The history records set `0` as ending at block `10` and set `1` at block `5`:
it is not ordered by block, and `get_set_id` finds no set for block `7`,
which set `0` covers (its first recorded block at or above `7` is `10`). -/
theorem set_changes_unsorted_by_forced_change :
    ∃ s : AuthoritySet ℕ ℕ ℕ, SetReachable chainAncestry Unit [(0, 1)] s ∧
      s.authoritySetChanges = [(0, 10), (1, 5)] ∧
      ¬ (s.authoritySetChanges.map Prod.snd).Pairwise (· ≤ ·) ∧
      getSetId s.authoritySetChanges 7 = none := by
  let s₀ : AuthoritySet ℕ ℕ ℕ := ⟨[(0, 1)], 0, ForkTree.new, [], []⟩
  let s₁ : AuthoritySet ℕ ℕ ℕ := ⟨[(0, 1)], 0, ⟨[⟨10, 10, standardAtTen, []⟩], none⟩, [], []⟩
  let s₂ : AuthoritySet ℕ ℕ ℕ := ⟨[(1, 1)], 1, ⟨[], some 10⟩, [], [(0, 10)]⟩
  let s₃ : AuthoritySet ℕ ℕ ℕ := ⟨[(1, 1)], 1, ⟨[], some 10⟩, [forcedAtTwelve], [(0, 10)]⟩
  let s₄ : AuthoritySet ℕ ℕ ℕ := ⟨[(2, 1)], 2, ForkTree.new, [], [(0, 10), (1, 5)]⟩
  have hadd₁ : (addPendingChange (ancestryOracle (E := Unit) chainAncestry) standardAtTen).run s₀ =
      .ok () s₁ := by
    simp [s₀, s₁, addPendingChange, invalidAuthorityList, standardAtTen, addStandardChange,
      onStandard, run_mapError, run_zoom, ForkTree.import, checkRevert, importRoots, rebalance,
      byDepth, Node.rebalance_eq, ForkTree.new]
  have happly : (applyStandardChanges (ancestryOracle (E := Unit) chainAncestry) 10 10).run s₁ =
      .ok ⟨true, some (10, 10)⟩ s₂ := rfl
  have hadd₂ : (addPendingChange (ancestryOracle (E := Unit) chainAncestry) forcedAtTwelve).run s₂ =
      .ok () s₃ := by
    simp [s₂, s₃, addPendingChange, invalidAuthorityList, forcedAtTwelve, addForcedChange,
      checkForcedChanges]
  have hforced : (applyForcedChanges (ancestryOracle (E := Unit) chainAncestry) 12 12).run s₃ =
      .ok (some (5, s₄)) s₃ := rfl
  have hrun : Relation.ReflTransGen (SetStep chainAncestry Unit) s₀ s₄ :=
    .tail (.tail (.tail (.single
      (.addChange standardAtTen (by simp [s₀, pendingChanges, ForkTree.new]) (.inl ⟨(), hadd₁⟩)))
      (.applyStandard 10 10 (by simp [s₁]) (.inl ⟨_, happly⟩)))
      (.addChange forcedAtTwelve (by simp [s₂, pendingChanges]) (.inl ⟨(), hadd₂⟩)))
      (.adoptForced 12 12 5 hforced)
  refine ⟨s₄, ⟨s₀, rfl, hrun⟩, rfl, by simp [s₄], ?_⟩
  -- the search for `7` halves to block `5`, compares it once more, and goes right of it
  have hsearch : BinarySearch.binarySearchByKey (fun change : ℕ × ℕ => change.2)
      [(0, 10), (1, 5)] 7 = .error 2 := by
    rw [BinarySearch.binarySearchByKey, dif_neg (by simp), BinarySearch.binarySearchByKey.loop]
    simp
    rw [BinarySearch.binarySearchByKey.loop]
    simp
  simp [s₄, getSetId, hsearch]

end SocialNetwork.Grandpa
