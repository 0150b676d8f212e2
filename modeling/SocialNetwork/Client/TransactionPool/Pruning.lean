import SocialNetwork.Client.TransactionPool.BasePool

/-!
# Pruning tags

`prune_tags` of the ready queue pops a tag, removes its provider, and goes on
with the tags of the providers that the removal leaves unlocking nothing. It
never maps a tag: `provided_tags` only loses entries, and the tag pruned has
none afterwards (`wp_pruneTags_unmaps`), whatever the state and however
many transactions the pruning takes with it.

The pool's `prune_tags` does more than prune. The future transactions that
the tags complete are imported to the ready queue after the pruning, and
nothing keeps one of them from providing a tag just pruned. And the
transactions a pruned one unlocked count one more provided tag each, and go
to `best` when the count reaches their required tags. The count was taken at
import: a required tag then in the recently pruned sets counts as provided
outside the pool, although a ready transaction may provide it since. Such a
transaction enters `best` while another ready transaction provides a tag it
requires, and the best iterator offers it before that one.
-/

namespace SocialNetwork.TransactionPool

open Dispatch

variable {H T ε : Type} [DecidableEq H] [DecidableEq T]

theorem lookup_erase_of_lookup_eq_none {β : Type} {m : StorageMap T β} {x : T}
    (h : m.lookup x = none) (k : T) : (m.erase k).lookup x = none := by
  by_cases hk : x = k
  · subst hk
    exact Finmap.lookup_erase x m
  · rw [Finmap.lookup_erase_ne hk]
    exact h

/-- The check of a pruned transaction's tags erases each in turn, or
panics; it never maps a tag. -/
theorem wp_foldlM_checkErase {σ : Type} {x : T} (expected : T → Option H) (l : List T) :
    ∀ (provided : StorageMap T H) (s : σ), provided.lookup x = none →
      Wp (l.foldlM (fun (provided : StorageMap T H) tag =>
          if provided.lookup tag = expected tag then pure (provided.erase tag)
          else (panic : Call ε σ (StorageMap T H))) provided)
        (fun p s' => p.lookup x = none ∧ s' = s) (fun _ _ => True) s := by
  induction l with
  | nil => exact fun _ _ h => ⟨h, rfl⟩
  | cons tag l ih =>
    intro provided s h
    rw [List.foldlM_cons, wp_bind]
    split_ifs
    · exact ih _ s (lookup_erase_of_lookup_eq_none h tag)
    · trivial

/-- **Step and run.** A tag without a provider keeps none through the loop
of `prune_tags`. -/
theorem wp_pruneLoop_unmapped {x : T} (fuel : ℕ) :
    ∀ (toRemove : List T) (removed : List (Transaction H T)) (r : ReadyTransactions H T),
      r.providedTags.lookup x = none →
      Wp (ReadyTransactions.pruneLoop (ε := ε) fuel toRemove removed)
        (fun _ r' => r'.providedTags.lookup x = none) (fun _ _ => True) r := by
  induction fuel with
  | zero => exact fun _ _ _ h => h
  | succ fuel ih =>
    intro toRemove removed r h
    rw [ReadyTransactions.pruneLoop]
    cases toRemove.getLast? with
    | none => exact h
    | some tag =>
      simp only [wp_bind, wp_get]
      split
      · exact ih _ _ r h
      · split
        · simp only [wp_bind, wp_set]
          exact ih _ _ { r with providedTags := r.providedTags.erase tag }
            (lookup_erase_of_lookup_eq_none h tag)
        · -- the other tags of the pruned transaction are checked and erased
          simp only [wp_bind]
          refine Wp.mono (wp_foldlM_checkErase (ε := ε) _ _ _ r
            (lookup_erase_of_lookup_eq_none h tag)) (fun p s' hp => ?_) (fun _ _ h => h)
          obtain ⟨hp, rfl⟩ := hp
          simp only [wp_set]
          exact ih _ _ _ hp

/-- `prune_tags(tag)` leaves `tag` without a provider, in every state
where it does not panic. -/
theorem wp_pruneTags_unmaps (tag : T) (r : ReadyTransactions H T) :
    Wp (ReadyTransactions.pruneTags (ε := ε) tag)
      (fun _ r' => r'.providedTags.lookup tag = none) (fun _ _ => True) r := by
  simp only [ReadyTransactions.pruneTags, wp_bind, wp_get]
  obtain ⟨fuel, hfuel⟩ : ∃ fuel, pruneFuel r = fuel + 1 := ⟨pruneFuel r - 1, by unfold pruneFuel; omega⟩
  rw [hfuel, ReadyTransactions.pruneLoop]
  simp only [List.getLast?_singleton, List.dropLast_singleton, wp_bind, wp_get]
  split
  next hp => exact wp_pruneLoop_unmapped fuel _ _ r hp
  · split
    · simp only [wp_bind, wp_set]
      exact wp_pruneLoop_unmapped fuel _ _ { r with providedTags := r.providedTags.erase tag }
        (Finmap.lookup_erase tag _)
    · simp only [wp_bind]
      refine Wp.mono (wp_foldlM_checkErase (ε := ε) _ _ _ r (Finmap.lookup_erase tag _))
        (fun p s' hp => ?_) (fun _ _ h => h)
      obtain ⟨hp, rfl⟩ := hp
      simp only [wp_set]
      exact wp_pruneLoop_unmapped fuel _ _ _ hp

-- pruning the tag a ready transaction provides takes it out of the pool
example : (execute BasePool.apply [.import ⟨1, 1, 1, 64, [], [1]⟩ 0, .pruneTags [1]]
    (BasePool.new false : BasePool ℕ ℕ)).map (·.ready.contains 1) = some false := by
  decide +kernel

/-- Transaction `1` provides tag `1`. Tag `3` is pruned, with no provider,
and transaction `2`, requiring tags `1` and `3`, is imported: tag `3` counts
as provided outside the pool. Transaction `3` then provides tag `3`. Pruning
tag `1` moves `2` to `best`, while `3`, in the queue, provides the tag `3`
it requires. In the second run transaction `1` waits for tag `1` and
provides tag `2`: pruning tags `1` and `2` promotes it, and the ready queue
then holds a provider of the pruned tag `2`. -/
theorem prune_tags_misplaces_best :
    (∃ s : BasePool ℕ ℕ, execute BasePool.apply [.import ⟨1, 1, 1, 64, [], [1]⟩ 0, .pruneTags [3],
        .import ⟨1, 2, 1, 64, [1, 3], []⟩ 1, .import ⟨1, 3, 1, 64, [], [3]⟩ 2, .pruneTags [1]]
        (BasePool.new false) = some s ∧
      s.ready.best.any (fun r => r.transaction.hash == 2) = true ∧
      (s.ready.ready.lookup 2).map (·.transaction.transaction.requires) = some [1, 3] ∧
      s.ready.providedTags.lookup 3 = some 3 ∧ s.ready.contains 3 = true) ∧
    (∃ s : BasePool ℕ ℕ, execute BasePool.apply [.import ⟨1, 1, 1, 64, [1], [2]⟩ 0, .pruneTags [1, 2]]
        (BasePool.new false) = some s ∧
      (s.ready.ready.lookup 1).map (·.transaction.transaction.provides) = some [2]) :=
  ⟨exists_of_execute_eq _ (by decide +kernel), exists_of_execute_eq _ (by decide +kernel)⟩

end SocialNetwork.TransactionPool
