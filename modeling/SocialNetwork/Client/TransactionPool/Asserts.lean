import SocialNetwork.Client.TransactionPool.BasePool

/-!
# The assertions of the pool

The queues guard their imports with `assert!`s and `expect`s, and the
pruning of a tag checks with `assert_eq!` that each other tag of the pruned
transaction was mapped to it. The future queue's two asserts cannot fire
from `BasePool::import`, which tests the same two facts first
(`run_import_future_ne_panic`).

Two others can. `replace_previous` removes the transactions the new one
displaces under the filter of the new one's tags, so those tags stay mapped
to the removed hashes (`replacePrevious_keeps_provided`) until `import`
writes them over. Between the two, `import` looks up the provider of each
tag it requires, and `expect(HASH_READY)` fails when it requires a tag it
provides, held by a transaction it replaced. And a transaction that lists a
provided tag twice removes its mapping at the first, so the check fails at
the second when another of its tags is pruned.
-/

namespace SocialNetwork.TransactionPool

open Dispatch

variable {H T ε : Type} [DecidableEq H] [DecidableEq T]

/-! ## `replace_previous` leaves the filtered tags mapped -/

theorem lookup_foldl_erase_of_notMem {β : Type} {l : List T} {tag : T} (h : tag ∉ l)
    (m : StorageMap T β) :
    (l.foldl (fun p t => p.erase t) m).lookup tag = m.lookup tag := by
  induction l generalizing m with
  | nil => rfl
  | cons t l ih =>
    rw [List.foldl_cons, ih (fun hl => h (List.mem_cons_of_mem t hl))]
    exact Finmap.lookup_erase_ne fun heq => h (heq ▸ List.mem_cons_self)

/-- A tag of the filter keeps its provider through the loop of
`remove_subtree_with_tag_filter`: only the removed transactions' tags outside
the filter leave `provided_tags`. -/
theorem removeLoop_keeps_filtered {f : List T} {tag : T} (htag : tag ∈ f) (fuel : ℕ) :
    ∀ (toRemove : List H) (removed : List (Transaction H T)),
      Keeps (fun r : ReadyTransactions H T => r.providedTags.lookup tag)
        (ReadyTransactions.removeLoop (ε := ε) (some f) fuel toRemove removed) := by
  induction fuel with
  | zero => exact fun _ _ => keeps_pure _
  | succ fuel ih =>
    intro toRemove removed r
    rw [ReadyTransactions.removeLoop]
    cases toRemove.getLast? with
    | none => rfl
    | some hash =>
      simp only [run_get_bind]
      cases htx : r.ready.lookup hash with
      | none => exact ih _ _ r
      | some tx =>
        simp only [run_set_bind]
        refine (ih _ _ _).trans ?_
        apply lookup_foldl_erase_of_notMem
        simp only [List.mem_filter, Option.map_some, Option.getD_some, Bool.not_eq_true',
          decide_eq_false_iff_not, not_and, not_not]
        exact fun _ => htag

theorem removeSubtreeWithTagFilter_keeps_filtered {f : List T} {tag : T} (htag : tag ∈ f)
    (toRemove : List H) :
    Keeps (fun r : ReadyTransactions H T => r.providedTags.lookup tag)
      (ReadyTransactions.removeSubtreeWithTagFilter (ε := ε) toRemove (some f)) :=
  keeps_bind keeps_get fun _ => removeLoop_keeps_filtered htag _ _ _

/-- `replace_previous` leaves each tag of the new transaction mapped as it
was, to a transaction it may have removed. -/
theorem replacePrevious_keeps_provided (tx : Transaction H T) {tag : T} (htag : tag ∈ tx.provides) :
    Keeps (fun r : ReadyTransactions H T => r.providedTags.lookup tag)
      (ReadyTransactions.replacePrevious tx) := by
  refine keeps_bind keeps_get fun r => ?_
  dsimp only
  exact keeps_ite (keeps_pure _) (keeps_ite (keeps_fail _)
    (keeps_bind (removeSubtreeWithTagFilter_keeps_filtered htag _) fun _ => keeps_pure _))

/-! ## The future queue's asserts -/

/-- Both asserts of `FutureTransactions::import` pass for a transaction that
misses a tag and is not in the queue. -/
theorem run_futureImport_of_waiting {f : FutureTransactions H T} {w : WaitingTransaction H T}
    (hwait : w.isReady = false) (hnew : f.contains w.transaction.hash = false) :
    ∃ f', (FutureTransactions.import (ε := ε) w).run f = .ok () f' := by
  simp only [FutureTransactions.import, run_get_bind, hwait, hnew]
  exact ⟨_, rfl⟩

/-- `BasePool::import` hands the future queue only a transaction that
misses a tag and is in neither queue, so `FutureTransactions::import` does
not panic. -/
theorem run_import_future_ne_panic {p : BasePool H T} {tx : Transaction H T} {now : ℕ}
    (hwait : (WaitingTransaction.new tx p.ready.providedTags p.recentlyPruned now).isReady = false)
    (s' : BasePool H T) :
    (BasePool.import tx now).run p ≠ .error .panic s' := by
  simp only [BasePool.import, run_get_bind]
  by_cases himp : p.isImported tx.hash = true
  · rw [if_pos himp, run_fail]
    exact fun h => by cases h
  · rw [if_neg himp, hwait, Bool.not_false, if_pos rfl]
    have hfut : p.future.contains tx.hash = false := by
      simp only [BasePool.isImported, Bool.or_eq_true, not_or] at himp
      simpa using himp.1
    obtain ⟨f', hf'⟩ := run_futureImport_of_waiting (ε := Error H) hwait hfut
    split_ifs
    · rw [run_fail]
      exact fun h => by cases h
    · simp only [BasePool.onFuture, EStateM.run_bind, run_zoom, hf']
      exact fun h => by cases h

/-- Transaction `1` provides tag `1` at priority `1`. Transaction `2`
requires and provides tag `1` at priority `2`: its import replaces `1`,
and the lookup of tag `1`'s provider finds hash `1` in `provided_tags` and
not in the queue. Transaction `1` of the second run provides tags `1`, `2`
and `2`: pruning tag `1` removes tag `2` at the first `2`, and the check at
the second fails. -/
theorem pool_assertions_fire :
    (∃ s s', Reachable BasePool.apply (· = (BasePool.new false : BasePool ℕ ℕ)) s ∧
      (BasePool.import ⟨1, 2, 2, 64, [1], [1]⟩ 1).run s = .error .panic s' ∧
      s'.ready.providedTags.lookup 1 = some 1 ∧ s'.ready.contains 1 = false) ∧
    (∃ s s', Reachable BasePool.apply (· = (BasePool.new false : BasePool ℕ ℕ)) s ∧
      (BasePool.pruneTags [1]).run s = .error .panic s' ∧
      (s.ready.ready.lookup 1).map (·.transaction.transaction.provides) = some [1, 2, 2]) := by
  have hreplace : (execute BasePool.apply [.import ⟨1, 1, 1, 64, [], [1]⟩ 0]
      (BasePool.new false : BasePool ℕ ℕ)).map (fun s => panicsAnd
        (fun _ s' => s'.ready.providedTags.lookup 1 = some 1 ∧ s'.ready.contains 1 = false) s
        ((BasePool.import ⟨1, 2, 2, 64, [1], [1]⟩ 1).run s)) = some true := by
    decide
  have hprune : (execute BasePool.apply [.import ⟨1, 1, 1, 64, [], [1, 2, 2]⟩ 0]
      (BasePool.new false : BasePool ℕ ℕ)).map (fun s => panicsAnd
        (fun s _ => (s.ready.ready.lookup 1).map (·.transaction.transaction.provides) = some [1, 2, 2]) s
        ((BasePool.pruneTags [1]).run s)) = some true := by
    decide
  exact ⟨Reachable.exists_panicsAnd_of_execute _ rfl hreplace,
    Reachable.exists_panicsAnd_of_execute _ rfl hprune⟩

end SocialNetwork.TransactionPool
