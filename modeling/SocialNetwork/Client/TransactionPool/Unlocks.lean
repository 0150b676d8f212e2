import Mathlib
import SocialNetwork.Client.TransactionPool.BasePool

/-!
# Stale `unlocks` and the best-first iterator

`remove_subtree_with_tag_filter` means to take the removed transaction out
of the `unlocks` of the providers of its required tags; the inner binding
`if let Some(hash) = self.provided_tags.get(tag)` shadows the removed hash,
and each provider is cleared of its own hash instead. A provider never lists
itself, so the removal leaves every other ready transaction as it was
(`removeSubtree_keeps_providers`), its providers still listing it. When the
transaction is imported again, they list it twice, and `BestIterator` counts
it twice: it yields the transaction before a provider of one of its tags,
and then yields it again (`best_order_after_reimport`).
-/

namespace SocialNetwork.TransactionPool

open Dispatch

variable {H T ε : Type} [DecidableEq H] [DecidableEq T]

omit [DecidableEq T] in
theorem removeItem_of_not_mem {l : List H} {item : H} (h : item ∉ l) : removeItem l item = l := by
  simp [removeItem, List.idxOf?_eq_none_iff.mpr h]

/-- The providers' clearing of the removal leaves the queue alone when no
provider lists itself. -/
theorem foldl_clear_providers_eq {provided : StorageMap T H} (requires : List T) :
    ∀ ready : StorageMap H (ReadyTx H T), (∀ p ptx, ready.lookup p = some ptx → p ∉ ptx.unlocks) →
      requires.foldl (fun ready tag =>
        match provided.lookup tag with
        | some provider =>
            match ready.lookup provider with
            | some p => ready.insert provider { p with unlocks := removeItem p.unlocks provider }
            | none => ready
        | none => ready) ready = ready := by
  induction requires with
  | nil => intro ready _; rfl
  | cons tag requires ih =>
      intro ready hself
      rw [List.foldl_cons]
      -- the step on `tag` writes back the provider's entry unchanged
      have hstep : (match provided.lookup tag with
          | some provider =>
              match ready.lookup provider with
              | some p => ready.insert provider { p with unlocks := removeItem p.unlocks provider }
              | none => ready
          | none => ready) = ready := by
        cases hprovider : provided.lookup tag with
        | none => rfl
        | some provider =>
            cases hp : ready.lookup provider with
            | none => simp only [hp]
            | some p =>
                simp only [hp, removeItem_of_not_mem (hself provider p hp)]
                exact StorageMap.insert_of_lookup hp
      rw [hstep]
      exact ih ready hself

/-- **Removing a transaction that unlocks nothing.** When no ready
transaction lists itself, `remove_subtree` of a transaction with no
`unlocks` takes it out of the queue and leaves every other transaction as it
was: the providers of its tags still list it. -/
theorem removeSubtree_keeps_providers {r : ReadyTransactions H T} {hash : H} {tx : ReadyTx H T}
    (htx : r.ready.lookup hash = some tx) (hunlocks : tx.unlocks = [])
    (hself : ∀ p ptx, r.ready.lookup p = some ptx → p ∉ ptx.unlocks) :
    ∃ r', (ReadyTransactions.removeSubtree [hash] : Call ε _ _).run r = .ok [tx.transaction.transaction] r' ∧
      r'.ready = r.ready.erase hash := by
  have hself' : ∀ p ptx, (r.ready.erase hash).lookup p = some ptx → p ∉ ptx.unlocks :=
    fun p ptx hp => hself p ptx (StorageMap.lookup_erase_eq_some.mp hp).2
  have hfuel : removeFuel r [hash] =
      StorageMap.total (fun tx : ReadyTx H T => tx.unlocks.length) r.ready + 1 := by
    simp [removeFuel, Nat.add_comm]
  have hdone : ∀ (fuel : ℕ) (r' : ReadyTransactions H T) (removed : List (Transaction H T)),
      (ReadyTransactions.removeLoop none fuel [] removed : Call ε _ _).run r' = .ok removed r' := by
    intro fuel r' removed
    cases fuel <;> rfl
  simp only [ReadyTransactions.removeSubtree, ReadyTransactions.removeSubtreeWithTagFilter, run_get_bind,
    hfuel, ReadyTransactions.removeLoop, List.getLast?_singleton, List.dropLast_singleton, htx,
    run_set_bind, hunlocks, ite_self, List.nil_append]
  refine ⟨_, hdone _ _ _, ?_⟩
  exact foldl_clear_providers_eq _ _ hself'

-- a transaction requiring the tag of a ready one is in its provider's `unlocks`
example : (execute BasePool.apply [.import ⟨1, 1, 5, 64, [], [1]⟩ 0, .import ⟨1, 2, 1, 64, [1], []⟩ 1]
    (BasePool.new false : BasePool ℕ ℕ)).map (fun p => (p.ready.ready.lookup 1).map (·.unlocks)) =
      some (some [2]) := by
  decide +kernel

/-- Transactions `1` and `2` provide tags `1` and `2`, at priorities `5`
and `1`, and transaction `3` requires both, at priority `10`. Removing `3`
and importing it again leaves it twice in each provider's `unlocks`: the
iterator yields `1`, then `3`, whose second count comes from `1` again, then
`2`, which provides a tag `3` requires, and then `3` a second time. -/
theorem best_order_after_reimport :
    ∃ p : BasePool ℕ ℕ,
      execute BasePool.apply
          [.import ⟨1, 1, 5, 64, [], [1]⟩ 0, .import ⟨1, 2, 1, 64, [], [2]⟩ 1,
            .import ⟨1, 3, 10, 64, [1, 2], [3]⟩ 2, .removeSubtree [3],
            .import ⟨1, 3, 10, 64, [1, 2], [3]⟩ 3] (BasePool.new false) =
        some p ∧
      (p.readyIter.take 5).map (·.hash) = [1, 3, 2, 3] ∧
      (p.ready.ready.lookup 2).any (fun u => u.transaction.transaction.provides.contains 2) = true ∧
      (p.ready.ready.lookup 3).any (fun t => t.transaction.transaction.requires.contains 2) = true :=
  exists_of_execute_eq _ (by decide +kernel)

end SocialNetwork.TransactionPool
