import Mathlib
import SocialNetwork.Client.TransactionPool.BasePool

/-!
# Promotions out of the future queue

`import_to_ready` takes the transactions that a transaction's tags complete
out of the future queue before it imports that transaction to the ready
queue: `satisfy_tags` first, `import` after. The import can still fail with
`TooLowPriority`, when the ready transactions providing the same tags have
the higher priority together.

For the transaction the pool was asked to import, the call then returns the
error with the future queue already changed, the completed transactions
neither in it nor imported (`run_importToReady_first_error`,
`rejected_import_drops_future`). For a promoted transaction, the failure is
recorded in `failed`, but the transactions its tags completed are on the
worklist already and are imported into the ready queue, requiring a tag that
no ready transaction provides (`promoted_without_provider`).
-/

namespace SocialNetwork.TransactionPool

open Dispatch

variable {H T : Type} [DecidableEq H] [DecidableEq T]

/-- **A rejected transaction still completes the future ones.** When the
ready queue rejects the transaction `import_to_ready` was called with, the
call fails with the queue's error after the transactions its tags complete
have left the future queue. -/
theorem run_importToReady_first_error {p : BasePool H T} {tx : WaitingTransaction H T}
    {unlocked : List (WaitingTransaction H T)} {f : FutureTransactions H T} {r : ReadyTransactions H T}
    {e : Error H}
    (hsatisfy : (FutureTransactions.satisfyTags tx.transaction.provides : Call (Error H) _ _).run p.future =
      .ok unlocked f)
    (himport : (ReadyTransactions.import tx).run p.ready = .error (.error e) r) :
    (BasePool.importToReady tx).run p = .error (.error e) { p with future := f, ready := r } := by
  have hfuture : (BasePool.onFuture (FutureTransactions.satisfyTags tx.transaction.provides)).run p =
      (.ok unlocked { p with future := f } : EStateM.Result (Exit (Error H)) _ _) := by
    simp [BasePool.onFuture, run_zoom, hsatisfy]
  have hready : (attempt (BasePool.onReady (ReadyTransactions.import tx))).run { p with future := f } =
      (.ok (.error e) { p with future := f, ready := r } : EStateM.Result (Exit (Error H)) _ _) := by
    simp [BasePool.onReady, run_attempt, run_zoom, himport]
  have hloop : (BasePool.importLoop (p.future.len + 1) [tx] true [] [] []).run p =
      .error (.error e) { p with future := f, ready := r } := by
    simp only [BasePool.importLoop, List.getLast?_singleton]
    rw [run_bind_ok hfuture, run_bind_ok hready]
    simp
  simp only [BasePool.importToReady, run_get_bind]
  rw [run_bind_error hloop]

-- a transaction waiting for a tag is promoted when its provider is imported
example : (execute BasePool.apply [.import ⟨1, 2, 1, 64, [1], []⟩ 0, .import ⟨1, 1, 1, 64, [], [1]⟩ 1]
    (BasePool.new false : BasePool ℕ ℕ)).map (·.ready.contains 2) = some true := by
  decide +kernel

/-- Transaction `1` is ready and provides tag `1` at priority `10`;
transaction `2` waits for tag `2`. Transaction `3` provides both tags at
priority `1`: its import takes `2` out of the future queue, and the ready
queue then rejects it, its priority not above `1`'s. The import fails with
`TooLowPriority`, and `2` is in neither queue. -/
theorem rejected_import_drops_future :
    ∃ (p p' : BasePool ℕ ℕ) (e : Error ℕ),
      execute BasePool.apply
          [.import ⟨1, 1, 10, 64, [], [1]⟩ 0, .import ⟨1, 2, 1, 64, [2], [5]⟩ 1] (BasePool.new false) =
        some p ∧
      (BasePool.import ⟨1, 3, 1, 64, [], [1, 2]⟩ 2).run p = .error (.error e) p' ∧
      e = .tooLowPriority 10 1 ∧ p.future.contains 2 = true ∧
      p'.future.contains 2 = false ∧ p'.ready.contains 2 = false :=
  exists_error_of_execute _ _ (by decide +kernel)

-- a transaction waiting for a tag stays in the future queue
example : (execute BasePool.apply [.import ⟨1, 2, 1, 64, [1], []⟩ 0]
    (BasePool.new false : BasePool ℕ ℕ)).map (·.future.contains 2) = some true := by
  decide +kernel

/-- Transaction `1` is ready and provides tag `2` at priority `10`.
Transaction `2` waits for tag `1` and provides tags `3` and `2` at priority
`1`; transaction `3` waits for tag `3`. Transaction `4` provides tag `1`:
importing it promotes `2`, whose tags complete `3`, and the ready queue rejects
`2`. Transaction `3` is imported all the same, and requires tag `3`, which
no ready transaction provides and no pruning named. -/
theorem promoted_without_provider :
    ∃ p : BasePool ℕ ℕ,
      execute BasePool.apply
          [.import ⟨1, 1, 10, 64, [], [2]⟩ 0, .import ⟨1, 2, 1, 64, [1], [3, 2]⟩ 1,
            .import ⟨1, 3, 1, 64, [3], []⟩ 2, .import ⟨1, 4, 1, 64, [], [1]⟩ 3] (BasePool.new false) =
        some p ∧
      (p.ready.ready.lookup 3).any (fun t => t.transaction.transaction.requires.contains 3) = true ∧
      (∀ e ∈ p.ready.ready.entries, 3 ∉ e.2.transaction.transaction.provides) :=
  exists_of_execute_eq _ (by decide +kernel)

end SocialNetwork.TransactionPool
