import Mathlib
import SocialNetwork.Client.TransactionPool.Ready

/-!
# `BasePool`

`src/client/transaction-pool/graph/src/base_pool.rs` puts the future and
the ready queue together. A transaction imported goes to the future queue
while a tag it requires is neither provided by a ready transaction nor among
the tags of the last two prunings; otherwise `import_to_ready` imports it to
the ready queue and, before each import, takes out of the future queue the
transactions its provided tags complete, to be imported after it. Pruning
tags prunes their providers from the ready queue and promotes the future
transactions they complete.

The loop of `import_to_ready` takes a transaction off its worklist at each
pass and pushes only transactions taken out of the future queue, so the
queue's size bounds it. `enforce_limits` removes the oldest transaction of a
queue while the queue is over its limit: its `fold` over a `HashMap` keeps
the first of equally old transactions in the map's order, which here is the
order of the hashes (`[LinearOrder H]`).
-/

namespace SocialNetwork.TransactionPool

open Dispatch

/-- `Imported`. -/
inductive Imported (H T : Type) where
  | ready (hash : H) (promoted : List H) (failed : List H) (removed : List (Transaction H T))
  | future (hash : H)
  deriving DecidableEq, Repr

/-- `PruneStatus`. -/
structure PruneStatus (H T : Type) where
  promoted : List (Imported H T)
  failed : List H
  pruned : List (Transaction H T)

/-- `RECENTLY_PRUNED_TAGS`. -/
def recentlyPrunedTags : ℕ := 2

/-- `BasePool`. -/
structure BasePool (H T : Type) where
  rejectFutureTransactions : Bool
  future : FutureTransactions H T
  ready : ReadyTransactions H T
  recentlyPruned : List (List T)
  recentlyPrunedIndex : ℕ

/-- `Limit`. -/
structure Limit where
  count : ℕ
  totalBytes : ℕ
  deriving DecidableEq, Repr

/-- `Limit::is_exceeded`. -/
def Limit.isExceeded (l : Limit) (count bytes : ℕ) : Bool := l.count < count || l.totalBytes < bytes

variable {H T : Type} [DecidableEq H] [DecidableEq T]

/-- `BasePool::new`. -/
def BasePool.new (rejectFutureTransactions : Bool) : BasePool H T :=
  ⟨rejectFutureTransactions, .empty, .empty, List.replicate recentlyPrunedTags [], 0⟩

def BasePool.onFuture {ε α : Type} (m : Call ε (FutureTransactions H T) α) : Call ε (BasePool H T) α :=
  zoom (·.future) (fun p f => { p with future := f }) m

def BasePool.onReady {ε α : Type} (m : Call ε (ReadyTransactions H T) α) : Call ε (BasePool H T) α :=
  zoom (·.ready) (fun p r => { p with ready := r }) m

/-- `is_imported`. -/
def BasePool.isImported (p : BasePool H T) (hash : H) : Bool :=
  p.future.contains hash || p.ready.contains hash

/-- `BasePool::ready`. -/
def BasePool.readyIter (p : BasePool H T) : BestIterator H T := p.ready.get

/-- The worklist of `import_to_ready`: the transaction popped takes the
transactions its tags complete out of the future queue and is imported;
the first one's error ends the call, a later one's is recorded in
`failed`. -/
def BasePool.importLoop : ℕ → List (WaitingTransaction H T) → Bool → List H → List H →
    List (Transaction H T) → Call (Error H) (BasePool H T) (List H × List H × List (Transaction H T))
  | 0, _, _, promoted, failed, removed => pure (promoted, failed, removed)
  | fuel + 1, toImport, first, promoted, failed, removed =>
      match toImport.getLast? with
      | none => pure (promoted, failed, removed)
      | some tx => do
          let unlocked ← BasePool.onFuture (FutureTransactions.satisfyTags tx.transaction.provides)
          let toImport := toImport.dropLast ++ unlocked
          let currentHash := tx.transaction.hash
          match ← attempt (BasePool.onReady (ReadyTransactions.import tx)) with
          | .ok replaced =>
              BasePool.importLoop fuel toImport false
                (if first then promoted else promoted ++ [currentHash]) failed (removed ++ replaced)
          | .error e =>
              if first then fail e
              else BasePool.importLoop fuel toImport false promoted (failed ++ [currentHash]) removed

/-- `import_to_ready`: when the transaction itself was pushed out by those
it promoted, the promoted ones are removed and the import is a cycle. -/
def BasePool.importToReady (tx : WaitingTransaction H T) : Call (Error H) (BasePool H T) (Imported H T) := do
  let hash := tx.transaction.hash
  let p ← get
  let (promoted, failed, removed) ← BasePool.importLoop (p.future.len + 1) [tx] true [] [] []
  if removed.any (·.hash = hash) then
    discard (BasePool.onReady (ReadyTransactions.removeSubtree promoted))
    fail .cycleDetected
  else pure (.ready hash promoted failed removed)

/-- `BasePool::import`, at time `now`. -/
def BasePool.import (tx : Transaction H T) (now : ℕ) : Call (Error H) (BasePool H T) (Imported H T) := do
  let p ← get
  if p.isImported tx.hash then fail (.alreadyImported tx.hash)
  else
    let tx := WaitingTransaction.new tx p.ready.providedTags p.recentlyPruned now
    if !tx.isReady then
      if p.rejectFutureTransactions then fail .rejectedFutureTransaction
      else do
        BasePool.onFuture (FutureTransactions.import tx)
        pure (.future tx.transaction.hash)
    else BasePool.importToReady tx

/-- `remove_subtree`. -/
def BasePool.removeSubtree (hashes : List H) : Call (Error H) (BasePool H T) (List (Transaction H T)) := do
  let removed ← BasePool.onReady (ReadyTransactions.removeSubtree hashes)
  let removedFuture ← BasePool.onFuture (FutureTransactions.remove hashes)
  pure (removed ++ removedFuture)

/-- `clear_future`. -/
def BasePool.clearFuture : Call (Error H) (BasePool H T) (Multiset (Transaction H T)) :=
  BasePool.onFuture FutureTransactions.clear

/-- `prune_tags`: the tags are noted in the older of the two sets of
recently pruned tags, cleared first; the future transactions they complete
are imported after the pruning, their failures recorded. -/
def BasePool.pruneTags (tags : List T) : Call (Error H) (BasePool H T) (PruneStatus H T) := do
  let p ← get
  let index := p.recentlyPrunedIndex
  set { p with
    recentlyPrunedIndex := (index + 1) % recentlyPrunedTags,
    recentlyPruned := p.recentlyPruned.set index [] }
  let (toImport, pruned) ← tags.foldlM
    (fun (acc : List (WaitingTransaction H T) × List (Transaction H T)) tag => do
      let unlocked ← BasePool.onFuture (FutureTransactions.satisfyTags [tag])
      let prunedNow ← BasePool.onReady (ReadyTransactions.pruneTags tag)
      modify fun p => { p with recentlyPruned := p.recentlyPruned.modify index (·.insert tag) }
      pure (acc.1 ++ unlocked, acc.2 ++ prunedNow)) ([], [])
  let (promoted, failed) ← toImport.foldlM
    (fun (acc : List (Imported H T) × List H) tx => do
      match ← attempt (BasePool.importToReady tx) with
      | .ok res => pure (acc.1 ++ [res], acc.2)
      | .error _ => pure (acc.1, acc.2 ++ [tx.transaction.hash])) ([], [])
  pure ⟨promoted, failed, pruned⟩

section Limits

variable [LinearOrder H]

/-- The oldest ready transaction: the first of least insertion id, the
queue taken in the order of the hashes. -/
def ReadyTransactions.oldest (r : ReadyTransactions H T) : Option (TransactionRef H T) :=
  (r.ready.keys.sort (· ≤ ·)).foldl (fun minimal hash =>
    match r.ready.lookup hash, minimal with
    | some current, none => some current.transaction
    | some current, some tx =>
        if current.transaction.insertionId < tx.insertionId then some current.transaction else some tx
    | none, minimal => minimal) none

/-- The oldest future transaction: the first of least import time, the
queue taken in the order of the hashes. -/
def FutureTransactions.oldest (f : FutureTransactions H T) : Option (WaitingTransaction H T) :=
  (f.waiting.keys.sort (· ≤ ·)).foldl (fun minimal hash =>
    match f.waiting.lookup hash, minimal with
    | some current, none => some current
    | some current, some tx => if current.importedAt < tx.importedAt then some current else some tx
    | none, minimal => minimal) none

/-- The first loop of `enforce_limits`: the oldest ready transaction and
its subtree removed while the ready queue is over its limit. -/
def BasePool.enforceReady (limit : Limit) :
    ℕ → List (Transaction H T) → Call (Error H) (BasePool H T) (List (Transaction H T))
  | 0, removed => pure removed
  | fuel + 1, removed => do
      let p ← get
      if limit.isExceeded p.ready.len p.ready.bytes then
        match p.ready.oldest with
        | some minimal => do
            let more ← BasePool.removeSubtree [minimal.transaction.hash]
            BasePool.enforceReady limit fuel (removed ++ more)
        | none => pure removed
      else pure removed

def BasePool.enforceFuture (limit : Limit) :
    ℕ → List (Transaction H T) → Call (Error H) (BasePool H T) (List (Transaction H T))
  | 0, removed => pure removed
  | fuel + 1, removed => do
      let p ← get
      if limit.isExceeded p.future.len p.future.bytes then
        match p.future.oldest with
        | some minimal => do
            let more ← BasePool.removeSubtree [minimal.transaction.hash]
            BasePool.enforceFuture limit fuel (removed ++ more)
        | none => pure removed
      else pure removed

/-- `enforce_limits`. Each pass of a loop removes the transaction it finds,
so the size of the queue bounds it. -/
def BasePool.enforceLimits (ready future : Limit) :
    Call (Error H) (BasePool H T) (List (Transaction H T)) := do
  let removed ← BasePool.enforceReady ready ((← get).ready.len + 1) []
  BasePool.enforceFuture future ((← get).future.len + 1) removed

/-- The calls the owner of the pool makes on it. -/
inductive Command (H T : Type) where
  | import (tx : Transaction H T) (now : ℕ)
  | removeSubtree (hashes : List H)
  | pruneTags (tags : List T)
  | enforceLimits (ready future : Limit)
  | clearFuture

/-- A call of the owner, what it returns dropped; the runs of the pool are
`Dispatch.execute` over these calls. -/
def BasePool.apply : Command H T → Call (Error H) (BasePool H T) Unit
  | .import tx now => discard (BasePool.import tx now)
  | .removeSubtree hashes => discard (BasePool.removeSubtree hashes)
  | .pruneTags tags => discard (BasePool.pruneTags tags)
  | .enforceLimits ready future => discard (BasePool.enforceLimits ready future)
  | .clearFuture => discard BasePool.clearFuture

end Limits

end SocialNetwork.TransactionPool
