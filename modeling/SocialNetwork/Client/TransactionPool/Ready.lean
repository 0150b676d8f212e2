import Mathlib
import SocialNetwork.Client.TransactionPool.Future
import SocialNetwork.Lib.Unsigned
import SocialNetwork.Utils.ForkTree.Tree

/-!
# The ready queue of the transaction pool

`src/client/transaction-pool/graph/src/ready.rs` keeps the transactions
whose required tags are all provided, by a ready transaction or from outside
the pool. Each knows the transactions it unlocks (`unlocks`) and how many of
its required tags no ready transaction provided when it was imported
(`requires_offset`); `provided_tags` names the one ready transaction
providing each tag, and `best` holds those that need no other ready
transaction before them. `BestIterator` walks the queue from `best`, counting
for each transaction the required tags its unlocking providers have met.

`best` is a `BTreeSet` ordered by `TransactionRef`'s `Ord`, which tells
references apart by priority, longevity and insertion id only: a list in
which no two references compare equal, its largest one taken first. The
worklists of `remove_subtree_with_tag_filter` and `prune_tags` are stacks; a
pass pops one entry, and pushes only when it removes a transaction from the
queue, so they are bounded by fuel counted from the queue
(`removeFuel`, `pruneFuel`).
-/

namespace SocialNetwork.TransactionPool

open Dispatch Unsigned

/-- `TransactionRef`. -/
structure TransactionRef (H T : Type) where
  transaction : Transaction H T
  insertionId : ℕ
  deriving DecidableEq, Repr

/-- `ReadyTx`. -/
structure ReadyTx (H T : Type) where
  transaction : TransactionRef H T
  unlocks : List H
  requiresOffset : ℕ
  deriving DecidableEq, Repr

/-- `ReadyTransactions`. The `TrackedMap` of the ready transactions is a
map; its byte count is `bytes`. -/
structure ReadyTransactions (H T : Type) where
  insertionId : ℕ
  providedTags : StorageMap T H
  ready : StorageMap H (ReadyTx H T)
  best : List (TransactionRef H T)

/-- The `Error`s of `sp_transaction_pool` that the pool's queues return. -/
inductive Error (H : Type) where
  | alreadyImported (hash : H)
  | tooLowPriority (old new : ℕ)
  | cycleDetected
  | rejectedFutureTransaction
  deriving DecidableEq, Repr

variable {H T ε : Type}

/-- `Ord for TransactionRef`: by priority, then the shorter longevity, then
the earlier insertion. -/
def TransactionRef.cmp (a b : TransactionRef H T) : Ordering :=
  (compare a.transaction.priority b.transaction.priority).then
    ((compare b.transaction.validTill a.transaction.validTill).then (compare b.insertionId a.insertionId))

/-- `BTreeSet::insert`: nothing changes when an equal reference is there. -/
def bestInsert (best : List (TransactionRef H T)) (r : TransactionRef H T) : List (TransactionRef H T) :=
  if best.any (fun x => x.cmp r == .eq) then best else best ++ [r]

/-- `BTreeSet::remove`. -/
def bestRemove (best : List (TransactionRef H T)) (r : TransactionRef H T) : List (TransactionRef H T) :=
  best.filter fun x => x.cmp r != .eq

/-- `BTreeSet::iter().next_back()`: the largest reference. -/
def bestMax? (best : List (TransactionRef H T)) : Option (TransactionRef H T) :=
  best.foldl (fun m x => match m with
    | some m => if x.cmp m == .gt then some x else some m
    | none => some x) none

/-- `remove_item`: the first occurrence of `item` swapped out. -/
def removeItem [DecidableEq H] (l : List H) (item : H) : List H :=
  match l.idxOf? item with
  | some i => Fork.swapRemove l i
  | none => l

variable [DecidableEq H] [DecidableEq T]

/-- An empty queue. -/
def ReadyTransactions.empty : ReadyTransactions H T := ⟨0, ∅, ∅, []⟩

/-- `contains`. -/
def ReadyTransactions.contains (r : ReadyTransactions H T) (hash : H) : Bool :=
  (r.ready.lookup hash).isSome

/-- `len`. -/
def ReadyTransactions.len (r : ReadyTransactions H T) : ℕ := Multiset.card r.ready.entries

/-- `bytes`. -/
def ReadyTransactions.bytes (r : ReadyTransactions H T) : ℕ :=
  StorageMap.total (fun tx : ReadyTx H T => tx.transaction.transaction.bytes) r.ready

section Remove

/-- The passes `remove_subtree_with_tag_filter` can make from `toRemove`:
one per entry, and the entries a removed transaction pushes. -/
def removeFuel (r : ReadyTransactions H T) (toRemove : List H) : ℕ :=
  toRemove.length + StorageMap.total (fun tx : ReadyTx H T => tx.unlocks.length) r.ready

/-- The loop of `remove_subtree_with_tag_filter`. The transaction popped
leaves the queue with the tags it provides outside the filter, and the
transactions it unlocks are pushed when it gave up one; each of its required
tags' providers is then cleared of its own hash in its `unlocks`, where the
source's inner `hash` shadows the removed one. -/
def ReadyTransactions.removeLoop (filter : Option (List T)) :
    ℕ → List H → List (Transaction H T) → Call ε (ReadyTransactions H T) (List (Transaction H T))
  | 0, _, removed => pure removed
  | fuel + 1, toRemove, removed =>
      match toRemove.getLast? with
      | none => pure removed
      | some hash => do
          let toRemove := toRemove.dropLast
          let r ← get
          match r.ready.lookup hash with
          | none => ReadyTransactions.removeLoop filter fuel toRemove removed
          | some tx =>
              let invalidated := tx.transaction.transaction.provides.filter fun tag =>
                (filter.map fun f => !decide (tag ∈ f)).getD true
              let providedTags := invalidated.foldl (fun p tag => p.erase tag) r.providedTags
              let ready := tx.transaction.transaction.requires.foldl (fun ready tag =>
                match providedTags.lookup tag with
                | some provider =>
                    match ready.lookup provider with
                    | some p => ready.insert provider { p with unlocks := removeItem p.unlocks provider }
                    | none => ready
                | none => ready) (r.ready.erase hash)
              set { r with ready := ready, providedTags := providedTags, best := bestRemove r.best tx.transaction }
              ReadyTransactions.removeLoop filter fuel
                (if invalidated.isEmpty then toRemove else toRemove ++ tx.unlocks)
                (removed ++ [tx.transaction.transaction])

/-- `remove_subtree_with_tag_filter`. -/
def ReadyTransactions.removeSubtreeWithTagFilter (toRemove : List H) (filter : Option (List T)) :
    Call ε (ReadyTransactions H T) (List (Transaction H T)) := do
  ReadyTransactions.removeLoop filter (removeFuel (← get) toRemove) toRemove []

/-- `remove_subtree`. -/
def ReadyTransactions.removeSubtree (hashes : List H) :
    Call ε (ReadyTransactions H T) (List (Transaction H T)) :=
  ReadyTransactions.removeSubtreeWithTagFilter hashes none

end Remove

section Import

/-- `replace_previous`: the ready transactions providing a tag `tx`
provides are replaced when their priorities together are below `tx`'s, their
unlocks passing to `tx`; otherwise `TooLowPriority`. -/
def ReadyTransactions.replacePrevious (tx : Transaction H T) :
    Call (Error H) (ReadyTransactions H T) (List (Transaction H T) × List H) := do
  let r ← get
  let replaceHashes := (tx.provides.filterMap fun tag => r.providedTags.lookup tag).dedup
  if replaceHashes.isEmpty then pure ([], [])
  else
    let replaced := replaceHashes.filterMap fun hash => r.ready.lookup hash
    let oldPriority := replaced.foldl (fun total tx => saturatingAdd 64 total tx.transaction.transaction.priority) 0
    if tx.priority ≤ oldPriority then fail (.tooLowPriority oldPriority tx.priority)
    else
      let unlocks := replaced.foldl (fun list tx => list ++ tx.unlocks) []
      let removed ← ReadyTransactions.removeSubtreeWithTagFilter replaceHashes (some tx.provides)
      pure (removed, unlocks)

/-- `ReadyTransactions::import`: a transaction missing no tag joins the
queue after replacing the transactions it displaces; it is unlocked by the
ready providers of its required tags, counts the others in its offset, and
goes to `best` when it needs no ready transaction. -/
def ReadyTransactions.import (tx : WaitingTransaction H T) :
    Call (Error H) (ReadyTransactions H T) (List (Transaction H T)) := do
  let r ← get
  if !tx.isReady then panic
  if r.contains tx.transaction.hash then panic
  set { r with insertionId := r.insertionId + 1 }
  let insertionId := r.insertionId + 1
  let hash := tx.transaction.hash
  let transaction := tx.transaction
  let (replaced, unlocks) ← ReadyTransactions.replacePrevious transaction
  let r ← get
  let (ready, goesToBest, requiresOffset) ← transaction.requires.foldlM
    (fun (acc : StorageMap H (ReadyTx H T) × Bool × ℕ) tag =>
      let (ready, goesToBest, requiresOffset) := acc
      match r.providedTags.lookup tag with
      | some other => do
          let otherTx ← unwrap (ready.lookup other)
          pure (ready.insert other { otherTx with unlocks := otherTx.unlocks ++ [hash] }, false, requiresOffset)
      | none => pure (ready, goesToBest, requiresOffset + 1)) (r.ready, true, 0)
  let ref : TransactionRef H T := ⟨transaction, insertionId⟩
  set { r with
    providedTags := transaction.provides.foldl (fun provided tag => provided.insert tag hash) r.providedTags,
    best := if goesToBest then bestInsert r.best ref else r.best,
    ready := ready.insert hash ⟨ref, unlocks, requiresOffset⟩ }
  pure replaced

end Import

section Prune

/-- The passes `prune_tags` can make: one per tag popped, the tags pushed
being provided by a transaction for each of the required tags of the
transactions it removes. -/
def pruneFuel (r : ReadyTransactions H T) : ℕ :=
  2 + StorageMap.total (fun tx : ReadyTx H T => tx.transaction.transaction.requires.length) r.ready *
    StorageMap.total (fun tx : ReadyTx H T => tx.transaction.transaction.provides.length) r.ready

/-- The loop of `prune_tags`. The provider of the tag popped leaves the
queue; a ready provider of one of its required tags whose `unlocks` it
empties is pruned after it, the transactions it unlocked count one more
provided tag, and its other tags leave `provided_tags`, which must map them to
it. -/
def ReadyTransactions.pruneLoop :
    ℕ → List T → List (Transaction H T) → Call ε (ReadyTransactions H T) (List (Transaction H T))
  | 0, _, removed => pure removed
  | fuel + 1, toRemove, removed =>
      match toRemove.getLast? with
      | none => pure removed
      | some tag => do
          let toRemove := toRemove.dropLast
          let r ← get
          match r.providedTags.lookup tag with
          | none => ReadyTransactions.pruneLoop fuel toRemove removed
          | some hash =>
              match r.ready.lookup hash with
              | none => do
                  set { r with providedTags := r.providedTags.erase tag }
                  ReadyTransactions.pruneLoop fuel toRemove removed
              | some tx => do
                  let providedTags := r.providedTags.erase tag
                  let t := tx.transaction.transaction
                  -- the providers of its required tags, pruned when they unlock nothing more
                  let (ready, toRemove) := t.requires.foldl (fun (acc : StorageMap H (ReadyTx H T) × List T) tag' =>
                    let (ready, toRemove) := acc
                    match providedTags.lookup tag' with
                    | some prevHash =>
                        match ready.lookup prevHash with
                        | some tx2 =>
                            let tx2 := { tx2 with unlocks := removeItem tx2.unlocks t.hash }
                            (ready.insert prevHash tx2,
                              if tx2.unlocks.isEmpty then toRemove ++ tx2.transaction.transaction.provides
                              else toRemove)
                        | none => (ready, toRemove)
                    | none => (ready, toRemove)) (r.ready.erase hash, toRemove)
                  -- the transactions it unlocked
                  let (ready, best) := tx.unlocks.foldl
                    (fun (acc : StorageMap H (ReadyTx H T) × List (TransactionRef H T)) h =>
                      let (ready, best) := acc
                      match ready.lookup h with
                      | some u =>
                          let u := { u with requiresOffset := u.requiresOffset + 1 }
                          (ready.insert h u,
                            if u.requiresOffset = u.transaction.transaction.requires.length then
                              bestInsert best u.transaction
                            else best)
                      | none => (ready, best)) (ready, bestRemove r.best tx.transaction)
                  -- its other tags, each mapped to it
                  let providedTags ← t.provides.foldlM (fun (provided : StorageMap T H) tag'' => do
                    let expected := if tag'' = tag then none else some t.hash
                    if provided.lookup tag'' = expected then pure (provided.erase tag'') else panic)
                    providedTags
                  set { r with ready := ready, best := best, providedTags := providedTags }
                  ReadyTransactions.pruneLoop fuel toRemove (removed ++ [t])

/-- `prune_tags`. -/
def ReadyTransactions.pruneTags (tag : T) : Call ε (ReadyTransactions H T) (List (Transaction H T)) := do
  ReadyTransactions.pruneLoop (pruneFuel (← get)) [tag] []

end Prune

section Iterate

/-- `BestIterator`: the queue it walks, the transactions waiting for more
of their providers, each with the count met so far, and those ready to be
yielded. -/
structure BestIterator (H T : Type) where
  all : StorageMap H (ReadyTx H T)
  awaiting : StorageMap H (ℕ × TransactionRef H T)
  best : List (TransactionRef H T)

/-- `ReadyTransactions::get`. -/
def ReadyTransactions.get (r : ReadyTransactions H T) : BestIterator H T := ⟨r.ready, ∅, r.best⟩

/-- `best_or_awaiting`. -/
def BestIterator.bestOrAwaiting (it : BestIterator H T) (satisfied : ℕ) (txRef : TransactionRef H T) :
    BestIterator H T :=
  if txRef.transaction.requires.length ≤ satisfied then { it with best := bestInsert it.best txRef }
  else { it with awaiting := it.awaiting.insert txRef.transaction.hash (satisfied, txRef) }

/-- One transaction unlocked by the one yielded: one more of its required
tags met. -/
def BestIterator.unlock (it : BestIterator H T) (hash : H) : BestIterator H T :=
  match it.awaiting.lookup hash with
  | some (satisfied, txRef) => { it with awaiting := it.awaiting.erase hash }.bestOrAwaiting (satisfied + 1) txRef
  | none =>
      match it.all.lookup hash with
      | some next => it.bestOrAwaiting (next.requiresOffset + 1) next.transaction
      | none => it

/-- The loop of `next`: the largest reference of `best` is taken, skipped
when it left the queue, and yielded after the transactions it unlocks are
counted. Each pass takes one reference, so `best`'s length bounds it. -/
def BestIterator.nextLoop : ℕ → BestIterator H T → Option (Transaction H T × BestIterator H T)
  | 0, _ => none
  | fuel + 1, it =>
      match bestMax? it.best with
      | none => none
      | some best =>
          let it := { it with best := bestRemove it.best best }
          match it.all.lookup best.transaction.hash with
          | none => BestIterator.nextLoop fuel it
          | some ready => some (best.transaction, ready.unlocks.foldl BestIterator.unlock it)

/-- `Iterator::next` of `BestIterator`. -/
def BestIterator.next (it : BestIterator H T) : Option (Transaction H T × BestIterator H T) :=
  BestIterator.nextLoop (it.best.length + 1) it

/-- The first `n` transactions the iterator yields. -/
def BestIterator.take : ℕ → BestIterator H T → List (Transaction H T)
  | 0, _ => []
  | n + 1, it =>
      match it.next with
      | some (tx, it) => tx :: BestIterator.take n it
      | none => []

end Iterate

end SocialNetwork.TransactionPool
