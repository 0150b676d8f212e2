import Mathlib
import SocialNetwork.Lib.Dispatch
import SocialNetwork.Lib.StorageMap

/-!
# The future queue of the transaction pool

`src/client/transaction-pool/graph/src/future.rs` keeps the transactions
whose required tags are not all provided yet, each with the tags it still
misses (`WaitingTransaction`), and for every missing tag the transactions
waiting for it (`wanted_tags`). `satisfy_tags` marks tags as provided and
hands back, out of the queue, the transactions left missing nothing.

A `HashSet` is a list without duplicates, iterated in the order the list
has; `HashSet::insert` is `List.insert`. An `Instant` is a number the caller
passes. The `assert!`s and `expect`s are panics.
-/

namespace SocialNetwork.TransactionPool

open Dispatch

/-- `Transaction` of `base_pool.rs`, without its extrinsic, propagation flag
and source, which nothing here reads. -/
structure Transaction (H T : Type) where
  bytes : ℕ
  hash : H
  priority : ℕ
  validTill : ℕ
  requires : List T
  provides : List T
  deriving DecidableEq, Repr

/-- `WaitingTransaction`. -/
structure WaitingTransaction (H T : Type) where
  transaction : Transaction H T
  missingTags : List T
  importedAt : ℕ
  deriving DecidableEq, Repr

/-- `FutureTransactions`. -/
structure FutureTransactions (H T : Type) where
  wantedTags : StorageMap T (List H)
  waiting : StorageMap H (WaitingTransaction H T)

variable {H T ε : Type} [DecidableEq H] [DecidableEq T]

/-- `WaitingTransaction::new`: the required tags that no ready transaction
provides and no recent pruning removed. -/
def WaitingTransaction.new (transaction : Transaction H T) (provided : StorageMap T H)
    (recentlyPruned : List (List T)) (now : ℕ) : WaitingTransaction H T :=
  ⟨transaction,
    (transaction.requires.filter fun tag =>
      !((provided.lookup tag).isSome || recentlyPruned.any fun x => decide (tag ∈ x))).dedup,
    now⟩

/-- `is_ready`. -/
def WaitingTransaction.isReady (tx : WaitingTransaction H T) : Bool := tx.missingTags.isEmpty

/-- An empty queue. -/
def FutureTransactions.empty : FutureTransactions H T := ⟨∅, ∅⟩

/-- `contains`. -/
def FutureTransactions.contains (f : FutureTransactions H T) (hash : H) : Bool :=
  (f.waiting.lookup hash).isSome

/-- `len`. -/
def FutureTransactions.len (f : FutureTransactions H T) : ℕ := Multiset.card f.waiting.entries

/-- `bytes`. -/
def FutureTransactions.bytes (f : FutureTransactions H T) : ℕ :=
  StorageMap.total (fun tx : WaitingTransaction H T => tx.transaction.bytes) f.waiting

/-- `FutureTransactions::import`: a transaction still missing tags joins
the queue, waiting for each of them. -/
def FutureTransactions.import (tx : WaitingTransaction H T) : Call ε (FutureTransactions H T) Unit := do
  let f ← get
  if tx.isReady then panic
  if f.contains tx.transaction.hash then panic
  set { f with
    wantedTags := tx.missingTags.foldl (fun wanted tag =>
      wanted.insert tag (((wanted.lookup tag).getD []).insert tx.transaction.hash)) f.wantedTags,
    waiting := f.waiting.insert tx.transaction.hash tx }

/-- One tag of `satisfy_tags`: the transactions waiting for it miss it no
longer, and those left missing nothing leave the queue. -/
def FutureTransactions.satisfyTag (becameReady : List (WaitingTransaction H T)) (tag : T) :
    Call ε (FutureTransactions H T) (List (WaitingTransaction H T)) := do
  let f ← get
  match f.wantedTags.lookup tag with
  | none => pure becameReady
  | some hashes =>
      set { f with wantedTags := f.wantedTags.erase tag }
      hashes.foldlM (fun becameReady hash => do
        let f ← get
        let tx ← unwrap (f.waiting.lookup hash)
        let tx := { tx with missingTags := tx.missingTags.erase tag }
        if tx.isReady then
          set { f with waiting := f.waiting.erase hash }
          pure (becameReady ++ [tx])
        else
          set { f with waiting := f.waiting.insert hash tx }
          pure becameReady) becameReady

/-- `satisfy_tags`. -/
def FutureTransactions.satisfyTags (tags : List T) :
    Call ε (FutureTransactions H T) (List (WaitingTransaction H T)) :=
  tags.foldlM FutureTransactions.satisfyTag []

/-- `remove`: the transactions of `hashes` in the queue leave it, and the
tags they waited for stop being wanted when no one else waits. -/
def FutureTransactions.remove (hashes : List H) :
    Call ε (FutureTransactions H T) (List (Transaction H T)) :=
  hashes.foldlM (fun removed hash => do
    let f ← get
    match f.waiting.lookup hash with
    | none => pure removed
    | some waitingTx =>
        set { f with
          waiting := f.waiting.erase hash,
          wantedTags := waitingTx.missingTags.foldl (fun wanted tag =>
            match wanted.lookup tag with
            | some hashes =>
                if (hashes.erase hash).isEmpty then wanted.erase tag
                else wanted.insert tag (hashes.erase hash)
            | none => wanted) f.wantedTags }
        pure (removed ++ [waitingTx.transaction])) []

/-- `clear`: every transaction leaves the queue. The source returns them in
the map's order; here they are a multiset. -/
def FutureTransactions.clear : Call ε (FutureTransactions H T) (Multiset (Transaction H T)) := do
  let f ← get
  set (FutureTransactions.empty : FutureTransactions H T)
  pure (f.waiting.entries.map fun e => e.2.transaction)

end SocialNetwork.TransactionPool
