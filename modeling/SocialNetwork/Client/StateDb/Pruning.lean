import Mathlib
import SocialNetwork.Client.StateDb.Db

/-!
# `RefWindow`

`src/client/state-db/src/pruning.rs` keeps the window of canonical blocks
whose deleted trie nodes are not yet deleted from the database: a death row
per block, in order from `pending_number`. Pruning a block deletes the keys of
its row. With `count_insertions`, a key a later canonical block inserts again
is taken out of the row that would delete it, found through `death_index`,
which maps a key to the block of the row holding it.

The methods are `Dispatch.Call`s over the window whose `expect`s and index
accesses are panics. A row's `HashSet` of keys is a list without duplicates,
and the order the pruning commit lists them in is that list's.
-/

namespace SocialNetwork.StateDb

open Dispatch

/-- `DeathRow`: the keys a canonical block deleted, deleted from the
database when the block is pruned. -/
structure DeathRow (H K : Type) where
  hash : H
  journalKey : MetaKey
  deleted : List K
  deriving DecidableEq, Repr

/-- `RefWindow`. -/
structure RefWindow (H K : Type) where
  deathRows : List (DeathRow H K)
  deathIndex : StorageMap K ℕ
  pendingNumber : ℕ
  pendingCanonicalizations : ℕ
  pendingPrunings : ℕ
  countInsertions : Bool

variable {H K V : Type} [DecidableEq K]

/-- A window with no blocks, the first to prune being block `0`. -/
def RefWindow.empty (countInsertions : Bool) : RefWindow H K := ⟨[], ∅, 0, 0, 0, countInsertions⟩

/-- `window_size`: the blocks not yet pruned. -/
def RefWindow.windowSize (w : RefWindow H K) : ℕ := w.deathRows.length - w.pendingPrunings

/-- `next_hash`: the next block to prune. -/
def RefWindow.nextHash (w : RefWindow H K) : Option H := (w.deathRows[w.pendingPrunings]?).map (·.hash)

/-- `mem_used`, which this version does not measure. -/
def RefWindow.memUsed (_ : RefWindow H K) : ℕ := 0

/-- `pending`: the number of the next block to prune. -/
def RefWindow.pending (w : RefWindow H K) : ℕ := w.pendingNumber + w.pendingPrunings

/-- `have_block`: the block is in the window and not being pruned. -/
def RefWindow.haveBlock [DecidableEq H] (w : RefWindow H K) (hash : H) : Bool :=
  (w.deathRows.drop w.pendingPrunings).any fun r => decide (r.hash = hash)

def RefWindow.rescue (k : K) : Call Error (RefWindow H K) Unit := do
  let w ← get
  match w.deathIndex.lookup k with
  | some block =>
      set { w with deathIndex := w.deathIndex.erase k }
      let row ← unwrap (if w.pendingNumber ≤ block then w.deathRows[block - w.pendingNumber]? else none)
      modify fun w => { w with
        deathRows := w.deathRows.set (block - w.pendingNumber) { row with deleted := row.deleted.erase k } }
  | none => pure ()

/-- `import`: the death row of a canonical block added at the end of the
window. With `count_insertions`, the keys it inserts leave the rows that
would delete them, and the keys it deletes are indexed at its row. -/
def RefWindow.import (hash : H) (journalKey : MetaKey) (inserted deleted : List K) :
    Call Error (RefWindow H K) Unit := do
  if (← get).countInsertions then
    inserted.forM RefWindow.rescue
    let w ← get
    let importedBlock := w.pendingNumber + w.deathRows.length
    set { w with deathIndex := deleted.foldl (fun index k => index.insert k importedBlock) w.deathIndex }
  modify fun w => { w with deathRows := w.deathRows ++ [⟨hash, journalKey, deleted.dedup⟩] }

/-- `prune_one`: the keys of the next row to prune deleted, and its journal
with them. -/
def RefWindow.pruneOne (commit : CommitSet H K V) : Call Error (RefWindow H K) (CommitSet H K V) := do
  let w ← get
  match w.deathRows[w.pendingPrunings]? with
  | some pruned =>
      set { w with pendingPrunings := w.pendingPrunings + 1 }
      pure ⟨⟨commit.data.inserted, commit.data.deleted ++ pruned.deleted⟩,
        ⟨commit.metaData.inserted ++ [(.lastPruned, .lastPruned (w.pendingNumber + w.pendingPrunings))],
          commit.metaData.deleted ++ [pruned.journalKey]⟩⟩
  | none => pure commit

/-- `note_canonical`: a canonical block's deletions taken out of its commit
into a new death row, journalled. -/
def RefWindow.noteCanonical (hash : H) (commit : CommitSet H K V) :
    Call Error (RefWindow H K) (CommitSet H K V) := do
  let w ← get
  let inserted := if w.countInsertions then commit.data.inserted.map Prod.fst else []
  let deleted := commit.data.deleted
  let journalKey := MetaKey.pruningJournal (w.pendingNumber + w.deathRows.length)
  RefWindow.import hash journalKey inserted deleted
  modify fun w => { w with pendingCanonicalizations := w.pendingCanonicalizations + 1 }
  pure ⟨⟨commit.data.inserted, []⟩,
    ⟨commit.metaData.inserted ++ [(journalKey, .pruningJournal hash inserted deleted)],
      commit.metaData.deleted⟩⟩

/-- One row of `apply_pending`: the first row leaves the window, and its keys
leave `death_index`. -/
def RefWindow.popPruned : Call Error (RefWindow H K) Unit := do
  let w ← get
  let pruned :: rows := w.deathRows | panic
  set { w with
    deathRows := rows,
    deathIndex := if w.countInsertions then pruned.deleted.foldl (fun index k => index.erase k) w.deathIndex
      else w.deathIndex,
    pendingNumber := w.pendingNumber + 1 }

/-- `apply_pending`. -/
def RefWindow.applyPending : Call Error (RefWindow H K) Unit := do
  let w ← get
  set { w with pendingCanonicalizations := 0 }
  (List.range w.pendingPrunings).forM fun _ => RefWindow.popPruned
  modify fun w => { w with pendingPrunings := 0 }

/-- `revert_pending`: the rows noted since the last `apply_pending` leave
the window, and `death_index` keeps only the rows left. -/
def RefWindow.revertPending (w : RefWindow H K) : RefWindow H K :=
  let deathRows := w.deathRows.take (w.deathRows.length - w.pendingCanonicalizations)
  { w with
    deathRows := deathRows,
    deathIndex := if w.countInsertions then
        w.deathIndex.retain fun _ block => decide (block < deathRows.length + w.pendingNumber)
      else w.deathIndex,
    pendingCanonicalizations := 0,
    pendingPrunings := 0 }

end SocialNetwork.StateDb
