import Mathlib
import SocialNetwork.Lib.StorageMap
import SocialNetwork.Lib.Dispatch

/-!
# The database under `sc_state_db`

`src/client/state-db/src/lib.rs` keeps the state of recent blocks in memory
and hands the client `CommitSet`s to write to its database: trie nodes to
insert and delete in the `STATE` column, and the crate's own records (the
journals of the non-canonical blocks and of the pruning window, the last
canonical and last pruned blocks, the pruning mode) in the `STATE_META`
column. `apply_state_commit` of `src/client/db/src/lib.rs` writes a commit:
the inserted entries of a column, then its deletions.

A meta key is `to_meta_key(suffix, data)`, the encoding of `data` followed by
a suffix of its own; the crate's suffixes and the fixed widths of what it
encodes make distinct arguments give distinct keys, so a key is modelled by
what it encodes. A meta value is the record the crate encodes there, and
decoding gives it back.
-/

namespace SocialNetwork.StateDb

/-- `state_db::Error`, without the database and decoding errors of a store
that cannot fail. -/
inductive Error where
  | invalidBlock
  | invalidBlockNumber
  | invalidParent
  deriving DecidableEq, Repr

/-- `ChangeSet`: the entries a commit writes to a column and the keys it
deletes. -/
structure ChangeSet (K V : Type) where
  inserted : List (K × V)
  deleted : List K
  deriving DecidableEq, Repr

/-- `ChangeSet::default()`. -/
def ChangeSet.empty {K V : Type} : ChangeSet K V := ⟨[], []⟩

/-- The keys of the meta column. -/
inductive MetaKey where
  /-- `to_meta_key(LAST_CANONICAL, &())` -/
  | lastCanonical
  /-- `to_journal_key(block, index)` of the non-canonical overlay -/
  | noncanonicalJournal (block index : ℕ)
  /-- `to_meta_key(LAST_PRUNED, &())` -/
  | lastPruned
  /-- `to_journal_key(block)` of the pruning window -/
  | pruningJournal (block : ℕ)
  /-- `to_meta_key(PRUNING_MODE, &())` -/
  | mode
  deriving DecidableEq, Repr

/-- The `JournalRecord` of a non-canonical block. -/
structure JournalRecord (H K V : Type) where
  hash : H
  parentHash : H
  inserted : List (K × V)
  deleted : List K
  deriving DecidableEq, Repr

/-- The values of the meta column. -/
inductive MetaValue (H K V : Type) where
  /-- the last canonical block, `(hash, number)` -/
  | lastCanonical (hash : H) (number : ℕ)
  | noncanonicalJournal (record : JournalRecord H K V)
  /-- the number of the last pruned block -/
  | lastPruned (number : ℕ)
  /-- the `JournalRecord` of the pruning window: a canonical block's inserted
  and deleted keys -/
  | pruningJournal (hash : H) (inserted deleted : List K)
  /-- the `id()` of the pruning mode -/
  | mode (id : String)
  deriving DecidableEq, Repr

/-- `CommitSet`: the changes to the state column and to the meta column
(`meta` in the source, a keyword of Lean). -/
structure CommitSet (H K V : Type) where
  data : ChangeSet K V
  metaData : ChangeSet MetaKey (MetaValue H K V)
  deriving DecidableEq, Repr

/-- `CommitSet::default()`. -/
def CommitSet.empty {H K V : Type} : CommitSet H K V := ⟨.empty, .empty⟩

/-- The two columns of the client's database. -/
structure Db (H K V : Type) where
  data : StorageMap K V
  metaData : StorageMap MetaKey (MetaValue H K V)

variable {H K V : Type} [DecidableEq K]

/-- One column of `apply_state_commit`: the inserted entries in order, then
the deletions. -/
def ChangeSet.applyTo {κ ν : Type} [DecidableEq κ] (c : ChangeSet κ ν) (m : StorageMap κ ν) :
    StorageMap κ ν :=
  c.deleted.foldl (fun m k => m.erase k) (c.inserted.foldl (fun m e => m.insert e.1 e.2) m)

/-- `apply_state_commit`. -/
def Db.commit (db : Db H K V) (c : CommitSet H K V) : Db H K V :=
  ⟨c.data.applyTo db.data, c.metaData.applyTo db.metaData⟩

/-- An empty database. -/
def Db.empty : Db H K V := ⟨∅, ∅⟩

end SocialNetwork.StateDb
