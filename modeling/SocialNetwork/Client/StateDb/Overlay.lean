import Mathlib
import SocialNetwork.Client.StateDb.Db
import SocialNetwork.Lib.LinearSearch

/-!
# `NonCanonicalOverlay`

`src/client/state-db/src/noncanonical.rs` keeps the blocks that are not yet
canonical, one level per block number above the last canonical block, each
with the trie nodes it inserted and deleted. The inserted values are shared
between blocks and counted (`values`); a block that is canonicalized or
discarded takes its counts back, unless the block or one of its discarded
descendants is pinned, in which case its keys wait in `pinned_insertions`
until the last pin below it is released. Every block inserted is journalled
in the meta column under `(number, index)`, its index in its level at the
time, and `new` reads the journal back after a restart.

The methods of the overlay are `Dispatch.Call`s over it whose `expect`s are
panics; `pin`, `unpin` and the reads are plain functions. The recursion of
`discard_descendants` goes one level down at each call and keeps the number
of levels, so it is bounded by the number of levels it is given; the walk of
`unpin` up the parents decrements a count of `pinned_insertions` at each step
but the last, so it is bounded by their sum; the loops of `new` read distinct
keys, so they are bounded by the size of the meta column.
-/

namespace SocialNetwork.StateDb

open Dispatch LinearSearch

/-- `BlockOverlay`: a block of the overlay, with its journal key and the
keys it inserted and deleted. -/
structure BlockOverlay (H K : Type) where
  hash : H
  journalKey : MetaKey
  inserted : List K
  deleted : List K
  deriving DecidableEq, Repr

/-- `NonCanonicalOverlay`. -/
structure NonCanonicalOverlay (H K V : Type) where
  lastCanonicalized : Option (H × ℕ)
  levels : List (List (BlockOverlay H K))
  parents : StorageMap H H
  pendingCanonicalizations : List H
  pendingInsertions : List H
  values : StorageMap K (ℕ × V)
  pinned : StorageMap H ℕ
  pinnedInsertions : StorageMap H (List K × ℕ)

variable {H K V : Type} [DecidableEq H] [DecidableEq K]

/-- `insert_values`: each inserted key counted once more, with the value it
was first inserted with. -/
def insertValues (values : StorageMap K (ℕ × V)) (inserted : List (K × V)) :
    StorageMap K (ℕ × V) :=
  inserted.foldl (fun values (k, v) =>
    match values.lookup k with
    | some (counter, value) => values.insert k (counter + 1, value)
    | none => values.insert k (1, v)) values

/-- `discard_values`: each key counted once less, and removed at zero. -/
def discardValues (values : StorageMap K (ℕ × V)) (inserted : List K) : StorageMap K (ℕ × V) :=
  inserted.foldl (fun values k =>
    match values.lookup k with
    | some (counter, value) =>
        if counter - 1 = 0 then values.erase k else values.insert k (counter - 1, value)
    | none => values) values

/-- The overlay with no blocks. -/
def NonCanonicalOverlay.empty : NonCanonicalOverlay H K V :=
  ⟨none, [], ∅, [], [], ∅, ∅, ∅⟩

/-- `front_block_number`: the number of the first level. -/
def NonCanonicalOverlay.frontBlockNumber (o : NonCanonicalOverlay H K V) : ℕ :=
  (o.lastCanonicalized.map fun (_, n) => n + 1).getD 0

/-- `last_canonicalized_block_number`, the pending canonicalizations
included. -/
def NonCanonicalOverlay.lastCanonicalizedBlockNumber (o : NonCanonicalOverlay H K V) :
    Option ℕ :=
  match o.lastCanonicalized with
  | some (_, n) => some (n + o.pendingCanonicalizations.length)
  | none =>
      if o.pendingCanonicalizations.isEmpty then none
      else some o.pendingCanonicalizations.length

/-- `have_block`: the block is in the overlay and not being canonicalized. -/
def NonCanonicalOverlay.haveBlock (o : NonCanonicalOverlay H K V) (hash : H) : Bool :=
  ((o.parents.lookup hash).isSome || decide (hash ∈ o.pendingInsertions)) &&
    !decide (hash ∈ o.pendingCanonicalizations)

section Journal

/-- The records of the level of `block` in the journal, from `index` up to
the first missing one. -/
def readLevel (journal : StorageMap MetaKey (MetaValue H K V)) (block : ℕ) :
    ℕ → ℕ → List (MetaKey × JournalRecord H K V)
  | 0, _ => []
  | fuel + 1, index =>
      match journal.lookup (.noncanonicalJournal block index) with
      | some (.noncanonicalJournal record) =>
          (.noncanonicalJournal block index, record) :: readLevel journal block fuel (index + 1)
      | _ => []

def readLevels (journal : StorageMap MetaKey (MetaValue H K V)) :
    ℕ → ℕ → List (List (MetaKey × JournalRecord H K V))
  | 0, _ => []
  | fuel + 1, block =>
      match readLevel journal block (Multiset.card journal.entries) 0 with
      | [] => []
      | level => level :: readLevels journal fuel (block + 1)

/-- `NonCanonicalOverlay::new`: the journal above the last canonical block
read back, each record a block of its level, with its parent and its
inserted values. -/
def NonCanonicalOverlay.new (db : Db H K V) : NonCanonicalOverlay H K V :=
  match db.metaData.lookup .lastCanonical with
  | some (.lastCanonical hash number) =>
      let journal := readLevels db.metaData (Multiset.card db.metaData.entries + 1) (number + 1)
      let records := journal.flatten.map Prod.snd
      { lastCanonicalized := some (hash, number),
        levels := journal.map (·.map fun (journalKey, record) =>
          ⟨record.hash, journalKey, record.inserted.map Prod.fst, record.deleted⟩),
        parents := records.foldl (fun parents record => parents.insert record.hash record.parentHash) ∅,
        pendingCanonicalizations := [],
        pendingInsertions := [],
        values := records.foldl (fun values record => insertValues values record.inserted) ∅,
        pinned := ∅,
        pinnedInsertions := ∅ }
  | _ => .empty

end Journal

section Insert

/-- `NonCanonicalOverlay::insert`: a block added to the level of its number,
after the checks that the number is in the window and the parent known, and
journalled under its index in the level. The first block of a new database
takes its parent as the last canonical block. -/
def NonCanonicalOverlay.insert (hash : H) (number : ℕ) (parentHash : H) (changeset : ChangeSet K V) :
    Call Error (NonCanonicalOverlay H K V) (CommitSet H K V) := do
  let o ← get
  let frontBlockNumber := o.frontBlockNumber
  let lastCanonical ←
    if o.levels.isEmpty ∧ o.lastCanonicalized.isNone ∧ 0 < number then do
      set { o with lastCanonicalized := some (parentHash, number - 1) }
      pure [(MetaKey.lastCanonical, MetaValue.lastCanonical parentHash (number - 1))]
    else do
      if o.lastCanonicalized.isSome then
        ensure (frontBlockNumber ≤ number ∧ number < frontBlockNumber + o.levels.length + 1)
          .invalidBlockNumber
        if number = frontBlockNumber then
          ensure (o.lastCanonicalized = some (parentHash, number - 1)) .invalidParent
        else
          ensure (o.parents.lookup parentHash).isSome .invalidParent
      pure []
  let o ← get
  -- a new level above the last, or the level of the number
  let (levels, levelIndex) :=
    if o.levels.isEmpty ∨ number = frontBlockNumber + o.levels.length then
      (o.levels ++ [[]], o.levels.length)
    else (o.levels, number - frontBlockNumber)
  let level ← unwrap levels[levelIndex]?
  let journalKey := MetaKey.noncanonicalJournal number level.length
  let overlay : BlockOverlay H K :=
    ⟨hash, journalKey, changeset.inserted.map Prod.fst, changeset.deleted⟩
  set { o with
    levels := levels.set levelIndex (level ++ [overlay]),
    parents := o.parents.insert hash parentHash,
    values := insertValues o.values changeset.inserted,
    pendingInsertions := o.pendingInsertions ++ [hash] }
  pure ⟨.empty, ⟨lastCanonical ++
    [(journalKey, .noncanonicalJournal ⟨hash, parentHash, changeset.inserted, changeset.deleted⟩)], []⟩⟩

end Insert

section Canonicalize

/-- `discard_journals`: the journal keys of the descendants of `hash` in the
levels given, each block's before its own descendants'. -/
def discardJournals (parents : StorageMap H H) :
    List (List (BlockOverlay H K)) → H → Option (List MetaKey)
  | [], _ => some []
  | level :: rest, hash =>
      level.foldlM (fun journals overlay => do
        let parent ← parents.lookup overlay.hash
        if parent = hash then
          let below ← discardJournals parents rest overlay.hash
          pure (journals ++ overlay.journalKey :: below)
        else pure journals) []

/-- `NonCanonicalOverlay::canonicalize`: a block of the first level not yet
being canonicalized becomes canonical. Its inserted values and deleted keys go
to the state column, the journals of its level and of the descendants of its
siblings are deleted, and the block is queued for `apply_pending`. -/
def NonCanonicalOverlay.canonicalize (hash : H) (commit : CommitSet H K V) :
    Call Error (NonCanonicalOverlay H K V) (CommitSet H K V) := do
  let o ← get
  let level ← okOr o.levels[o.pendingCanonicalizations.length]? .invalidBlock
  let (index, overlay) ← okOr (firstWith (fun overlay => decide (overlay.hash = hash)) level)
    .invalidBlock
  let discardedJournals ← unwrap (level.zipIdx.foldlM (fun journals (sibling, i) => do
      let below ← if i ≠ index then
          discardJournals o.parents (o.levels.drop (o.pendingCanonicalizations.length + 1)) sibling.hash
        else some []
      pure (journals ++ below ++ [sibling.journalKey])) [])
  let inserted ← unwrap (overlay.inserted.mapM fun k => (o.values.lookup k).map fun (_, v) => (k, v))
  set { o with pendingCanonicalizations := o.pendingCanonicalizations ++ [hash] }
  pure ⟨⟨commit.data.inserted ++ inserted, commit.data.deleted ++ overlay.deleted⟩,
    ⟨commit.metaData.inserted ++
        [(.lastCanonical, .lastCanonical hash (o.frontBlockNumber + o.pendingCanonicalizations.length))],
      commit.metaData.deleted ++ discardedJournals⟩⟩

/-- A block leaving the levels, with `pinnedChildren` pinned blocks among its
discarded descendants: kept in `pinned_insertions` while it or one of them is
pinned, its parent and values discarded otherwise. The count of pins it keeps
is returned. -/
def NonCanonicalOverlay.retire (overlay : BlockOverlay H K) (pinnedChildren : ℕ) :
    Call Error (NonCanonicalOverlay H K V) ℕ := do
  let o ← get
  let numPinned :=
    if (o.pinned.lookup overlay.hash).isSome then pinnedChildren + 1 else pinnedChildren
  if numPinned ≠ 0 then
    set { o with pinnedInsertions := o.pinnedInsertions.insert overlay.hash (overlay.inserted, numPinned) }
  else
    set { o with parents := o.parents.erase overlay.hash, values := discardValues o.values overlay.inserted }
  pure numPinned

/-- `discard_descendants`: the children of `hash` in the first of the levels
given leave it, each after its own descendants in the levels below; the count
of pins they keep is returned. `depth` bounds the recursion by the number of
levels. -/
def discardDescendants : ℕ → List (List (BlockOverlay H K)) → H →
    Call Error (NonCanonicalOverlay H K V) (List (List (BlockOverlay H K)) × ℕ)
  | _, [], _ => pure ([], 0)
  | 0, levels, _ => pure (levels, 0)
  | depth + 1, first :: rest, hash => do
      let (kept, rest, pinnedChildren) ← first.foldlM (fun (kept, rest, pinnedChildren) overlay => do
        let parent ← unwrap ((← get).parents.lookup overlay.hash)
        if parent = hash then
          let (rest, numPinned) ← discardDescendants depth rest overlay.hash
          let numPinned ← NonCanonicalOverlay.retire overlay numPinned
          pure (kept, rest, pinnedChildren + numPinned)
        else pure (kept ++ [overlay], rest, pinnedChildren)) ([], rest, 0)
      pure (kept :: rest, pinnedChildren)

/-- One step of `apply_canonicalizations`: the first level leaves the
overlay; the canonicalized block of it is retired, and every other block is
retired after its descendants are discarded. -/
def NonCanonicalOverlay.applyCanonicalization (hash : H) :
    Call Error (NonCanonicalOverlay H K V) Unit := do
  let o ← get
  let level :: levels := o.levels | panic
  set { o with levels := levels }
  let index ← unwrap (level.findIdx? fun overlay => decide (overlay.hash = hash))
  level.zipIdx.forM fun (overlay, i) => do
    let pinnedChildren ← if i ≠ index then do
        let levels := (← get).levels
        let (levels, pinnedChildren) ← discardDescendants levels.length levels overlay.hash
        modify fun o => { o with levels := levels }
        pure pinnedChildren
      else pure 0
    discard (NonCanonicalOverlay.retire overlay pinnedChildren)

/-- `apply_canonicalizations`. -/
def NonCanonicalOverlay.applyCanonicalizations : Call Error (NonCanonicalOverlay H K V) Unit := do
  let o ← get
  let count := o.pendingCanonicalizations.length
  o.pendingCanonicalizations.forM NonCanonicalOverlay.applyCanonicalization
  modify fun o => { o with pendingCanonicalizations := [] }
  if let some hash := o.pendingCanonicalizations.getLast? then
    modify fun o' => { o' with
      lastCanonicalized := some (hash, (o.lastCanonicalized.map fun (_, n) => n + count).getD (count - 1)) }

end Canonicalize

section Revert

/-- `revert_one`: the last level leaves the overlay, with its parents and
values, and its journals are deleted. -/
def NonCanonicalOverlay.revertOne : Call Error (NonCanonicalOverlay H K V) (Option (CommitSet H K V)) := do
  let o ← get
  match o.levels.getLast? with
  | none => pure none
  | some level =>
      set { o with
        levels := o.levels.dropLast,
        parents := level.foldl (fun parents (overlay : BlockOverlay H K) => parents.erase overlay.hash)
          o.parents,
        values := level.foldl (fun values (overlay : BlockOverlay H K) => discardValues values overlay.inserted)
          o.values }
      pure (some ⟨.empty, ⟨[], level.map (·.journalKey)⟩⟩)

/-- `levels.iter().position(|level| level.last().expect(..).hash == hash)`. -/
def levelWithLast {σ : Type} (hash : H) : List (List (BlockOverlay H K)) → Call Error σ (Option ℕ)
  | [] => pure none
  | level :: levels => do
      let last ← unwrap level.getLast?
      if last.hash = hash then pure (some 0)
      else (·.map (· + 1)) <$> levelWithLast hash levels

/-- One step of `revert_insertions`: a block inserted since the last
`apply_pending` leaves the end of its level, with its parent and values;
an emptied level is popped from the back. -/
def NonCanonicalOverlay.revertInsertion (hash : H) : Call Error (NonCanonicalOverlay H K V) Unit := do
  modify fun o => { o with parents := o.parents.erase hash }
  let o ← get
  let levelIndex ← unwrap (← levelWithLast hash o.levels)
  let level ← unwrap o.levels[levelIndex]?
  let overlay ← unwrap level.getLast?
  let levels := o.levels.set levelIndex level.dropLast
  set { o with
    levels := if level.dropLast.isEmpty then levels.dropLast else levels,
    values := discardValues o.values overlay.inserted }

/-- `revert_insertions`: the blocks inserted since the last `apply_pending`,
last first. -/
def NonCanonicalOverlay.revertInsertions : Call Error (NonCanonicalOverlay H K V) Unit := do
  let o ← get
  set { o with pendingInsertions := [] }
  o.pendingInsertions.reverse.forM NonCanonicalOverlay.revertInsertion

/-- `apply_pending`. -/
def NonCanonicalOverlay.applyPending : Call Error (NonCanonicalOverlay H K V) Unit := do
  NonCanonicalOverlay.applyCanonicalizations
  modify fun o => { o with pendingInsertions := [] }

/-- `revert_pending`. -/
def NonCanonicalOverlay.revertPending : Call Error (NonCanonicalOverlay H K V) Unit := do
  modify fun o => { o with pendingCanonicalizations := [] }
  NonCanonicalOverlay.revertInsertions

end Revert

section Pin

/-- `pin`: one more pin on a block not inserted since the last
`apply_pending`. -/
def NonCanonicalOverlay.pin (o : NonCanonicalOverlay H K V) (hash : H) : NonCanonicalOverlay H K V :=
  if hash ∈ o.pendingInsertions then o else { o with pinned := o.pinned.addRef hash }

/-- The walk of `unpin` up the parents from `hash`: each block met in
`pinned_insertions` keeps one pin less, and is discarded when it keeps none;
the walk stops at the first block that is not there. -/
def NonCanonicalOverlay.releasePinned : ℕ → NonCanonicalOverlay H K V → H → NonCanonicalOverlay H K V
  | 0, o, _ => o
  | fuel + 1, o, hash =>
      let parent := o.parents.lookup hash
      match o.pinnedInsertions.lookup hash with
      | none => o
      | some (inserted, count) =>
          let o := if count - 1 = 0 then
              { o with
                pinnedInsertions := o.pinnedInsertions.erase hash,
                values := discardValues o.values inserted,
                parents := o.parents.erase hash }
            else { o with pinnedInsertions := o.pinnedInsertions.insert hash (inserted, count - 1) }
          match parent with
          | some parent => NonCanonicalOverlay.releasePinned fuel o parent
          | none => o

/-- `unpin`: one pin less on a block; when none is left, the blocks that
were kept for it are released. -/
def NonCanonicalOverlay.unpin (o : NonCanonicalOverlay H K V) (hash : H) : NonCanonicalOverlay H K V :=
  let (pinned, removed) := o.pinned.releaseRef hash
  let o' := { o with pinned := pinned }
  if removed then
    NonCanonicalOverlay.releasePinned (StorageMap.total Prod.snd o.pinnedInsertions + 1) o' hash
  else o'

end Pin

/-- `NonCanonicalOverlay::get`: the value of a key inserted by a block of the
overlay. -/
def NonCanonicalOverlay.get (o : NonCanonicalOverlay H K V) (key : K) : Option V :=
  (o.values.lookup key).map Prod.snd

end SocialNetwork.StateDb
