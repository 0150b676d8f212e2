import Mathlib
import SocialNetwork.Client.StateDb.Overlay
import SocialNetwork.Client.StateDb.Pruning

/-!
# `StateDbSync`

`src/client/state-db/src/lib.rs` puts the non-canonical overlay and, in the
constrained mode, the pruning window together behind one lock (`StateDb`,
whose methods take the lock and call these). Canonicalizing a block commits
its changes, notes its deletions in the window and prunes the window down to
`max_blocks`, stopping at a pinned block. Pins are counted here as well as in
the overlay, which sees only the first pin and the last unpin of a block.
Reads go to the overlay first and then to the database.

`StateDbSync::new` and the memory statistics are not modelled: the runs here
start from a new database, and `mem_used` is `0` in this version.
-/

namespace SocialNetwork.StateDb

open Dispatch

/-- `PruningMode`, with the `Constraints` of the constrained mode. -/
inductive PruningMode where
  | constrained (maxBlocks : Option ℕ) (maxMem : Option ℕ)
  | archiveAll
  | archiveCanonical
  deriving DecidableEq, Repr

/-- `PruningMode::id`. -/
def PruningMode.id : PruningMode → String
  | .archiveAll => "archive"
  | .archiveCanonical => "archive_canonical"
  | .constrained _ _ => "constrained"

/-- `PinError`. -/
inductive PinError where
  | invalidBlock
  deriving DecidableEq, Repr

/-- `StateDbSync`. -/
structure StateDbSync (H K V : Type) where
  mode : PruningMode
  nonCanonical : NonCanonicalOverlay H K V
  pruning : Option (RefWindow H K)
  pinned : StorageMap H ℕ

variable {H K V : Type} [DecidableEq H] [DecidableEq K]

def StateDbSync.onOverlay {α : Type} (m : Call Error (NonCanonicalOverlay H K V) α) :
    Call Error (StateDbSync H K V) α :=
  zoom (·.nonCanonical) (fun s o => { s with nonCanonical := o }) m

def StateDbSync.onWindow {α : Type} (w : RefWindow H K) (m : Call Error (RefWindow H K) α) :
    Call Error (StateDbSync H K V) α :=
  zoom (·.pruning.getD w) (fun s w => { s with pruning := some w }) m

/-- The database of a new node in mode `mode`. -/
def StateDbSync.empty (mode : PruningMode) (refCounting : Bool) : StateDbSync H K V :=
  ⟨mode, .empty, (match mode with
    | .constrained _ _ => some (RefWindow.empty refCounting)
    | _ => none), ∅⟩

/-- `insert_block`: in the archive mode the block's changes are written at
once, its deletions dropped; otherwise it joins the overlay. The first block
also records the mode. -/
def StateDbSync.insertBlock (hash : H) (number : ℕ) (parentHash : H) (changeset : ChangeSet K V) :
    Call Error (StateDbSync H K V) (CommitSet H K V) := do
  let s ← get
  let modeRecord := if number = 0 then [(MetaKey.mode, MetaValue.mode s.mode.id)] else []
  match s.mode with
  | .archiveAll => pure ⟨⟨changeset.inserted, []⟩, ⟨modeRecord, []⟩⟩
  | _ => do
      let commit ← StateDbSync.onOverlay (NonCanonicalOverlay.insert hash number parentHash changeset)
      pure ⟨commit.data, ⟨commit.metaData.inserted ++ modeRecord, commit.metaData.deleted⟩⟩

/-- The loop of `prune`: blocks pruned while the window is larger than
`max_blocks` and the next block is not pinned. Each iteration prunes a block
of the window or stops, so the window's size bounds it. -/
def StateDbSync.pruneLoop (maxBlocks maxMem : Option ℕ) :
    ℕ → CommitSet H K V → Call Error (StateDbSync H K V) (CommitSet H K V)
  | 0, commit => pure commit
  | fuel + 1, commit => do
      let s ← get
      match s.pruning with
      | none => pure commit
      | some w =>
          if w.windowSize ≤ maxBlocks.getD 0 then pure commit
          else if maxMem.any (fun m => decide (m < w.memUsed)) then pure commit
          else if (w.nextHash.map fun h => (s.pinned.lookup h).isSome).getD false then pure commit
          else do
            let commit ← StateDbSync.onWindow w (RefWindow.pruneOne commit)
            StateDbSync.pruneLoop maxBlocks maxMem fuel commit

/-- `prune`. -/
def StateDbSync.prune (commit : CommitSet H K V) : Call Error (StateDbSync H K V) (CommitSet H K V) := do
  let s ← get
  match s.pruning, s.mode with
  | some w, .constrained maxBlocks maxMem =>
      StateDbSync.pruneLoop maxBlocks maxMem (w.windowSize + 1) commit
  | _, _ => pure commit

/-- `canonicalize_block`: a no-op in the archive mode; otherwise the block is
canonicalized in the overlay (its deletions dropped in the canonical archive
mode), noted in the window, and the window pruned. -/
def StateDbSync.canonicalizeBlock (hash : H) : Call Error (StateDbSync H K V) (CommitSet H K V) := do
  let s ← get
  if s.mode = .archiveAll then pure .empty
  else do
    let commit ← StateDbSync.onOverlay (NonCanonicalOverlay.canonicalize hash .empty)
    let commit :=
      if s.mode = .archiveCanonical then ⟨⟨commit.data.inserted, []⟩, commit.metaData⟩ else commit
    let commit ← match s.pruning with
      | some w => StateDbSync.onWindow w (RefWindow.noteCanonical hash commit)
      | none => pure commit
    StateDbSync.prune commit

/-- `best_canonical`. -/
def StateDbSync.bestCanonical (s : StateDbSync H K V) : Option ℕ :=
  s.nonCanonical.lastCanonicalizedBlockNumber

/-- `is_pruned`. -/
def StateDbSync.isPruned (s : StateDbSync H K V) (hash : H) (number : ℕ) : Bool :=
  match s.mode with
  | .archiveAll => false
  | _ =>
      if (s.bestCanonical.map fun c => decide (c < number)).getD true then
        !s.nonCanonical.haveBlock hash
      else
        (s.pruning.map fun w => decide (number < w.pending) || !w.haveBlock hash).getD false

/-- `revert_one`. -/
def StateDbSync.revertOne : Call Error (StateDbSync H K V) (Option (CommitSet H K V)) := do
  match (← get).mode with
  | .archiveAll => pure (some .empty)
  | _ => StateDbSync.onOverlay NonCanonicalOverlay.revertOne

/-- `pin`: a block of the overlay or of the window gets one more pin; the
overlay is told of the first. -/
def StateDbSync.pin (hash : H) : Call PinError (StateDbSync H K V) Unit := do
  let s ← get
  match s.mode with
  | .archiveAll => pure ()
  | _ =>
      if s.nonCanonical.haveBlock hash || (s.pruning.map (·.haveBlock hash)).getD false then
        set { s with
          pinned := s.pinned.addRef hash,
          nonCanonical := if (s.pinned.lookup hash).getD 0 = 0 then s.nonCanonical.pin hash
            else s.nonCanonical }
      else fail .invalidBlock

/-- `unpin`: one pin less; the overlay is told of the last. -/
def StateDbSync.unpin (s : StateDbSync H K V) (hash : H) : StateDbSync H K V :=
  let (pinned, removed) := s.pinned.releaseRef hash
  { s with pinned := pinned, nonCanonical := if removed then s.nonCanonical.unpin hash else s.nonCanonical }

/-- `apply_pending`. -/
def StateDbSync.applyPending : Call Error (StateDbSync H K V) Unit := do
  StateDbSync.onOverlay NonCanonicalOverlay.applyPending
  match (← get).pruning with
  | some w => StateDbSync.onWindow w RefWindow.applyPending
  | none => pure ()

/-- `revert_pending`. -/
def StateDbSync.revertPending : Call Error (StateDbSync H K V) Unit := do
  modify fun s => { s with pruning := s.pruning.map RefWindow.revertPending }
  StateDbSync.onOverlay NonCanonicalOverlay.revertPending

/-- `StateDbSync::get`: the overlay's value of a key, or the database's. -/
def StateDbSync.get (s : StateDbSync H K V) (key : K) (db : Db H K V) : Option V :=
  match s.nonCanonical.get key with
  | some value => some value
  | none => db.data.lookup key

end SocialNetwork.StateDb
