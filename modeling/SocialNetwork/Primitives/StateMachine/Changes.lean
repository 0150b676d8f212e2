import SocialNetwork.Primitives.StateMachine.Changeset

/-!
# The overlayed changes of a block

`OverlayedChanges` (overlayed_changes/mod.rs) holds three kinds of overlay:
the change set of the top storage, one change set per child trie under its
storage key, spawned at the top's depth on the child's first write, and the
overlay of the offchain storage (overlayed_changes/offchain.rs). A transaction
call goes to all of them, the top first: the top's error is the call's, and
every other overlay `expect`s the same call to succeed, since they were
"started in lockstep". A rollback drops the children it leaves with no change
(`retain_map`).

A write records the index of the extrinsic that makes it, read from the
`:extrinsic_index` entry of the top storage, when extrinsics are collected.
The statistics of reads and writes (`StateMachineStats`) are left out: no
call reads them. So are the backend's storage root and changes trie, which
`drain_storage_changes` computes before it drains the overlays.
-/

namespace SocialNetwork.StateMachine

open Dispatch

/-- `ChildInfo::ParentKeyId`: a default child trie, known by its storage key. -/
structure ChildInfo where
  data : StorageKey
deriving DecidableEq

def ChildInfo.storageKey (self : ChildInfo) : StorageKey := self.data

/-- `OffchainOverlayedChange`. -/
inductive OffchainOverlayedChange where
  | remove
  | setValue (value : StorageValue)
deriving DecidableEq

abbrev OffchainKey := Lex (StorageKey × StorageKey)

/-- `OffchainOverlayedChanges`. -/
abbrev OffchainOverlayedChanges := OverlayedMap OffchainKey OffchainOverlayedChange

def storagePrefix : StorageKey := [115, 116, 111, 114, 97, 103, 101]

def extrinsicIndexKey : StorageKey := [58, 101, 120, 116, 114, 105, 110, 115, 105, 99, 95, 105, 110, 100, 101, 120]

/-- `NO_EXTRINSIC_INDEX`. -/
def noExtrinsicIndex : ℕ := 0xffffffff

namespace OffchainOverlayedChanges

/-- `OffchainOverlayedChanges::remove`. -/
def remove (self : OffchainOverlayedChanges) (keyPrefix key : StorageKey) : OffchainOverlayedChanges :=
  OverlayedMap.set self (toLex (α := StorageKey × StorageKey) (keyPrefix, key)) .remove none

/-- `OffchainOverlayedChanges::set`. -/
def set (self : OffchainOverlayedChanges) (keyPrefix key value : StorageKey) : OffchainOverlayedChanges :=
  OverlayedMap.set self (toLex (α := StorageKey × StorageKey) (keyPrefix, key)) (.setValue value) none

/-- `OffchainOverlayedChanges::get`: the current change of the key; it panics
on an entry with no version (`value_ref`). -/
def get (keyPrefix key : StorageKey) :
    Call Error OffchainOverlayedChanges (Option OffchainOverlayedChange) := do
  let self ← MonadState.get
  (OverlayedMap.get self (toLex (α := StorageKey × StorageKey) (keyPrefix, key))).mapM fun entry =>
    unwrap entry.valueRef

end OffchainOverlayedChanges

/-- `OverlayedChanges`: the change sets of the top storage and of each child
trie by its storage key, the offchain overlay, and whether the extrinsics
that make the changes are collected. -/
structure OverlayedChanges where
  top : OverlayedChangeSet
  children : OrderedMap StorageKey (OverlayedChangeSet × ChildInfo)
  offchain : OffchainOverlayedChanges
  collectExtrinsics : Bool

abbrev ChangesCall := Call Error OverlayedChanges

/-- The changes of `StorageChanges`: those of the top storage, of each child
trie, and of the offchain storage. The backend's transaction, its root and
the changes trie are left out. -/
structure StorageChanges where
  mainStorageChanges : List (StorageKey × Option StorageValue)
  childStorageChanges : List (StorageKey × List (StorageKey × Option StorageValue))
  offchainStorageChanges : List (OffchainKey × OffchainOverlayedChange)

namespace OverlayedChanges

/-- `OverlayedChanges::default`. -/
def empty : OverlayedChanges := ⟨.empty, .empty, .empty, false⟩

/-- `is_empty`: no change in the top storage and no child change set. -/
def isEmpty (self : OverlayedChanges) : Bool := self.top.isEmpty && self.children.entries.isEmpty

/-- `set_collect_extrinsics`. -/
def setCollectExtrinsics (self : OverlayedChanges) (collectExtrinsics : Bool) : OverlayedChanges :=
  { self with collectExtrinsics }

def onTop {α : Type} (m : MapCall StorageKey (Option StorageValue) α) : ChangesCall α :=
  zoom (·.top) (fun self top => { self with top }) m

/-- `storage`: `none` where the top has no entry for the key, its current
value otherwise; it panics on an entry with no version (`value_ref`). -/
def storage (key : StorageKey) : ChangesCall (Option (Option StorageValue)) := do
  let self ← get
  (self.top.get key).mapM fun x => unwrap x.valueRef

/-- `child_storage`. -/
def childStorage (childInfo : ChildInfo) (key : StorageKey) : ChangesCall (Option (Option StorageValue)) := do
  let self ← get
  ((self.children.get? childInfo.storageKey).bind fun child => child.1.get key).mapM fun x => unwrap x.valueRef

section ExtrinsicIndex

/- `u32::decode` of parity-scale-codec, which `extrinsic_index` reads the
stored index with, is not part of this repository: it is taken as given. -/
variable (decodeU32 : List (Fin 256) → Option ℕ)

/-- `extrinsic_index`: with extrinsics collected, the index stored at
`:extrinsic_index`, or `NO_EXTRINSIC_INDEX` where there is none or it does
not decode; `none` where they are not collected. -/
def extrinsicIndex : ChangesCall (Option ℕ) := do
  let self ← get
  if self.collectExtrinsics then
    let idx ← storage extrinsicIndexKey
    pure (some ((idx.bind fun idx => idx.bind decodeU32).getD noExtrinsicIndex))
  else pure none

/-- `value_mut_or_insert_with`, and the write the caller makes through the
reference it returns: `modify` of the top, a deleted value read as empty
(`get_or_insert_with(Default::default)`). -/
def valueMutOrInsertWith (key : StorageKey) (init : StorageValue) (update : StorageValue → StorageValue) :
    ChangesCall Unit := do
  let extrinsicIndex ← extrinsicIndex decodeU32
  onTop (OverlayedChangeSet.modify key init extrinsicIndex fun value => some (update (value.getD [])))

/-- `set_storage`. -/
def setStorage (key : StorageKey) (val : Option StorageValue) : ChangesCall Unit := do
  let extrinsicIndex ← extrinsicIndex decodeU32
  modify fun self => { self with top := self.top.set key val extrinsicIndex }

/-- `children.entry(storage_key).or_insert_with(..)`: the child change set of
`childInfo`, spawned from the top where there is none. -/
def childEntry (self : OverlayedChanges) (childInfo : ChildInfo) : OverlayedChangeSet × ChildInfo :=
  (self.children.get? childInfo.storageKey).getD (self.top.spawnChild, childInfo)

def updateChild (self : OverlayedChanges) (childInfo : ChildInfo) (f : OverlayedChangeSet → OverlayedChangeSet) :
    OverlayedChanges :=
  let child := self.childEntry childInfo
  { self with children := self.children.insert childInfo.storageKey (f child.1, child.2) }

/-- `set_child_storage`. -/
def setChildStorage (childInfo : ChildInfo) (key : StorageKey) (val : Option StorageValue) : ChangesCall Unit := do
  let extrinsicIndex ← extrinsicIndex decodeU32
  modify fun self => self.updateChild childInfo fun changeset => changeset.set key val extrinsicIndex

/-- `clear_child_storage`. -/
def clearChildStorage (childInfo : ChildInfo) : ChangesCall Unit := do
  let extrinsicIndex ← extrinsicIndex decodeU32
  modify fun self => self.updateChild childInfo fun changeset =>
    OverlayedChangeSet.clearWhere changeset (fun _ _ => true) extrinsicIndex

/-- `clear_prefix`. -/
def clearPrefix (keyPrefix : StorageKey) : ChangesCall Unit := do
  let extrinsicIndex ← extrinsicIndex decodeU32
  modify fun self =>
    { self with top := OverlayedChangeSet.clearWhere self.top (fun key _ => keyPrefix.isPrefixOf key) extrinsicIndex }

/-- `clear_child_prefix`. -/
def clearChildPrefix (childInfo : ChildInfo) (keyPrefix : StorageKey) : ChangesCall Unit := do
  let extrinsicIndex ← extrinsicIndex decodeU32
  modify fun self => self.updateChild childInfo fun changeset =>
    OverlayedChangeSet.clearWhere changeset (fun key _ => keyPrefix.isPrefixOf key) extrinsicIndex

end ExtrinsicIndex

/-- `transaction_depth`: the top's, the others moving in lockstep with it. -/
def transactionDepth (self : OverlayedChanges) : ℕ := self.top.transactionDepth

/-- `start_transaction`. -/
def startTransaction (self : OverlayedChanges) : OverlayedChanges :=
  { self with
    top := self.top.startTransaction,
    children := self.children.mapValues fun child => (child.1.startTransaction, child.2),
    offchain := self.offchain.startTransaction }

/-- A transaction call in lockstep: the top's call, whose error is the call's,
then the same call on each child and on the offchain overlay, each of which
panics on an error (`expect`). -/
def lockstep (call : MapCall StorageKey (Option StorageValue) Unit)
    (offchainCall : MapCall OffchainKey OffchainOverlayedChange Unit) : ChangesCall Unit := do
  onTop call
  let self ← get
  let children ← unwrap (self.children.traverse fun child => (okStore call child.1).map (·, child.2))
  let offchain ← unwrap (okStore offchainCall self.offchain)
  set { self with children, offchain }

/-- `rollback_transaction`: the children it leaves with no change are dropped
(`retain_map`). -/
def rollbackTransaction : ChangesCall Unit := do
  onTop OverlayedMap.rollbackTransaction
  let self ← get
  let children ← unwrap (self.children.traverse fun child =>
    (okStore OverlayedMap.rollbackTransaction child.1).map (·, child.2))
  let offchain ← unwrap (okStore OverlayedMap.rollbackTransaction self.offchain)
  set { self with children := children.filter fun _ child => !child.1.isEmpty, offchain }

/-- `commit_transaction`. -/
def commitTransaction : ChangesCall Unit := lockstep OverlayedMap.commitTransaction OverlayedMap.commitTransaction

/-- `enter_runtime`. -/
def enterRuntime : ChangesCall Unit := lockstep OverlayedMap.enterRuntime OverlayedMap.enterRuntime

/-- `exit_runtime`. -/
def exitRuntime : ChangesCall Unit := lockstep OverlayedMap.exitRuntime OverlayedMap.exitRuntime

/-- The changes `drain_storage_changes` drains, and the overlays it leaves
empty: those of the top (`drain_committed`, which panics while a transaction
is open), of each child (which panics likewise as its iterator is collected)
and of the offchain overlay (`offchain_drain_committed`, which takes each
current value). -/
def drainStorageChanges : ChangesCall StorageChanges := do
  let self ← get
  let mainStorageChanges ← onTop OverlayedMap.drainCommited
  -- each child is drained on its own and dropped with the map
  let childStorageChanges ← self.children.entries.mapM fun e => do
    let changes ← zoom (fun _ => e.2.1) (fun self _ => self) OverlayedMap.drainCommited
    pure (e.1, changes)
  let offchainStorageChanges ← self.offchain.changes.entries.mapM fun e => do
    let value ← unwrap e.2.valueRef
    pure (e.1, value)
  set { self with top := OverlayedMap.empty, children := OrderedMap.empty, offchain := OverlayedMap.empty }
  pure ⟨mainStorageChanges, childStorageChanges, offchainStorageChanges⟩

/-- `next_storage_key_change`. -/
def nextStorageKeyChange (self : OverlayedChanges) (key : StorageKey) :
    Option (StorageKey × OverlayedEntry (Option StorageValue)) :=
  OverlayedChangeSet.nextChange self.top key

/-- `next_child_storage_key_change`. -/
def nextChildStorageKeyChange (self : OverlayedChanges) (storageKey key : StorageKey) :
    Option (StorageKey × OverlayedEntry (Option StorageValue)) :=
  (self.children.get? storageKey).bind fun child => OverlayedChangeSet.nextChange child.1 key

/-- `set_offchain_storage`: a value is set under `STORAGE_PREFIX`, a `None`
removes it. -/
def setOffchainStorage (self : OverlayedChanges) (key : StorageKey) (value : Option StorageValue) :
    OverlayedChanges :=
  { self with offchain := match value with
      | some value => self.offchain.set storagePrefix key value
      | none => self.offchain.remove storagePrefix key }

end OverlayedChanges

end SocialNetwork.StateMachine
