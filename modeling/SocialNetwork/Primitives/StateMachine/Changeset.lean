import SocialNetwork.Lib.Dispatch
import SocialNetwork.Lib.OrderedMap

/-!
# The transactional overlay of storage changes

`src/primitives/state-machine/src/overlayed_changes/changeset.rs` keeps the
changes a block makes to storage, under nested transactions that the client
and the runtime open and close. For each key the map keeps one version per
transaction that wrote it (`OverlayedEntry`); for each open transaction it
keeps the keys that transaction wrote (`dirty_keys`). Closing a transaction
pops its keys: a rollback drops the version each of them has from it; a
commit merges that version into the one below, or hands it down to the
transaction below when that one has not written the key.

Transactions the client opened before entering the runtime are protected:
the runtime cannot close them, and `exit_runtime` rolls back the ones the
runtime left open.

Every `SmallVec` used as a stack is a list with its top first: the versions of
an entry, the current one first, and the dirty sets, the innermost
transaction's first. A dirty set, a `HashSet`, is a list without repeats. An
`expect` that fails is a panic; a closure the source calls (`init`, the
predicate of `clear_where`) is its result or a function, and the write a
caller makes through the `&mut` that `modify` returns is a function `update`.
Keys and values are lists of bytes, each a `Fin 256`, so that keys compare as
`BTreeMap` compares them.
-/

namespace SocialNetwork.StateMachine

open Dispatch

/-- `Extrinsics`: the indices of the extrinsics that changed a value, oldest
first. -/
structure Extrinsics where
  indices : List ℕ
  deriving DecidableEq

/-- `Extrinsics::insert`: an index is recorded unless it is the last one. -/
def Extrinsics.insert (self : Extrinsics) (ext : ℕ) : Extrinsics :=
  if some ext ≠ self.indices.getLast? then ⟨self.indices ++ [ext]⟩ else self

/-- `Extrinsics::extend`. -/
def Extrinsics.extend (self other : Extrinsics) : Extrinsics := ⟨self.indices ++ other.indices⟩

/-- `InnerValue`: one version of a value. -/
structure InnerValue (V : Type) where
  value : V
  extrinsics : Extrinsics
  deriving DecidableEq

/-- `OverlayedEntry`: the versions of a value, the current one first. -/
structure OverlayedEntry (V : Type) where
  transactions : List (InnerValue V)
  deriving DecidableEq

/-- `ExecutionMode`. -/
inductive ExecutionMode where
  | client
  | runtime
  deriving DecidableEq

/-- `NoOpenTransaction`, `AlreadyInRuntime` and `NotInRuntime`. -/
inductive Error where
  | noOpenTransaction
  | alreadyInRuntime
  | notInRuntime
  deriving DecidableEq

/-- `OverlayedMap`. -/
structure OverlayedMap (K V : Type) [LinearOrder K] where
  changes : OrderedMap K (OverlayedEntry V)
  dirtyKeys : List (List K)
  numClientTransactions : ℕ
  executionMode : ExecutionMode

abbrev MapCall (K V : Type) [LinearOrder K] := Call Error (OverlayedMap K V)

abbrev StorageKey := List (Fin 256)
abbrev StorageValue := List (Fin 256)

/-- `OverlayedChangeSet`: a deleted value is `none`. -/
abbrev OverlayedChangeSet := OverlayedMap StorageKey (Option StorageValue)

namespace OverlayedEntry

variable {V : Type}

/-- `OverlayedEntry::default`. -/
def empty : OverlayedEntry V := ⟨[]⟩

/-- `value_ref`: the current value, `none` where its `expect` fails. -/
def valueRef (self : OverlayedEntry V) : Option V := self.transactions.head?.map (·.value)

/-- `pop_transaction`. -/
def popTransaction (self : OverlayedEntry V) : Option (InnerValue V × OverlayedEntry V) :=
  match self.transactions with
  | t :: ts => some (t, ⟨ts⟩)
  | [] => none

/-- `set`: a new version on the transaction's first write of the key, or on
an entry with none; otherwise the current version rewritten. The extrinsic is
recorded on the current version. -/
def set (self : OverlayedEntry V) (value : V) (firstWriteInTx : Bool) (atExtrinsic : Option ℕ) :
    OverlayedEntry V :=
  let written :=
    if firstWriteInTx || self.transactions.isEmpty then ⟨value, ⟨[]⟩⟩ :: self.transactions
    else self.transactions.modifyHead fun t => { t with value }
  match atExtrinsic with
  | some extrinsic => ⟨written.modifyHead fun t => { t with extrinsics := t.extrinsics.insert extrinsic }⟩
  | none => ⟨written⟩

/-- The merge of a commit: the value of the version dropped over the current
one, whose extrinsics it joins (`value_mut`, `transaction_extrinsics_mut`). -/
def mergeDropped (self : OverlayedEntry V) (dropped : InnerValue V) : Option (OverlayedEntry V) :=
  match self.transactions with
  | t :: ts => some ⟨{ value := dropped.value, extrinsics := t.extrinsics.extend dropped.extrinsics } :: ts⟩
  | [] => none

/-- The write a caller makes through `value_mut`. -/
def modifyValue (self : OverlayedEntry V) (update : V → V) : Option (OverlayedEntry V) :=
  match self.transactions with
  | t :: ts => some ⟨{ t with value := update t.value } :: ts⟩
  | [] => none

end OverlayedEntry

/-- `insert_dirty`: the key goes into the innermost dirty set; whether a
transaction is open and this is its first write of the key. -/
def insertDirty {K : Type} [DecidableEq K] (set : List (List K)) (key : K) : List (List K) × Bool :=
  match set with
  | [] => ([], false)
  | dk :: rest => if key ∈ dk then (dk :: rest, false) else ((key :: dk) :: rest, true)

namespace OverlayedMap

variable {K V : Type} [LinearOrder K]

/-- `OverlayedMap::default`. -/
def empty : OverlayedMap K V := ⟨.empty, [], 0, .client⟩

/-- `spawn_child`: an overlay with no changes, at the same depth and in the
same mode. -/
def spawnChild (self : OverlayedMap K V) : OverlayedMap K V :=
  ⟨.empty, List.replicate self.dirtyKeys.length [], self.numClientTransactions, self.executionMode⟩

/-- `is_empty`. -/
def isEmpty (self : OverlayedMap K V) : Bool := self.changes.entries.isEmpty

/-- `get`. -/
def get (self : OverlayedMap K V) (key : K) : Option (OverlayedEntry V) := self.changes.get? key

/-- `transaction_depth`. -/
def transactionDepth (self : OverlayedMap K V) : ℕ := self.dirtyKeys.length

/-- `has_open_runtime_transactions`. -/
def hasOpenRuntimeTransactions (self : OverlayedMap K V) : Bool :=
  self.numClientTransactions < self.transactionDepth

/-- `set`. -/
def set (self : OverlayedMap K V) (key : K) (value : V) (atExtrinsic : Option ℕ) : OverlayedMap K V :=
  let overlayed := (self.changes.get? key).getD .empty
  let (dirtyKeys, firstWriteInTx) := insertDirty self.dirtyKeys key
  { self with changes := self.changes.insert key (overlayed.set value firstWriteInTx atExtrinsic), dirtyKeys }

/-- `start_transaction`. -/
def startTransaction (self : OverlayedMap K V) : OverlayedMap K V :=
  { self with dirtyKeys := [] :: self.dirtyKeys }

/-- The body of `close_transaction` for one key of the transaction closed;
`none` where an `expect` fails. -/
def closeKey (rollback : Bool) (self : OverlayedMap K V) (key : K) : Option (OverlayedMap K V) := do
  let overlayed ← self.changes.get? key
  if rollback then
    let (_, rest) ← overlayed.popTransaction
    -- an entry with no version left is removed
    if rest.transactions.isEmpty then pure { self with changes := self.changes.erase key }
    else pure { self with changes := self.changes.insert key rest }
  else
    -- whether the transaction below wrote the key; it has now
    let (dirtyKeys, hasPredecessor) :=
      match self.dirtyKeys with
      | dk :: rest => if dk.contains key then (dk :: rest, true) else ((key :: dk) :: rest, false)
      | [] => ([], decide (1 < overlayed.transactions.length))
    if hasPredecessor then
      let (dropped, rest) ← overlayed.popTransaction
      let merged ← rest.mergeDropped dropped
      pure { self with changes := self.changes.insert key merged, dirtyKeys }
    else pure { self with dirtyKeys }

/-- `close_transaction`. -/
def closeTransaction (rollback : Bool) : MapCall K V Unit := do
  let self ← MonadState.get
  -- the runtime may not close a transaction the client started
  if self.executionMode = .runtime ∧ self.hasOpenRuntimeTransactions = false then fail .noOpenTransaction
  else
    match self.dirtyKeys with
    | [] => fail .noOpenTransaction
    | keys :: rest =>
      let closed ← unwrap (keys.foldlM (closeKey rollback) { self with dirtyKeys := rest })
      MonadStateOf.set closed

/-- `rollback_transaction`. -/
def rollbackTransaction : MapCall K V Unit := closeTransaction true

/-- `commit_transaction`. -/
def commitTransaction : MapCall K V Unit := closeTransaction false

/-- `enter_runtime`. -/
def enterRuntime : MapCall K V Unit := do
  let self ← MonadState.get
  if self.executionMode = .runtime then fail .alreadyInRuntime
  else MonadStateOf.set { self with executionMode := .runtime, numClientTransactions := self.transactionDepth }

/-- The loop of `exit_runtime`: roll back while the runtime has a transaction
open, for at most `fuel` rounds. -/
def rollbackRuntimeTransactions : ℕ → MapCall K V Unit
  | 0 => pure ()
  | fuel + 1 => do
    let self ← MonadState.get
    if self.hasOpenRuntimeTransactions then
      expect rollbackTransaction
      rollbackRuntimeTransactions fuel
    else pure ()

/-- `exit_runtime`. Each round of its loop closes a transaction, so the depth
bounds the rounds. -/
def exitRuntime : MapCall K V Unit := do
  let self ← MonadState.get
  if self.executionMode = .client then fail .notInRuntime
  else
    MonadStateOf.set { self with executionMode := .client }
    rollbackRuntimeTransactions self.transactionDepth

/-- `drain_commited`: the current value of each key, in the order of the
keys; it panics while a transaction is open. -/
def drainCommited : MapCall K V (List (K × V)) := do
  let self ← MonadState.get
  if self.transactionDepth ≠ 0 then panic
  else self.changes.entries.mapM fun e => do
    let (t, _) ← unwrap e.2.popTransaction
    pure (e.1, t.value)

end OverlayedMap

/-! ## The change set of storage values -/

namespace OverlayedChangeSet

/-- `modify`, and the write the caller makes through the reference it
returns: the current version of the transaction, or a new one from the value
below or from `init` where the key has no version. -/
def modify (key : StorageKey) (init : StorageValue) (atExtrinsic : Option ℕ)
    (update : Option StorageValue → Option StorageValue) : MapCall StorageKey (Option StorageValue) Unit := do
  let self ← get
  let overlayed := (self.changes.get? key).getD .empty
  let (dirtyKeys, firstWriteInTx) := insertDirty self.dirtyKeys key
  let cloneIntoNewTx :=
    match overlayed.transactions with
    | tx :: _ => if firstWriteInTx then some tx.value else none
    | [] => some (some init)
  let overlayed :=
    match cloneIntoNewTx with
    | some cloned => overlayed.set cloned firstWriteInTx atExtrinsic
    | none => overlayed
  let overlayed ← unwrap (overlayed.modifyValue update)
  set { self with changes := self.changes.insert key overlayed, dirtyKeys }

/-- `clear_where`: each entry the predicate picks, in the order of the keys,
is set to deleted. -/
def clearWhere (self : OverlayedChangeSet) (predicate : StorageKey → OverlayedEntry (Option StorageValue) → Bool)
    (atExtrinsic : Option ℕ) : OverlayedChangeSet :=
  (self.changes.entries.filter fun e => predicate e.1 e.2).foldl
    (fun m e =>
      let (dirtyKeys, firstWriteInTx) := insertDirty m.dirtyKeys e.1
      { m with changes := m.changes.insert e.1 (e.2.set none firstWriteInTx atExtrinsic), dirtyKeys })
    self

/-- `next_change`: the change of the least key above `key`. -/
def nextChange (self : OverlayedChangeSet) (key : StorageKey) :
    Option (StorageKey × OverlayedEntry (Option StorageValue)) :=
  self.changes.entries.find? fun e => key < e.1

end OverlayedChangeSet

end SocialNetwork.StateMachine
