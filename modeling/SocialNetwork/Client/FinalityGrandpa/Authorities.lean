import SocialNetwork.Utils.ForkTree.Tree
import SocialNetwork.Lib.BinarySearch

/-!
# `sc_finality_grandpa::authorities`

The GRANDPA client's view of its authority set: the current authorities and
set id, the standard changes signalled on every fork (enacted when their
block is finalized, kept in a `ForkTree` keyed by the signalling block), the
forced changes (enacted at a depth of the best chain, kept in a vector sorted
by effective number and signal height), and the blocks where each past set
ended.

Every method that takes `&mut self` is a `Dispatch.Call` over the set, with
the writes it makes before an error kept; a call on the tree of standard
changes runs through `zoom`, with its error converted as the source converts
it (`From<fork_tree::Error>` for `?`, `Error::ForkTree` for
`enacts_standard_change`). `apply_forced_changes` takes `&self` and returns a
new set for the caller to adopt.
-/

namespace SocialNetwork.Grandpa

open Dispatch Fork BinarySearch

/-- `authorities::Error`. -/
inductive Error (N E : Type) where
  | invalidAuthoritySet
  | client (e : E)
  | duplicateAuthoritySetChange
  | multiplePendingForcedAuthoritySetChanges
  | forcedAuthoritySetChangeDependencyUnsatisfied (n : N)
  | forkTree (e : Fork.Error E)

/-- `From<fork_tree::Error<E>>`: the client's errors and duplicates get their
own variant. -/
def Error.ofForkTree {N E : Type} : Fork.Error E → Error N E
  | .client e => .client e
  | .duplicate => .duplicateAuthoritySetChange
  | e => .forkTree e

/-- `AuthorityList`: the authorities with their weights. -/
abbrev AuthorityList (Id : Type) := List (Id × ℕ)

/-- `DelayKind`. -/
inductive DelayKind (N : Type) where
  | finalized
  | best (medianLastFinalized : N)

/-- `PendingChange`. -/
structure PendingChange (H N Id : Type) where
  nextAuthorities : AuthorityList Id
  delay : N
  canonHeight : N
  canonHash : H
  delayKind : DelayKind N

/-- `PendingChange::effective_number`. -/
def PendingChange.effectiveNumber {H N Id : Type} [Add N] (change : PendingChange H N Id) : N :=
  change.canonHeight + change.delay

/-- `AuthoritySet`. `authority_set_changes` is the vector of
`AuthoritySetChanges`: the set id and last block of each past set. -/
structure AuthoritySet (H N Id : Type) where
  currentAuthorities : AuthorityList Id
  setId : ℕ
  pendingStandardChanges : ForkTree H N (PendingChange H N Id)
  pendingForcedChanges : List (PendingChange H N Id)
  authoritySetChanges : List (ℕ × N)

/-- `Status` of `apply_standard_changes`. -/
structure Status (H N : Type) where
  changed : Bool
  newSetBlock : Option (H × N)

variable {H N Id E : Type}

/-- `invalid_authority_list`: empty, or with a weight of zero. -/
def invalidAuthorityList (authorities : AuthorityList Id) : Bool :=
  authorities.isEmpty || authorities.any fun (_, w) => w == 0

/-- `AuthoritySet::genesis`. -/
def AuthoritySet.genesis (initial : AuthorityList Id) : Option (AuthoritySet H N Id) :=
  if invalidAuthorityList initial then none
  else some ⟨initial, 0, ForkTree.new, [], []⟩

/-- `AuthoritySet::new`. -/
def AuthoritySet.new (authorities : AuthorityList Id) (setId : ℕ)
    (pendingStandardChanges : ForkTree H N (PendingChange H N Id))
    (pendingForcedChanges : List (PendingChange H N Id)) (authoritySetChanges : List (ℕ × N)) :
    Option (AuthoritySet H N Id) :=
  if invalidAuthorityList authorities then none
  else some ⟨authorities, setId, pendingStandardChanges, pendingForcedChanges, authoritySetChanges⟩

/-- `AuthoritySetChanges::append`. -/
def appendSetChange (changes : List (ℕ × N)) (setId : ℕ) (blockNumber : N) : List (ℕ × N) :=
  changes ++ [(setId, blockNumber)]

/-- `AuthoritySetChanges::get_set_id`: the set the block belongs to, by the
first recorded last block at or above it, when the set before it is recorded
too. -/
def getSetId [LinearOrder N] (changes : List (ℕ × N)) (blockNumber : N) : Option (ℕ × N) :=
  let idx := match binarySearchByKey (fun change : ℕ × N => change.2) changes blockNumber with
    | .ok i => i
    | .error i => i
  if h : idx < changes.length then
    let (setId, blockNumber) := changes[idx]
    if hpos : idx > 0 then
      let (prevSetId, _) := changes[idx - 1]
      if setId ≠ prevSetId + 1 then none else some (setId, blockNumber)
    else if setId ≠ 0 then none
    else some (setId, blockNumber)
  else none

abbrev SetCall (H N Id E : Type) := Call (Error N E) (AuthoritySet H N Id)

/-- A call on the tree of pending standard changes, with `?` converting its
errors. -/
def onStandard {α : Type} (m : TreeCall H N (PendingChange H N Id) E α) : SetCall H N Id E α :=
  mapError Error.ofForkTree
    (zoom (·.pendingStandardChanges) (fun s t => { s with pendingStandardChanges := t }) m)

variable [DecidableEq H] [LinearOrder N] [Add N] (isDescendentOf : H → H → Except E Bool)

/-- `is_descendent_of(a, b)?` in a method of the set. -/
def descendsIn (a b : H) : SetCall H N Id E Bool :=
  Dispatch.ofExcept ((isDescendentOf a b).mapError Error.client)

/-- The loops of `next_change`, over the forced changes and over the roots of
the standard ones: the signal block of the first change on the best block's
branch. -/
def firstOnBranch (bestHash : H) :
    List (PendingChange H N Id) → SetCall H N Id E (Option (H × N))
  | [] => pure none
  | change :: changes => do
      if ← descendsIn isDescendentOf change.canonHash bestHash then
        return some (change.canonHash, change.canonHeight)
      firstOnBranch bestHash changes

/-- `next_change`: the signal block of the next change on the best block's
chain, the lower of the forced and the standard one; the set is only read. -/
def nextChange (bestHash : H) : SetCall H N Id E (Option (H × N)) := do
  let s ← get
  let forced ← firstOnBranch isDescendentOf bestHash s.pendingForcedChanges
  let standard ← firstOnBranch isDescendentOf bestHash
    (s.pendingStandardChanges.roots.map (·.data))
  pure <| match forced, standard with
    | some forced, some standard => some (if forced.2 < standard.2 then forced else standard)
    | some forced, none => some forced
    | none, some standard => some standard
    | none, none => none

/-- `current_limit`: the lowest effective number at or above `min` among the
standard changes at the roots. -/
def currentLimit (s : AuthoritySet H N Id) (min : N) : Option N :=
  ((s.pendingStandardChanges.roots.map (·.data.effectiveNumber)).filter fun n => decide (min ≤ n)).min?

/-- `add_standard_change`: the change goes into the tree at its signal block. -/
def addStandardChange (pending : PendingChange H N Id) : SetCall H N Id E Unit := do
  let _ ← onStandard
    (ForkTree.import isDescendentOf pending.canonHash pending.canonHeight pending)
  pure ()

/-- The loop of `add_forced_change` over the pending forced changes: no
duplicate, and none signalled in an ancestor of the new one's block. -/
def checkForcedChanges (pending : PendingChange H N Id) :
    List (PendingChange H N Id) → SetCall H N Id E Unit
  | [] => pure ()
  | change :: changes => do
      if change.canonHash = pending.canonHash then fail .duplicateAuthoritySetChange
      if ← descendsIn isDescendentOf change.canonHash pending.canonHash then
        fail .multiplePendingForcedAuthoritySetChanges
      checkForcedChanges pending changes

/-- The order of the forced changes: by effective number, then by signal
height. -/
def forcedKey (change : PendingChange H N Id) : Lex (N × N) :=
  toLex (change.effectiveNumber, change.canonHeight)

/-- `add_forced_change`: inserted where a binary search by `forcedKey` puts
it. -/
def addForcedChange (pending : PendingChange H N Id) : SetCall H N Id E Unit := do
  let s ← get
  checkForcedChanges isDescendentOf pending s.pendingForcedChanges
  let idx := match binarySearchByKey forcedKey s.pendingForcedChanges (forcedKey pending) with
    | .ok i => i
    | .error i => i
  set { s with pendingForcedChanges := s.pendingForcedChanges.insertIdx idx pending }

/-- `add_pending_change`. -/
def addPendingChange (pending : PendingChange H N Id) : SetCall H N Id E Unit := do
  if invalidAuthorityList pending.nextAuthorities then fail .invalidAuthoritySet
  match pending.delayKind with
  | .best _ => addForcedChange isDescendentOf pending
  | .finalized => addStandardChange isDescendentOf pending

/-- The check of `apply_forced_changes` over the roots of the standard
changes: none enacted by the median last finalized block may be an ancestor
of the forced change. -/
def checkStandardDependencies (change : PendingChange H N Id) (medianLastFinalized : N) :
    List (Node H N (PendingChange H N Id)) → SetCall H N Id E Unit
  | [] => pure ()
  | root :: roots => do
      if root.data.effectiveNumber ≤ medianLastFinalized then
        if ← descendsIn isDescendentOf root.data.canonHash change.canonHash then
          fail (.forcedAuthoritySetChangeDependencyUnsatisfied root.data.effectiveNumber)
      checkStandardDependencies change medianLastFinalized roots

/-- The loop of `apply_forced_changes` over the forced changes effective at the
best block, in order: the first on the best block's branch gives the new set. -/
def findForcedChange (s : AuthoritySet H N Id) (bestHash : H) :
    List (PendingChange H N Id) → SetCall H N Id E (Option (N × AuthoritySet H N Id))
  | [] => pure none
  | change :: changes => do
      let onBranch ← if change.canonHash = bestHash then pure true
        else descendsIn isDescendentOf change.canonHash bestHash
      if onBranch then
        match change.delayKind with
        | .best medianLastFinalized =>
            checkStandardDependencies isDescendentOf change medianLastFinalized
              s.pendingStandardChanges.roots
            pure (some (medianLastFinalized,
              ⟨change.nextAuthorities, s.setId + 1, ForkTree.new, [],
                appendSetChange s.authoritySetChanges s.setId medianLastFinalized⟩))
        -- `unreachable!`: only forced changes are in the vector
        | .finalized => panic
      else findForcedChange s bestHash changes

/-- `apply_forced_changes`: the set to adopt when the best block enacts a
forced change; the set itself is only read. -/
def applyForcedChanges (bestHash : H) (bestNumber : N) :
    SetCall H N Id E (Option (N × AuthoritySet H N Id)) := do
  let s ← get
  findForcedChange isDescendentOf s bestHash
    ((s.pendingForcedChanges.takeWhile fun c => decide (c.effectiveNumber ≤ bestNumber)).filter
      fun c => decide (c.effectiveNumber = bestNumber))

/-- The loop of `apply_standard_changes` that puts back the forced changes
taken out with `mem::replace`: those after the finalized block on its
branch. -/
def retainForcedChanges (finalizedHash : H) (finalizedNumber : N) :
    List (PendingChange H N Id) → SetCall H N Id E Unit
  | [] => pure ()
  | change :: changes => do
      let keep ← if change.effectiveNumber > finalizedNumber then
          descendsIn isDescendentOf finalizedHash change.canonHash
        else pure false
      if keep then
        modify fun (s : AuthoritySet H N Id) =>
          { s with pendingForcedChanges := s.pendingForcedChanges ++ [change] }
      retainForcedChanges finalizedHash finalizedNumber changes

/-- `apply_standard_changes`: finalize the block in the tree of standard
changes, enacting the change of the root it finalizes, if any. -/
def applyStandardChanges (finalizedHash : H) (finalizedNumber : N) :
    SetCall H N Id E (Status H N) := do
  let result ← onStandard (finalizeWithDescendentIf isDescendentOf finalizedHash finalizedNumber
    fun change => decide (change.effectiveNumber ≤ finalizedNumber))
  match result with
  | .unchanged => pure ⟨false, none⟩
  | .changed change =>
      let s ← get
      -- `mem::replace(&mut self.pending_forced_changes, Vec::new())`
      set { s with pendingForcedChanges := [] }
      retainForcedChanges isDescendentOf finalizedHash finalizedNumber s.pendingForcedChanges
      match change with
      | some change =>
          modify fun (s : AuthoritySet H N Id) =>
            { s with
              authoritySetChanges := appendSetChange s.authoritySetChanges s.setId finalizedNumber
              currentAuthorities := change.nextAuthorities
              setId := s.setId + 1 }
          pure ⟨true, some (finalizedHash, finalizedNumber)⟩
      | none => pure ⟨true, none⟩

/-- `enacts_standard_change`: whether finalizing the block enacts a change that
can be applied now (`some true`), one that waits for others (`some false`), or
none; the set is only read. -/
def enactsStandardChange (finalizedHash : H) (finalizedNumber : N) :
    SetCall H N Id E (Option Bool) :=
  mapError Error.forkTree
    (zoom (·.pendingStandardChanges) (fun s t => { s with pendingStandardChanges := t })
      (finalizesAnyWithDescendentIf isDescendentOf finalizedHash finalizedNumber
        fun change => decide (change.effectiveNumber = finalizedNumber)))

end SocialNetwork.Grandpa
