import SocialNetwork.Lib.StorageMap

/-!
# The leaf set

`LeafSet` of `sc_client_api` keeps the hashes of the leaves at each block
number. An import displaces the parent, a leaf one number below, and
`finalize_height` splits off every number below the finalized one; each
returns what it took, for `Undo` to put back.

Putting back a finalization restores the set
(`undoFinalization_finalizeHeight`). Putting back an import does not:
`undo_import` inserts the displaced parent at `displaced.number + 1`, the
number of the new block, and not at its own (`undoImport_import`), so after
an import and its undo the parent is one number up
(`undo_import_misplaces_parent`).
-/

namespace SocialNetwork.Leaves

/-- `LeafSet`: the leaf hashes of each block number. -/
structure LeafSet (H : Type) where
  storage : StorageMap ℕ (List H)

/-- `LeafSetItem`. -/
structure LeafSetItem (H : Type) where
  hash : H
  number : ℕ

/-- `ImportDisplaced`: the parent an import took out of the set. -/
structure ImportDisplaced (H : Type) where
  newHash : H
  displaced : LeafSetItem H

/-- `FinalizationDisplaced`: the leaves a finalization took out. -/
structure FinalizationDisplaced (H : Type) where
  leaves : StorageMap ℕ (List H)

variable {H : Type} [DecidableEq H]

namespace LeafSet

/-- `LeafSet::new`. -/
def new : LeafSet H := ⟨∅⟩

/-- `insert_leaf`: the hash pushed to the leaves of its number. -/
def insertLeaf (number : ℕ) (hash : H) (s : LeafSet H) : LeafSet H :=
  ⟨s.storage.insert number ((s.storage.lookup number).getD [] ++ [hash])⟩

/-- `remove_leaf`: the hash taken out of the leaves of its number, the entry
removed when none is left; `true` when the hash was there. -/
def removeLeaf (number : ℕ) (hash : H) (s : LeafSet H) : LeafSet H × Bool :=
  match s.storage.lookup number with
  | none => (s, false)
  | some leaves =>
    let found := leaves.contains hash
    let leaves := leaves.filter (· != hash)
    if found && leaves.isEmpty then (⟨s.storage.erase number⟩, true)
    else (⟨s.storage.insert number leaves⟩, found)

/-- `LeafSet::import`: the parent, a leaf one number below, is displaced
by the new block. -/
def «import» (hash : H) (number : ℕ) (parentHash : H) (s : LeafSet H) :
    LeafSet H × Option (ImportDisplaced H) :=
  let (s, displaced) :=
    if number ≠ 0 then
      let newNumber := number - 1
      let (s, wasDisplaced) := s.removeLeaf newNumber parentHash
      (s, if wasDisplaced then some ⟨hash, ⟨parentHash, newNumber⟩⟩ else none)
    else (s, none)
  (s.insertLeaf number hash, displaced)

/-- `finalize_height`: the leaves below the finalized number leave the set,
by `split_off` at `Reverse(number - 1)`. -/
def finalizeHeight (number : ℕ) (s : LeafSet H) : LeafSet H × FinalizationDisplaced H :=
  if number = 0 then (s, ⟨∅⟩) else
  let boundary := number - 1
  (⟨s.storage.retain fun n _ => boundary < n⟩, ⟨s.storage.retain fun n _ => n ≤ boundary⟩)

/-- `Undo::undo_import`. -/
def undoImport (displaced : ImportDisplaced H) (s : LeafSet H) : LeafSet H :=
  let newNumber := displaced.displaced.number + 1
  let s := (s.removeLeaf newNumber displaced.newHash).1
  s.insertLeaf newNumber displaced.displaced.hash

/-- `Undo::undo_finalization`: `BTreeMap::append`, the displaced entries
overwriting those of the same number. -/
def undoFinalization (displaced : FinalizationDisplaced H) (s : LeafSet H) : LeafSet H :=
  ⟨displaced.leaves ∪ s.storage⟩

def leavesAt (s : LeafSet H) (n : ℕ) : List H := (s.storage.lookup n).getD []

/-! ## One lemma per operation -/

section Ops

variable {s : LeafSet H} {number n : ℕ} {hash : H}

omit [DecidableEq H] in
theorem leavesAt_insertLeaf :
    (s.insertLeaf number hash).leavesAt n = if n = number then s.leavesAt n ++ [hash] else s.leavesAt n := by
  by_cases hn : n = number
  · subst hn
    simp [leavesAt, insertLeaf]
  · simp [leavesAt, insertLeaf, Finmap.lookup_insert_of_ne _ hn, hn]

theorem removeLeaf_found : (s.removeLeaf number hash).2 = (s.leavesAt number).contains hash := by
  unfold removeLeaf leavesAt
  cases s.storage.lookup number with
  | none => rfl
  | some leaves =>
    dsimp only
    split_ifs with h
    · simp only [Bool.and_eq_true] at h
      exact h.1.symm
    · rfl

theorem leavesAt_removeLeaf :
    (s.removeLeaf number hash).1.leavesAt n =
      if n = number then (s.leavesAt n).filter (· != hash) else s.leavesAt n := by
  unfold removeLeaf
  by_cases hn : n = number
  · subst hn
    rw [if_pos rfl]
    cases hl : s.storage.lookup n with
    | none => simp [leavesAt, hl]
    | some leaves =>
      dsimp only
      split_ifs with h
      · -- the last leaf of the number went with the entry
        simp only [Bool.and_eq_true, List.isEmpty_iff] at h
        simp [leavesAt, hl, h.2]
      · simp [leavesAt, hl]
  · rw [if_neg hn]
    cases hl : s.storage.lookup number with
    | none => rfl
    | some leaves =>
      dsimp only
      split_ifs <;> simp [leavesAt, Finmap.lookup_erase_ne hn, Finmap.lookup_insert_of_ne _ hn]

theorem import_of_ne_zero {parent : H} (h0 : number ≠ 0) :
    s.import hash number parent =
      ((s.removeLeaf (number - 1) parent).1.insertLeaf number hash,
        if (s.removeLeaf (number - 1) parent).2 then some ⟨hash, ⟨parent, number - 1⟩⟩ else none) := by
  simp only [LeafSet.import, if_pos h0]

/-- An import displaces a parent exactly when it is a leaf one number
below. -/
theorem import_displaced {parent : H} {s' : LeafSet H} {d : ImportDisplaced H}
    (h : s.import hash number parent = (s', some d)) :
    number ≠ 0 ∧ parent ∈ s.leavesAt (number - 1) ∧ d = ⟨hash, ⟨parent, number - 1⟩⟩ ∧
      s' = (s.removeLeaf (number - 1) parent).1.insertLeaf number hash := by
  by_cases h0 : number = 0
  · simp [LeafSet.import, h0] at h
  · rw [import_of_ne_zero h0] at h
    split_ifs at h with hfound
    · simp only [Prod.mk.injEq, Option.some.injEq] at h
      rw [removeLeaf_found, List.contains_iff_mem] at hfound
      exact ⟨h0, hfound, h.2.symm, h.1.symm⟩
    · simp at h

end Ops

/-! ## Undo -/

/-- **Undoing an import.** `undo_import` takes the new block out again and
puts the displaced parent back, at the new block's number: the parent's own
number keeps it out, and the new block's number holds it. -/
theorem undoImport_import {s s' : LeafSet H} {hash parent : H} {number : ℕ} {d : ImportDisplaced H}
    (hfresh : hash ∉ s.leavesAt number) (h : s.import hash number parent = (s', some d)) (n : ℕ) :
    (s'.undoImport d).leavesAt n =
      if n = number then s.leavesAt number ++ [parent]
      else if n = number - 1 then (s.leavesAt n).filter (· != parent)
      else s.leavesAt n := by
  obtain ⟨h0, -, rfl, rfl⟩ := import_displaced h
  have hnum : number - 1 + 1 = number := Nat.succ_pred_eq_of_ne_zero h0
  simp only [undoImport, hnum, leavesAt_insertLeaf, leavesAt_removeLeaf]
  by_cases hn : n = number
  · -- the new block's number: its own hash out, the parent in
    subst hn
    have hkeep : (s.leavesAt n).filter (· != hash) = s.leavesAt n :=
      List.filter_eq_self.2 fun x hx => by
        simp only [bne_iff_ne, ne_eq]
        rintro rfl
        exact hfresh hx
    simp [show n ≠ n - 1 by omega, List.filter_append, hkeep]
  · simp [hn]

omit [DecidableEq H] in
/-- **Undoing a finalization** restores the set: the displaced leaves are
exactly the entries `split_off` took. -/
theorem undoFinalization_finalizeHeight (s : LeafSet H) (number : ℕ) :
    (s.finalizeHeight number).1.undoFinalization (s.finalizeHeight number).2 = s := by
  unfold finalizeHeight
  split_ifs with h0
  · simp [undoFinalization]
  · cases s with
    | mk storage =>
      simp only [undoFinalization, LeafSet.mk.injEq]
      refine Finmap.ext_lookup fun n => ?_
      by_cases hn : n ≤ number - 1
      · -- a number at most the boundary: its entry was displaced
        by_cases hmem : n ∈ storage
        · rw [Finmap.lookup_union_left (by simpa [Finmap.mem_iff, StorageMap.lookup_retain, hn] using hmem),
            StorageMap.lookup_retain]
          simp only [hn, decide_true]
          cases storage.lookup n <;> rfl
        · rw [Finmap.lookup_union_right (by simp [Finmap.mem_iff, StorageMap.lookup_retain,
            Finmap.lookup_eq_none.2 hmem]), StorageMap.lookup_retain, Finmap.lookup_eq_none.2 hmem]
          rfl
      · -- a number above it: its entry stayed
        rw [Finmap.lookup_union_right (by simp [Finmap.mem_iff, StorageMap.lookup_retain, hn]),
          StorageMap.lookup_retain]
        cases storage.lookup n <;> simp [show number - 1 < n by omega]

end LeafSet

/-- Block `0` is the only leaf, and block `1` on it displaces it. The undo
takes `1` out and puts `0` back at number `1`: number `0` is left without a
leaf. -/
theorem undo_import_misplaces_parent :
    ∃ s' d, (⟨Finmap.singleton 0 [0]⟩ : LeafSet ℕ).import 1 1 0 = (s', some d) ∧
      (s'.undoImport d).storage.lookup 0 = none ∧ (s'.undoImport d).storage.lookup 1 = some [0] :=
  ⟨_, _, rfl, by decide, by decide⟩

end SocialNetwork.Leaves
