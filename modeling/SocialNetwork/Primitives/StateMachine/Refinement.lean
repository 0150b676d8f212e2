import SocialNetwork.Primitives.StateMachine.Changeset
import SocialNetwork.Lib.Layered

/-!
# The overlay refines a layered store

What `OverlayedMap` is for: a committed store and one layer of writes per open
transaction (`Layered`). The map holds the store `s` (`Refines`) when the
entry of each key is the list of its versions in `s`, and each dirty set
lists the keys its layer has. A write of the map is a write of the top layer
(`Refines.set`), a start pushes an empty layer (`Refines.startTransaction`),
and closing a transaction drops or merges its layer (`Refines.rollback`,
`Refines.commit`). The loops of `close_transaction` are folds over the keys of
the layer closed, each key's versions changed on its own.
-/

namespace SocialNetwork.StateMachine

open Dispatch

variable {K V : Type}

def entryOf (vs : List (InnerValue V)) : Option (OverlayedEntry V) := if vs = [] then none else some ⟨vs⟩

/-- The version a write of `value` leaves, from the version the transaction
had: its extrinsics, with `atExtrinsic` recorded. -/
def stamp (value : V) (atExtrinsic : Option ℕ) (old : Option (InnerValue V)) : InnerValue V :=
  let extrinsics := (old.map (·.extrinsics)).getD ⟨[]⟩
  { value, extrinsics := match atExtrinsic with
      | some extrinsic => extrinsics.insert extrinsic
      | none => extrinsics }

/-- The merge of a commit: the upper value over the lower one's extrinsics
and its own. -/
def mergeVersions (lower upper : InnerValue V) : InnerValue V :=
  { value := upper.value, extrinsics := lower.extrinsics.extend upper.extrinsics }

@[simp] theorem entryOf_nil : entryOf ([] : List (InnerValue V)) = none := rfl

@[simp] theorem entryOf_cons (v : InnerValue V) (vs : List (InnerValue V)) : entryOf (v :: vs) = some ⟨v :: vs⟩ :=
  rfl

theorem entryOf_eq_some {vs : List (InnerValue V)} {e : OverlayedEntry V} :
    entryOf vs = some e ↔ vs ≠ [] ∧ ⟨vs⟩ = e := by
  unfold entryOf
  split_ifs with h <;> simp [h]

theorem getD_entryOf (vs : List (InnerValue V)) : (entryOf vs).getD .empty = ⟨vs⟩ := by
  cases vs <;> rfl

namespace OverlayedEntry

/-- `set` on the versions of a key, its top one `top`: the top version
stamped. A new version is pushed exactly where the transaction has none, or
where there is no version at all. -/
theorem set_of_top (top : Option (InnerValue V)) (below : List (InnerValue V)) (value : V) (first : Bool)
    (atExtrinsic : Option ℕ) (hfirst : first = true → top = none) (hnone : top = none → first = true ∨ below = []) :
    (⟨top.toList ++ below⟩ : OverlayedEntry V).set value first atExtrinsic =
      ⟨stamp value atExtrinsic top :: below⟩ := by
  cases top with
  | none =>
    have hpush : (first || (Option.toList none ++ below).isEmpty) = true := by
      rcases hnone rfl with h | h <;> simp [h]
    unfold set
    rw [if_pos hpush]
    cases atExtrinsic <;> simp [stamp]
  | some t =>
    have hfirst' : first = false := by
      cases first
      · rfl
      · exact absurd (hfirst rfl) (by simp)
    cases atExtrinsic <;> simp [set, hfirst', stamp]

end OverlayedEntry

def DirtyLayer (keys : List K) (layer : K → Option (InnerValue V)) : Prop :=
  keys.Nodup ∧ ∀ k, k ∈ keys ↔ (layer k).isSome

section Dirty

variable [DecidableEq K] {dirty : List (List K)} {s : Layered K (InnerValue V)}

/-- `insert_dirty` against a write of the top layer: the dirty sets still list
the layers' keys, and the first write of a transaction is where its layer has
no version of the key. -/
theorem insertDirty_write (hdirty : List.Forall₂ DirtyLayer dirty s.layers) (k : K)
    (f : Option (InnerValue V) → InnerValue V) :
    List.Forall₂ DirtyLayer (insertDirty dirty k).1 (s.write k f).layers ∧
      ((insertDirty dirty k).2 = true → s.top k = none) ∧
      (s.top k = none → (insertDirty dirty k).2 = true ∨ s.below k = []) := by
  unfold insertDirty Layered.write Layered.top Layered.below
  match dirty, hl : s.layers, hdirty with
  | [], [], _ => simp
  | dk :: drest, layer :: rest, .cons ⟨hnodup, hkeys⟩ hrest =>
    dsimp only
    by_cases hk : k ∈ dk
    · -- a later write of the transaction
      have hsome := (hkeys k).mp hk
      rw [if_pos hk]
      refine ⟨.cons ⟨hnodup, fun k' => ?_⟩ hrest, by simp, fun hnone => by simp [hnone] at hsome⟩
      by_cases hk' : k' = k
      · subst hk'
        simp [hk]
      · simp [Function.update_of_ne hk', hkeys k']
    · -- its first write of the key
      have hnone : layer k = none := by simpa using (hkeys k).not.mp hk
      rw [if_neg hk]
      refine ⟨.cons ⟨List.nodup_cons.mpr ⟨hk, hnodup⟩, fun k' => ?_⟩ hrest, fun _ => hnone, by simp⟩
      by_cases hk' : k' = k
      · subst hk'
        simp
      · simp [hkeys k', hk']

end Dirty

/-- The dirty sets below the one a commit pops, with the keys `done` already
handed down or merged into the innermost of them. -/
def LowerDirty (s : Layered K (InnerValue V)) (dirty : List (List K)) (done : List K) : Prop :=
  match s.layers, dirty with
  | [_], [] => True
  | _ :: lower :: rest, dk :: drest =>
    dk.Nodup ∧ (∀ k, k ∈ dk ↔ (lower k).isSome ∨ k ∈ done) ∧ List.Forall₂ DirtyLayer drest rest
  | _, _ => False

namespace LowerDirty

variable {s : Layered K (InnerValue V)} {dirty : List (List K)} {done : List K} {k : K}

theorem of_forall₂ {keys : List K} (h : List.Forall₂ DirtyLayer (keys :: dirty) s.layers) :
    LowerDirty s dirty [] := by
  unfold LowerDirty
  match hl : s.layers, dirty, h with
  | [_], [], _ => trivial
  | _ :: _ :: _, _ :: _, .cons _ (.cons ⟨hnodup, hkeys⟩ hrest) => exact ⟨hnodup, by simpa using hkeys, hrest⟩

/-- Below the last transaction there is no dirty set, and the committed
version is the one below the top. -/
theorem below_of_nil (h : LowerDirty s [] done) : s.below k = (s.next k).toList := by
  unfold LowerDirty at h
  unfold Layered.below Layered.next
  match hl : s.layers, h with
  | [_], _ => simp

/-- The transaction below wrote a key not yet handed down exactly where its
layer has a version. -/
theorem mem_iff {dk : List K} {drest : List (List K)} (h : LowerDirty s (dk :: drest) done) (hk : k ∉ done) :
    k ∈ dk ↔ (s.next k).isSome := by
  unfold LowerDirty at h
  unfold Layered.next
  match hl : s.layers, h with
  | _ :: _ :: _, ⟨_, hkeys, _⟩ => simp [hkeys k, hk]

theorem merge (h : LowerDirty s dirty done) (hk : ∀ dk drest, dirty = dk :: drest → k ∈ dk) :
    LowerDirty s dirty (k :: done) := by
  unfold LowerDirty at h ⊢
  match hl : s.layers, dirty, h with
  | [_], [], _ => trivial
  | _ :: _ :: _, dk :: drest, ⟨hnodup, hkeys, hrest⟩ =>
    refine ⟨hnodup, fun k' => ?_, hrest⟩
    by_cases hk' : k' = k
    · subst hk'
      simp [hk dk drest rfl]
    · simp [hkeys k', hk']

theorem handDown {dk : List K} {drest : List (List K)} (h : LowerDirty s (dk :: drest) done) (hk : k ∉ dk) :
    LowerDirty s ((k :: dk) :: drest) (k :: done) := by
  unfold LowerDirty at h ⊢
  match hl : s.layers, h with
  | _ :: _ :: _, ⟨hnodup, hkeys, hrest⟩ =>
    refine ⟨List.nodup_cons.mpr ⟨hk, hnodup⟩, fun k' => ?_, hrest⟩
    by_cases hk' : k' = k
    · subst hk'
      simp
    · simp [hkeys k', hk']

theorem nil_done (h : LowerDirty s [] done) (done' : List K) : LowerDirty s [] done' := by
  unfold LowerDirty at h ⊢
  match hl : s.layers, h with
  | [_], _ => trivial

theorem of_mem_iff {done' : List K} (h : LowerDirty s dirty done) (hdone : ∀ k, k ∈ done ↔ k ∈ done') :
    LowerDirty s dirty done' := by
  unfold LowerDirty at h ⊢
  match hl : s.layers, dirty, h with
  | [_], [], _ => trivial
  | _ :: _ :: _, _ :: _, ⟨hnodup, hkeys, hrest⟩ => exact ⟨hnodup, fun k => by rw [hkeys k, hdone k], hrest⟩

/-- Once every key of the top layer is done, the dirty sets list the layers
the commit leaves. -/
theorem forall₂_commit {keys : List K} {s' : Layered K (InnerValue V)} (h : LowerDirty s dirty keys)
    (hkeys : ∀ k, k ∈ keys ↔ (s.top k).isSome) (hcommit : s.commit mergeVersions = some s') :
    List.Forall₂ DirtyLayer dirty s'.layers := by
  unfold LowerDirty at h
  unfold Layered.commit at hcommit
  unfold Layered.top at hkeys
  match hl : s.layers, dirty, h, hcommit with
  | [_], [], _, hcommit =>
    simp only [Option.some.injEq] at hcommit
    subst hcommit
    exact .nil
  | layer :: lower :: rest, dk :: drest, ⟨hnodup, hdk, hrest⟩, hcommit =>
    simp only [Option.some.injEq] at hcommit
    subst hcommit
    refine .cons ⟨hnodup, fun k => ?_⟩ hrest
    simp only [hl] at hkeys
    rw [hdk k, hkeys k]
    unfold Layered.mergeInto
    cases layer k <;> cases lower k <;> simp

end LowerDirty

variable [LinearOrder K]

/-- The overlay holds the layered store `s`: the entry of each key is its
versions in `s`, and each dirty set lists, once each, the keys of its layer. -/
structure Refines (m : OverlayedMap K V) (s : Layered K (InnerValue V)) : Prop where
  changes : ∀ k, m.changes.get? k = entryOf (s.versions k)
  dirty : List.Forall₂ DirtyLayer m.dirtyKeys s.layers

namespace Refines

variable {m : OverlayedMap K V} {s : Layered K (InnerValue V)}

theorem empty : Refines (OverlayedMap.empty : OverlayedMap K V) (Layered.fresh 0) where
  changes _ := rfl
  dirty := .nil

theorem depth_eq (h : Refines m s) : m.transactionDepth = s.layers.length :=
  h.dirty.length_eq

/-- A write of a key that puts `f` of its top version over the versions
below, and marks the key dirty, writes the top layer. -/
theorem insert_write (h : Refines m s) (k : K) (f : Option (InnerValue V) → InnerValue V) :
    Refines { m with changes := m.changes.insert k ⟨f (s.top k) :: s.below k⟩, dirtyKeys := (insertDirty m.dirtyKeys k).1 }
      (s.write k f) := by
  refine ⟨fun k' => ?_, (insertDirty_write h.dirty k f).1⟩
  by_cases hk : k' = k
  · subst hk
    simp
  · simp only [OrderedMap.get?_insert_of_ne hk, h.changes, Layered.versions_write_of_ne _ hk]

theorem set (h : Refines m s) (k : K) (value : V) (atExtrinsic : Option ℕ) :
    Refines (m.set k value atExtrinsic) (s.write k (stamp value atExtrinsic)) := by
  obtain ⟨_, hfirst, hnone⟩ := insertDirty_write h.dirty k (stamp value atExtrinsic)
  have hentry : ((m.changes.get? k).getD .empty).set value (insertDirty m.dirtyKeys k).2 atExtrinsic =
      ⟨stamp value atExtrinsic (s.top k) :: s.below k⟩ := by
    rw [h.changes, getD_entryOf, Layered.versions_eq, OverlayedEntry.set_of_top _ _ _ _ _ hfirst hnone]
  have hset : m.set k value atExtrinsic =
      { m with changes := m.changes.insert k ⟨stamp value atExtrinsic (s.top k) :: s.below k⟩,
               dirtyKeys := (insertDirty m.dirtyKeys k).1 } := by
    rw [OverlayedMap.set]
    cases hid : insertDirty m.dirtyKeys k with
    | mk dirty first =>
      rw [hid] at hentry
      dsimp only
      rw [hentry]
  rw [hset]
  exact h.insert_write k _

theorem valueRef_get (h : Refines m s) (k : K) :
    (m.get k).bind OverlayedEntry.valueRef = (s.read k).map (·.value) := by
  rw [OverlayedMap.get, h.changes k, Layered.read]
  cases s.versions k with
  | nil => rfl
  | cons v vs => rfl

theorem startTransaction (h : Refines m s) : Refines m.startTransaction s.start where
  changes k := by
    rw [OverlayedMap.startTransaction, Layered.versions_start]
    exact h.changes k
  dirty := .cons ⟨List.nodup_nil, fun _ => by simp⟩ h.dirty

end Refines

/-! ## Closing a transaction, one key at a time -/

namespace OverlayedMap

variable {m : OverlayedMap K V} {k : K} {t : InnerValue V} {rest : List (InnerValue V)}

/-- A rollback drops the key's current version, and the entry with it if no
version is left. -/
theorem closeKey_rollback (hget : m.changes.get? k = some ⟨t :: rest⟩) :
    m.closeKey true k =
      some { m with changes := if rest = [] then m.changes.erase k else m.changes.insert k ⟨rest⟩ } := by
  cases rest <;> simp [closeKey, hget, OverlayedEntry.popTransaction]

/-- A commit merges the current version into the one below, where the
transaction below wrote the key (or, closing the last one, where a committed
version is there). -/
theorem closeKey_merge {l : InnerValue V} (hget : m.changes.get? k = some ⟨t :: l :: rest⟩)
    (hpred : ∀ dk drest, m.dirtyKeys = dk :: drest → k ∈ dk) :
    m.closeKey false k = some { m with changes := m.changes.insert k ⟨mergeVersions l t :: rest⟩ } := by
  cases hd : m.dirtyKeys with
  | nil => simp [closeKey, hget, hd, OverlayedEntry.popTransaction, OverlayedEntry.mergeDropped, mergeVersions]
  | cons dk drest =>
    have hk := hpred dk drest hd
    simp [closeKey, hget, hd, hk, OverlayedEntry.popTransaction, OverlayedEntry.mergeDropped, mergeVersions]

/-- Otherwise it hands the version down to the transaction below, which now
counts the key as written. -/
theorem closeKey_handDown (hget : m.changes.get? k = some ⟨t :: rest⟩)
    (hpred : (m.dirtyKeys = [] → rest = []) ∧ ∀ dk drest, m.dirtyKeys = dk :: drest → k ∉ dk) :
    m.closeKey false k =
      some { m with dirtyKeys := match m.dirtyKeys with
        | dk :: drest => (k :: dk) :: drest
        | [] => [] } := by
  cases hd : m.dirtyKeys with
  | nil =>
    have hrest := hpred.1 hd
    subst hrest
    simp [closeKey, hget, hd]
  | cons dk drest =>
    have hk := hpred.2 dk drest hd
    simp [closeKey, hget, hd, hk]

end OverlayedMap

section Loops

variable {s : Layered K (InnerValue V)}

/-- After the key is closed by a rollback, its entry is its versions below the
top layer; the others are as they were. -/
theorem get?_closeKey_rollback {m : OverlayedMap K V} {k : K} {t : InnerValue V} {done : List K}
    (hm : ∀ k', m.changes.get? k' = entryOf (if k' ∈ done then s.below k' else s.versions k'))
    (ht : s.top k = some t) (hk : k ∉ done) (k' : K) :
    (if s.below k = [] then m.changes.erase k else m.changes.insert k ⟨s.below k⟩).get? k' =
      entryOf (if k' ∈ k :: done then s.below k' else s.versions k') := by
  by_cases hk' : k' = k
  · subst hk'
    by_cases hnil : s.below k' = []
    · simp [hnil]
    · simp only [if_neg hnil, OrderedMap.get?_insert_self, List.mem_cons_self, if_true]
      unfold entryOf
      rw [if_neg hnil]
  · -- another key, as it was
    have hother : (if s.below k = [] then m.changes.erase k else m.changes.insert k ⟨s.below k⟩).get? k' =
        m.changes.get? k' := by
      by_cases hnil : s.below k = []
      · rw [if_pos hnil, OrderedMap.get?_erase_of_ne hk']
      · rw [if_neg hnil, OrderedMap.get?_insert_of_ne hk']
    have hmem : k' ∈ k :: done ↔ k' ∈ done := by simp [hk']
    rw [hother, hm k']
    simp only [hmem]

/-- The rollback loop over the keys of the top layer, `done` those closed
already: each key closed has lost its top version. The induction is on the
keys left. -/
theorem foldlM_closeKey_rollback :
    ∀ (keys done : List K) (m : OverlayedMap K V), (keys ++ done).Nodup → (∀ k ∈ keys, (s.top k).isSome) →
      (∀ k, m.changes.get? k = entryOf (if k ∈ done then s.below k else s.versions k)) →
      ∃ m', keys.foldlM (OverlayedMap.closeKey true) m = some m' ∧ m'.dirtyKeys = m.dirtyKeys ∧
        m'.numClientTransactions = m.numClientTransactions ∧ m'.executionMode = m.executionMode ∧
        ∀ k, m'.changes.get? k = entryOf (if k ∈ keys ++ done then s.below k else s.versions k)
  | [], done, m, _, _, hm => ⟨m, rfl, rfl, rfl, rfl, by simpa using hm⟩
  | k :: keys, done, m, hnodup, htop, hm => by
    obtain ⟨t, ht⟩ := Option.isSome_iff_exists.mp (htop k List.mem_cons_self)
    have hk : k ∉ done := fun hk => (List.nodup_cons.mp hnodup).1 (List.mem_append_right _ hk)
    -- the current version is the top one
    have hget : m.changes.get? k = some ⟨t :: s.below k⟩ := by
      rw [hm k, if_neg hk, Layered.versions_eq, ht]
      rfl
    obtain ⟨m', hfold, hdirty, hclient, hmode, hchanges⟩ :=
      foldlM_closeKey_rollback keys (k :: done)
        { m with changes := if s.below k = [] then m.changes.erase k else m.changes.insert k ⟨s.below k⟩ }
        (List.nodup_middle.mpr hnodup)
        (fun k' hk' => htop k' (List.mem_cons_of_mem _ hk')) (get?_closeKey_rollback hm ht hk)
    refine ⟨m', ?_, hdirty, hclient, hmode, fun k' => ?_⟩
    · rw [List.foldlM_cons, OverlayedMap.closeKey_rollback hget]
      exact hfold
    · have hmem : k' ∈ keys ++ k :: done ↔ k' ∈ k :: keys ++ done := by simp [or_left_comm]
      simp only [hchanges k', hmem]


/-- After the key is closed by a commit, its entry is its versions in the
committed store `s'`; the others are as they were. -/
theorem closeKey_commit {s' : Layered K (InnerValue V)} (hcommit : s.commit mergeVersions = some s')
    {m : OverlayedMap K V} {k : K} {t : InnerValue V} {done : List K}
    (hm : ∀ k', m.changes.get? k' = entryOf (if k' ∈ done then s'.versions k' else s.versions k'))
    (hlower : LowerDirty s m.dirtyKeys done) (ht : s.top k = some t) (hk : k ∉ done) :
    ∃ m', m.closeKey false k = some m' ∧ m'.numClientTransactions = m.numClientTransactions ∧
      m'.executionMode = m.executionMode ∧ LowerDirty s m'.dirtyKeys (k :: done) ∧
      ∀ k', m'.changes.get? k' = entryOf (if k' ∈ k :: done then s'.versions k' else s.versions k') := by
  have hget : m.changes.get? k = some ⟨t :: s.below k⟩ := by
    rw [hm k, if_neg hk, Layered.versions_eq, ht]
    rfl
  have hvers := Layered.versions_of_commit hcommit k
  rw [ht] at hvers
  cases hn : s.next k with
  | some l =>
    -- the transaction below has a version of the key: merge into it
    rw [hn] at hvers
    rw [Layered.below_of_next hn] at hget
    have hpred : ∀ dk drest, m.dirtyKeys = dk :: drest → k ∈ dk := by
      intro dk drest hd
      have hlower' : LowerDirty s (dk :: drest) done := hd ▸ hlower
      exact (hlower'.mem_iff hk).mpr (by simp [hn])
    refine ⟨_, OverlayedMap.closeKey_merge hget hpred, rfl, rfl, hlower.merge hpred, fun k' => ?_⟩
    by_cases hk' : k' = k
    · subst hk'
      simp [hvers]
    · rw [OrderedMap.get?_insert_of_ne hk', hm k']
      simp [hk']
  | none =>
    have hsame : s'.versions k = s.versions k := by simpa [hn] using hvers
    have hpred : (m.dirtyKeys = [] → s.below k = []) ∧ ∀ dk drest, m.dirtyKeys = dk :: drest → k ∉ dk := by
      constructor
      · intro hd
        have hlower' : LowerDirty s [] done := hd ▸ hlower
        rw [hlower'.below_of_nil, hn]
        rfl
      · intro dk drest hd hmem
        have hlower' : LowerDirty s (dk :: drest) done := hd ▸ hlower
        have hsome := (hlower'.mem_iff hk).mp hmem
        simp [hn] at hsome
    refine ⟨_, OverlayedMap.closeKey_handDown hget hpred, rfl, rfl, ?_, fun k' => ?_⟩
    · cases hd : m.dirtyKeys with
      | nil => exact (hd ▸ hlower).nil_done _
      | cons dk drest => exact (hd ▸ hlower).handDown (hpred.2 dk drest hd)
    · by_cases hk' : k' = k
      · subst hk'
        simp [hm k', hk, hsame]
      · simp [hm k', hk']

/-- The commit loop over the keys of the top layer, `done` those closed
already: each key closed has its versions in the committed store, and the
dirty sets below take the keys handed down. The induction is on the keys
left. -/
theorem foldlM_closeKey_commit {s' : Layered K (InnerValue V)} (hcommit : s.commit mergeVersions = some s') :
    ∀ (keys done : List K) (m : OverlayedMap K V), (keys ++ done).Nodup → (∀ k ∈ keys, (s.top k).isSome) →
      LowerDirty s m.dirtyKeys done →
      (∀ k, m.changes.get? k = entryOf (if k ∈ done then s'.versions k else s.versions k)) →
      ∃ m', keys.foldlM (OverlayedMap.closeKey false) m = some m' ∧
        m'.numClientTransactions = m.numClientTransactions ∧ m'.executionMode = m.executionMode ∧
        LowerDirty s m'.dirtyKeys (keys ++ done) ∧
        ∀ k, m'.changes.get? k = entryOf (if k ∈ keys ++ done then s'.versions k else s.versions k)
  | [], done, m, _, _, hlower, hm => ⟨m, rfl, rfl, rfl, by simpa using hlower, by simpa using hm⟩
  | k :: keys, done, m, hnodup, htop, hlower, hm => by
    obtain ⟨t, ht⟩ := Option.isSome_iff_exists.mp (htop k List.mem_cons_self)
    have hk : k ∉ done := fun hk => (List.nodup_cons.mp hnodup).1 (List.mem_append_right _ hk)
    obtain ⟨m₁, hclose, hclient₁, hmode₁, hlower₁, hm₁⟩ := closeKey_commit hcommit hm hlower ht hk
    obtain ⟨m', hfold, hclient, hmode, hlower', hchanges⟩ :=
      foldlM_closeKey_commit hcommit keys (k :: done) m₁ (List.nodup_middle.mpr hnodup)
        (fun k' hk' => htop k' (List.mem_cons_of_mem _ hk')) hlower₁ hm₁
    have hmem : ∀ k', k' ∈ keys ++ k :: done ↔ k' ∈ k :: keys ++ done := fun k' => by simp [or_left_comm]
    refine ⟨m', ?_, hclient.trans hclient₁, hmode.trans hmode₁, hlower'.of_mem_iff hmem, fun k' => ?_⟩
    · rw [List.foldlM_cons, hclose]
      exact hfold
    · simp only [hchanges k', hmem]

end Loops

/-! ## Closing a transaction -/

namespace OverlayedMap

variable {m m' : OverlayedMap K V}

theorem run_closeTransaction_of_guard (rollback : Bool)
    (hguard : m.executionMode = .runtime ∧ m.hasOpenRuntimeTransactions = false) :
    (closeTransaction rollback).run m = .error (.error .noOpenTransaction) m := by
  simp [closeTransaction, hguard]

theorem run_closeTransaction_of_nil (rollback : Bool) (hd : m.dirtyKeys = []) :
    (closeTransaction rollback).run m = .error (.error .noOpenTransaction) m := by
  by_cases hguard : m.executionMode = .runtime ∧ m.hasOpenRuntimeTransactions = false
  · exact run_closeTransaction_of_guard rollback hguard
  · simp [closeTransaction, hguard, hd]

theorem run_closeTransaction_of_foldlM {rollback : Bool} {keys : List K} {rest : List (List K)}
    (hguard : ¬ (m.executionMode = .runtime ∧ m.hasOpenRuntimeTransactions = false))
    (hd : m.dirtyKeys = keys :: rest)
    (hfold : keys.foldlM (closeKey rollback) { m with dirtyKeys := rest } = some m') :
    (closeTransaction rollback).run m = .ok () m' := by
  simp [closeTransaction, hguard, hd, hfold]

end OverlayedMap

namespace Refines

variable {m : OverlayedMap K V} {s s' : Layered K (InnerValue V)}

theorem mem_top_iff {keys : List K} {rest : List (List K)} (h : Refines m s) (hd : m.dirtyKeys = keys :: rest)
    (k : K) : k ∈ keys ↔ (s.top k).isSome := by
  have hdirty := h.dirty
  rw [hd] at hdirty
  unfold Layered.top
  match hl : s.layers, hdirty with
  | _ :: _, .cons ⟨_, hkeys⟩ _ => exact hkeys k

theorem nodup_top {keys : List K} {rest : List (List K)} (h : Refines m s) (hd : m.dirtyKeys = keys :: rest) :
    keys.Nodup := by
  have hdirty := h.dirty
  rw [hd] at hdirty
  match hl : s.layers, hdirty with
  | _ :: _, .cons ⟨hnodup, _⟩ _ => exact hnodup

theorem rollbackTransaction (h : Refines m s)
    (hguard : ¬ (m.executionMode = .runtime ∧ m.hasOpenRuntimeTransactions = false))
    (hs : s.rollback = some s') :
    ∃ m', OverlayedMap.rollbackTransaction.run m = .ok () m' ∧ Refines m' s' ∧
      m'.numClientTransactions = m.numClientTransactions ∧ m'.executionMode = m.executionMode := by
  have hlayers := Layered.layers_of_rollback hs
  obtain ⟨keys, rest, hd, hrest⟩ : ∃ keys rest, m.dirtyKeys = keys :: rest ∧ List.Forall₂ DirtyLayer rest s'.layers := by
    have hdirty := h.dirty
    cases hd : m.dirtyKeys with
    | nil =>
      -- no dirty set: no layer to drop
      rw [hd] at hdirty
      simp [Layered.rollback, List.forall₂_nil_left_iff.mp hdirty] at hs
    | cons keys rest =>
      rw [hd] at hdirty
      obtain ⟨_, layers, _, hrest, hl⟩ := List.forall₂_cons_left_iff.mp hdirty
      rw [hlayers, hl]
      exact ⟨keys, rest, rfl, hrest⟩
  obtain ⟨m', hfold, hdirty, hclient, hmode, hchanges⟩ :=
    foldlM_closeKey_rollback keys [] { m with dirtyKeys := rest } (by simpa using h.nodup_top hd)
      (fun k hk => (h.mem_top_iff hd k).mp hk) (fun k => by simpa using h.changes k)
  refine ⟨m', OverlayedMap.run_closeTransaction_of_foldlM hguard hd hfold, ⟨fun k => ?_, ?_⟩, hclient, hmode⟩
  · rw [hchanges k, Layered.versions_of_rollback hs]
    by_cases hk : k ∈ keys
    · simp [hk]
    · -- a key the transaction did not write reads through it
      have hnone : s.top k = none := by simpa using (h.mem_top_iff hd k).not.mp hk
      simp [hk, Layered.versions_of_top_eq_none hnone]
  · rw [hdirty]
    exact hrest

/-- `commit_transaction` past the guard merges the top layer into the one
below. -/
theorem commitTransaction (h : Refines m s)
    (hguard : ¬ (m.executionMode = .runtime ∧ m.hasOpenRuntimeTransactions = false))
    (hs : s.commit mergeVersions = some s') :
    ∃ m', OverlayedMap.commitTransaction.run m = .ok () m' ∧ Refines m' s' ∧
      m'.numClientTransactions = m.numClientTransactions ∧ m'.executionMode = m.executionMode := by
  obtain ⟨keys, rest, hd, hlower⟩ : ∃ keys rest, m.dirtyKeys = keys :: rest ∧ LowerDirty s rest [] := by
    have hdirty := h.dirty
    cases hd : m.dirtyKeys with
    | nil =>
      -- no dirty set: no layer to merge
      rw [hd] at hdirty
      simp [Layered.commit, List.forall₂_nil_left_iff.mp hdirty] at hs
    | cons keys rest =>
      rw [hd] at hdirty
      exact ⟨keys, rest, rfl, LowerDirty.of_forall₂ hdirty⟩
  obtain ⟨m', hfold, hclient, hmode, hlower', hchanges⟩ :=
    foldlM_closeKey_commit hs keys [] { m with dirtyKeys := rest } (by simpa using h.nodup_top hd)
      (fun k hk => (h.mem_top_iff hd k).mp hk) hlower (fun k => by simpa using h.changes k)
  refine ⟨m', OverlayedMap.run_closeTransaction_of_foldlM hguard hd hfold, ⟨fun k => ?_, ?_⟩, hclient, hmode⟩
  · rw [hchanges k]
    by_cases hk : k ∈ keys
    · simp [hk]
    · -- a key the transaction did not write keeps its versions
      have hnone : s.top k = none := by simpa using (h.mem_top_iff hd k).not.mp hk
      simp [hk, Layered.versions_of_commit hs, hnone]
  · exact hlower'.forall₂_commit (fun k => by simpa using h.mem_top_iff hd k) hs

/-! ## Leaving the runtime -/

theorem rollbackTransaction_of_client (h : Refines m s) (hmode : m.executionMode = .client)
    (hdepth : s.layers ≠ []) :
    ∃ m', OverlayedMap.rollbackTransaction.run m = .ok () m' ∧
      Refines m' { s with layers := s.layers.tail } ∧
      m'.numClientTransactions = m.numClientTransactions ∧ m'.executionMode = m.executionMode := by
  have hs : s.rollback = some { s with layers := s.layers.tail } := by
    unfold Layered.rollback
    cases hl : s.layers with
    | nil => exact absurd hl hdepth
    | cons layer rest => rfl
  exact h.rollbackTransaction (by simp [hmode]) hs

/-- The loop of `exit_runtime`, the mode back to client: with fuel for every
transaction the runtime left open, it drops their layers and nothing else.
The induction is on the fuel. -/
theorem rollbackRuntimeTransactions :
    ∀ (fuel : ℕ) {m : OverlayedMap K V} {s : Layered K (InnerValue V)}, Refines m s →
      m.executionMode = .client → m.transactionDepth - m.numClientTransactions ≤ fuel →
      ∃ m', (OverlayedMap.rollbackRuntimeTransactions fuel).run m = .ok () m' ∧
        Refines m' { s with layers := s.layers.drop (m.transactionDepth - m.numClientTransactions) } ∧
        m'.numClientTransactions = m.numClientTransactions ∧ m'.executionMode = m.executionMode
  | 0, m, s, h, _, hfuel => by
    refine ⟨m, rfl, ?_, rfl, rfl⟩
    rw [Nat.le_zero.mp hfuel, List.drop_zero]
    exact h
  | fuel + 1, m, s, h, hmode, hfuel => by
    by_cases hopen : m.hasOpenRuntimeTransactions = true
    · -- a transaction the runtime opened: roll it back, then the rest
      have hlt : m.numClientTransactions < m.transactionDepth := by
        simpa [OverlayedMap.hasOpenRuntimeTransactions] using hopen
      have hdepth : s.layers ≠ [] := by
        rw [← List.length_pos_iff, ← h.depth_eq]
        omega
      obtain ⟨m₁, hrun₁, h₁, hclient₁, hmode₁⟩ := h.rollbackTransaction_of_client hmode hdepth
      have hdepth₁ : m₁.transactionDepth = m.transactionDepth - 1 := by
        rw [h₁.depth_eq, h.depth_eq, List.length_tail]
      obtain ⟨m', hrun, h', hclient, hmode'⟩ :=
        rollbackRuntimeTransactions fuel h₁ (hmode₁.trans hmode) (by omega)
      refine ⟨m', ?_, ?_, hclient.trans hclient₁, hmode'.trans hmode₁⟩
      · have hexpect : (expect OverlayedMap.rollbackTransaction : MapCall K V Unit).run m = .ok () m₁ := by
          rw [run_expect, hrun₁]
        simp only [OverlayedMap.rollbackRuntimeTransactions, run_get_bind, hopen, if_true]
        rw [run_bind_ok hexpect]
        exact hrun
      · have hn : m.transactionDepth - m.numClientTransactions =
            m₁.transactionDepth - m₁.numClientTransactions + 1 := by
          omega
        rw [hn, ← List.drop_tail]
        exact h'
    · -- none: the loop ends
      have hle : m.transactionDepth - m.numClientTransactions = 0 := by
        simp [OverlayedMap.hasOpenRuntimeTransactions] at hopen
        omega
      refine ⟨m, ?_, ?_, rfl, rfl⟩
      · simp [OverlayedMap.rollbackRuntimeTransactions, hopen]
      · rw [hle, List.drop_zero]
        exact h

/-- `exit_runtime` in the runtime drops the layers of the transactions the
runtime opened, and only those. -/
theorem exitRuntime (h : Refines m s) (hmode : m.executionMode = .runtime) :
    ∃ m', OverlayedMap.exitRuntime.run m = .ok () m' ∧
      Refines m' { s with layers := s.layers.drop (m.transactionDepth - m.numClientTransactions) } ∧
      m'.numClientTransactions = m.numClientTransactions ∧ m'.executionMode = .client := by
  have hclient : Refines { m with executionMode := .client } s := ⟨h.changes, h.dirty⟩
  obtain ⟨m', hrun, h', hclient', hmode'⟩ :=
    rollbackRuntimeTransactions m.transactionDepth hclient rfl (Nat.sub_le _ _)
  refine ⟨m', ?_, h', hclient', hmode'⟩
  simp only [OverlayedMap.exitRuntime, run_get_bind, hmode, reduceCtorEq, if_false, run_set_bind]
  exact hrun

end Refines

end SocialNetwork.StateMachine
