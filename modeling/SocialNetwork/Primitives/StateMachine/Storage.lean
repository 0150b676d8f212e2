import SocialNetwork.Primitives.StateMachine.Transactions

/-!
# The change set of storage values

`OverlayedChangeSet` is the overlay of storage values, `Option StorageValue`
with `None` for a deletion. Beside the overlay's calls it has two of its own.
`modify` hands the caller the current value of a key to rewrite in place:
against the stack of layers it rewrites the key's top entry, the version of
the transaction if it has one, or else a new version from the value the key
reads (or `init`). `clear_where` deletes each entry a predicate picks: it
writes a deletion over the top entry of every key with a version that the
predicate picks (`Layered.writeWhere`).

With these two the change set still simulates the stack
(`simulates_changeSet`), and every run of change-set calls from the empty
one runs without a panic and reads what the stack reads
(`changeSet_refines_transactionStack`).
-/

namespace SocialNetwork.StateMachine

open Dispatch

variable {V : Type}

/-- The version `modify` leaves on top, from the top one: that one with its
value rewritten, or a new version of `fallback` (the value the key reads, or
`init`) recorded at the extrinsic and then rewritten. -/
def modified (update : V → V) (fallback : V) (atExtrinsic : Option ℕ) (top : Option (InnerValue V)) :
    InnerValue V :=
  match top with
  | some t => { t with value := update t.value }
  | none =>
    let v := stamp fallback atExtrinsic none
    { v with value := update v.value }

/-- What `clear_where` picks in a store: the keys with a version whose entry
the predicate picks. -/
def cleared (s : Layered StorageKey (InnerValue (Option StorageValue)))
    (predicate : StorageKey → OverlayedEntry (Option StorageValue) → Bool) (k : StorageKey) : Bool :=
  !(s.versions k).isEmpty && predicate k ⟨s.versions k⟩

theorem value_modified (update : V → V) (fallback : V) (atExtrinsic : Option ℕ) (top : Option (InnerValue V)) :
    (modified update fallback atExtrinsic top).value = update ((top.map (·.value)).getD fallback) := by
  cases top <;> rfl

/-! ## `modify` -/

namespace Refines

variable {m : OverlayedChangeSet} {s : Layered StorageKey (InnerValue (Option StorageValue))}

/-- `modify` never panics (its `value_mut` finds a version) and rewrites the
top entry of its key. -/
theorem modify (h : Refines m s) (key : StorageKey) (init : StorageValue) (atExtrinsic : Option ℕ)
    (update : Option StorageValue → Option StorageValue) :
    ∃ m', (OverlayedChangeSet.modify key init atExtrinsic update).run m = .ok () m' ∧
      Refines m' (s.write key (modified update (((s.read key).map (·.value)).getD (some init)) atExtrinsic)) ∧
      m'.numClientTransactions = m.numClientTransactions ∧ m'.executionMode = m.executionMode := by
  obtain ⟨_, hfirst, hnone⟩ := insertDirty_write h.dirty key
    (modified update (((s.read key).map (·.value)).getD (some init)) atExtrinsic)
  have hentry : (m.changes.get? key).getD .empty = ⟨(s.top key).toList ++ s.below key⟩ := by
    rw [h.changes, getD_entryOf, Layered.versions_eq]
  -- the entry `modify` writes is the rewritten top version over the versions below
  have hrun : (OverlayedChangeSet.modify key init atExtrinsic update).run m =
      .ok () { m with
        changes := m.changes.insert key
          ⟨modified update (((s.read key).map (·.value)).getD (some init)) atExtrinsic (s.top key) :: s.below key⟩,
        dirtyKeys := (insertDirty m.dirtyKeys key).1 } := by
    simp only [OverlayedChangeSet.modify, run_get_bind, hentry]
    cases hid : insertDirty m.dirtyKeys key with
    | mk dirty first =>
      rw [hid] at hfirst hnone
      simp only at hfirst hnone
      cases ht : s.top key with
      | some t =>
        have hf : first = false := by
          cases first
          · rfl
          · simp [hfirst rfl] at ht
        subst hf
        simp [OverlayedEntry.modifyValue, modified, unwrap]
      | none =>
        have hread : s.read key = (s.below key).head? := by
          rw [Layered.read, Layered.versions_of_top_eq_none ht]
        cases hb : s.below key with
        | nil =>
          have hset := OverlayedEntry.set_of_top none [] (some init) first atExtrinsic (fun _ => rfl) (fun _ => .inr rfl)
          simp only [Option.toList_none, List.nil_append] at hset
          simp [hset, OverlayedEntry.modifyValue, modified, unwrap, hread, hb]
        | cons v rest =>
          have hf : first = true := by
            rcases hnone ht with hf | hb'
            · exact hf
            · simp [hb] at hb'
          subst hf
          have hset := OverlayedEntry.set_of_top none (v :: rest) v.value true atExtrinsic (fun _ => rfl)
            (fun _ => .inl rfl)
          simp only [Option.toList_none, List.nil_append] at hset
          simp [hset, OverlayedEntry.modifyValue, modified, unwrap, hread, hb]
  refine ⟨_, hrun, ?_, rfl, rfl⟩
  convert h.insert_write key (modified update (((s.read key).map (·.value)).getD (some init)) atExtrinsic)

/-! ## `clear_where` -/

/-- One turn of the loop of `clear_where`, on an entry of the map: a deletion
written over the top entry of its key. -/
theorem clearStep (h : Refines m s) {e : StorageKey × OverlayedEntry (Option StorageValue)}
    (he : m.changes.get? e.1 = some e.2) (atExtrinsic : Option ℕ) :
    Refines (let (dirtyKeys, firstWriteInTx) := insertDirty m.dirtyKeys e.1
        { m with changes := m.changes.insert e.1 (e.2.set none firstWriteInTx atExtrinsic), dirtyKeys })
      (s.write e.1 (stamp none atExtrinsic)) := by
  have hentry : (m.changes.get? e.1).getD .empty = e.2 := by
    rw [he]
    rfl
  have hdec : (fun a b => instDecidableEqList a b : DecidableEq StorageKey) = fun a b => LinearOrder.toDecidableEq a b :=
    Subsingleton.elim _ _
  convert h.set e.1 none atExtrinsic using 1
  · rw [OverlayedMap.set, hentry, hdec]
  · rw [hdec]

/-- The loop of `clear_where` over entries of the map, `done` the keys
cleared already: each key cleared has a deletion over its top entry. The
induction is on the entries left. -/
theorem foldl_clearStep (atExtrinsic : Option ℕ) :
    ∀ (l : List (StorageKey × OverlayedEntry (Option StorageValue))) (done : List StorageKey) (m : OverlayedChangeSet),
      (l.map Prod.fst ++ done).Nodup → (∀ e ∈ l, m.changes.get? e.1 = some e.2) →
      Refines m (s.writeWhere (fun k => done.contains k) (stamp none atExtrinsic)) →
      Refines
        (l.foldl (fun m e =>
          let (dirtyKeys, firstWriteInTx) := insertDirty m.dirtyKeys e.1
          { m with changes := m.changes.insert e.1 (e.2.set none firstWriteInTx atExtrinsic), dirtyKeys }) m)
        (s.writeWhere (fun k => (l.map Prod.fst ++ done).contains k) (stamp none atExtrinsic))
  | [], done, m, _, _, h => by simpa using h
  | e :: l, done, m, hnodup, hl, h => by
    have hk : e.1 ∉ done := fun hk => (List.nodup_cons.mp hnodup).1 (List.mem_append_right _ hk)
    -- the first key cleared joins the keys done
    have h₁ := h.clearStep (hl e List.mem_cons_self) atExtrinsic
    rw [Layered.write_writeWhere _ (by simpa using hk)] at h₁
    have hrest : ∀ e' ∈ l, (let (dirtyKeys, firstWriteInTx) := insertDirty m.dirtyKeys e.1
        { m with changes := m.changes.insert e.1 (e.2.set none firstWriteInTx atExtrinsic), dirtyKeys }).changes.get? e'.1 =
          some e'.2 := by
      intro e' he'
      have hne : e'.1 ≠ e.1 := by
        rintro heq
        exact (List.nodup_cons.mp hnodup).1 (List.mem_append_left _ (heq ▸ List.mem_map_of_mem he'))
      cases insertDirty m.dirtyKeys e.1
      exact (OrderedMap.get?_insert_of_ne hne).trans (hl e' (List.mem_cons_of_mem _ he'))
    have hwhere : ∀ k, (decide (k = e.1) || done.contains k) = (e.1 :: done).contains k := by
      intro k
      by_cases hk' : k = e.1 <;> simp [hk']
    rw [Layered.writeWhere_congr _ hwhere] at h₁
    have hfold := foldl_clearStep atExtrinsic l (e.1 :: done) _ (List.nodup_middle.mpr hnodup) hrest h₁
    have hmem : ∀ k, (l.map Prod.fst ++ e.1 :: done).contains k = ((e :: l).map Prod.fst ++ done).contains k := by
      intro k
      rw [Bool.eq_iff_iff]
      simp [or_left_comm]
    rw [Layered.writeWhere_congr _ hmem] at hfold
    exact hfold

/-- `clear_where` writes a deletion over the top entry of each key with a
version whose entry the predicate picks, and of no other key. -/
theorem clearWhere (h : Refines m s) (predicate : StorageKey → OverlayedEntry (Option StorageValue) → Bool)
    (atExtrinsic : Option ℕ) :
    Refines (OverlayedChangeSet.clearWhere m predicate atExtrinsic)
      (s.writeWhere (cleared s predicate) (stamp none atExtrinsic)) := by
  have hnodup : ((m.changes.entries.filter fun e : StorageKey × OverlayedEntry (Option StorageValue) =>
      predicate e.1 e.2).map Prod.fst ++ []).Nodup := by
    rw [List.append_nil]
    exact List.Pairwise.map Prod.fst (fun _ _ h => ne_of_lt h) (m.changes.sorted.filter _)
  have hentries : ∀ e ∈ m.changes.entries.filter fun e : StorageKey × OverlayedEntry (Option StorageValue) =>
      predicate e.1 e.2, m.changes.get? e.1 = some e.2 :=
    fun e he => OrderedMap.get?_of_mem (List.mem_filter.mp he).1
  have hstart : Refines m (s.writeWhere (fun k => ([] : List StorageKey).contains k) (stamp none atExtrinsic)) := by
    simpa [Layered.writeWhere_false] using h
  have hloop := foldl_clearStep atExtrinsic _ [] m hnodup hentries hstart
  -- the keys of the entries picked are the keys `cleared` picks
  have hpicked : ∀ k, ((m.changes.entries.filter fun e : StorageKey × OverlayedEntry (Option StorageValue) =>
      predicate e.1 e.2).map Prod.fst ++ []).contains k =
      cleared s predicate k := by
    intro k
    rw [List.append_nil, Bool.eq_iff_iff, cleared]
    simp only [List.contains_iff_mem, List.mem_map, List.mem_filter, Bool.and_eq_true, Bool.not_eq_true',
      List.isEmpty_eq_false_iff]
    constructor
    · -- a key picked has an entry, its versions
      rintro ⟨e, ⟨hmem, hpred⟩, rfl⟩
      obtain ⟨hne, hentry⟩ := entryOf_eq_some.mp ((OrderedMap.get?_of_mem hmem).symm.trans (h.changes e.1)).symm
      exact ⟨hne, hentry ▸ hpred⟩
    · rintro ⟨hne, hpred⟩
      have hget : m.changes.get? k = some ⟨s.versions k⟩ := (h.changes k).trans (entryOf_eq_some.mpr ⟨hne, rfl⟩)
      exact ⟨(k, ⟨s.versions k⟩), ⟨OrderedMap.mem_of_get? hget, hpred⟩, rfl⟩
  rw [Layered.writeWhere_congr _ hpicked] at hloop
  exact hloop

end Refines

theorem OverlayedChangeSet.clearWhere_keeps (m : OverlayedChangeSet)
    (predicate : StorageKey → OverlayedEntry (Option StorageValue) → Bool) (atExtrinsic : Option ℕ) :
    (m.clearWhere predicate atExtrinsic).numClientTransactions = m.numClientTransactions ∧
      (m.clearWhere predicate atExtrinsic).executionMode = m.executionMode := by
  unfold OverlayedChangeSet.clearWhere
  generalize m.changes.entries.filter _ = l
  induction l generalizing m with
  | nil => exact ⟨rfl, rfl⟩
  | cons e l ih =>
    rw [List.foldl_cons]
    refine (ih _).imp (fun h => h.trans ?_) (fun h => h.trans ?_) <;>
      cases insertDirty m.dirtyKeys e.1 <;> rfl

/-! ## The change set's calls -/

/-- The calls a block makes on a change set: the overlay's, `modify` with the
write the caller makes through the reference it returns, and `clear_where`. -/
inductive ChangeSetCommand where
  | overlay (c : Command StorageKey (Option StorageValue))
  | modify (key : StorageKey) (init : StorageValue) (atExtrinsic : Option ℕ)
      (update : Option StorageValue → Option StorageValue)
  | clearWhere (predicate : StorageKey → OverlayedEntry (Option StorageValue) → Bool) (atExtrinsic : Option ℕ)

/-- The change set's entry points. -/
def OverlayedChangeSet.apply : ChangeSetCommand → MapCall StorageKey (Option StorageValue) Unit
  | .overlay c => OverlayedMap.apply c
  | .modify key init atExtrinsic update => OverlayedChangeSet.modify key init atExtrinsic update
  | .clearWhere predicate atExtrinsic => do
    let self ← get
    set (OverlayedChangeSet.clearWhere self predicate atExtrinsic)

/-- The stack's calls for a change set: `modify` rewrites the key's top entry,
`clear_where` writes a deletion over each key it picks. -/
def TransactionStack.applyChange :
    ChangeSetCommand → Call Error (TransactionStack StorageKey (Option StorageValue)) Unit
  | .overlay c => TransactionStack.apply c
  | .modify key init atExtrinsic update => modify fun σ =>
    { σ with store := σ.store.write key (modified update (((σ.store.read key).map (·.value)).getD (some init)) atExtrinsic) }
  | .clearWhere predicate atExtrinsic => modify fun σ =>
    { σ with store := σ.store.writeWhere (cleared σ.store predicate) (stamp none atExtrinsic) }

theorem TransactionStack.neverPanics_applyChange (c : ChangeSetCommand) : NeverPanics (TransactionStack.applyChange c) := by
  cases c with
  | overlay c => exact TransactionStack.neverPanics_apply c
  | modify | clearWhere =>
    intro σ σ' h
    simp [TransactionStack.applyChange] at h

/-- **One call of a change set.** Each call ends as the stack's does, from an
overlay holding the stack to one holding the stack left. -/
theorem simulates_changeSet : Simulates Holds OverlayedChangeSet.apply TransactionStack.applyChange := by
  intro c m σ h
  cases c with
  | overlay c =>
    simp only [OverlayedChangeSet.apply, TransactionStack.applyChange]
    convert simulates c m σ h
  | modify key init atExtrinsic update =>
    obtain ⟨m', hrun, h', hclient, hmode⟩ := h.refines.modify key init atExtrinsic update
    have hcall : (OverlayedChangeSet.apply (.modify key init atExtrinsic update)).run m = .ok () m' := hrun
    rw [hcall]
    exact ⟨rfl, h', hclient.trans h.numClientTransactions, hmode.trans h.executionMode⟩
  | clearWhere predicate atExtrinsic =>
    obtain ⟨hclient, hmode⟩ := OverlayedChangeSet.clearWhere_keeps m predicate atExtrinsic
    exact ⟨rfl, h.refines.clearWhere predicate atExtrinsic, hclient.trans h.numClientTransactions,
      hmode.trans h.executionMode⟩

/-- **The change set refines the stack of transactions.** Every sequence of
calls of a change set from the empty one, `modify` and `clear_where`
included, runs without a panic, and the change set left holds the stack
the same calls leave: each key has the versions the stack has and the value
it reads. -/
theorem changeSet_refines_transactionStack (cs : List ChangeSetCommand) :
    ∃ m σ, execute OverlayedChangeSet.apply cs OverlayedMap.empty = some m ∧
      execute TransactionStack.applyChange cs TransactionStack.empty = some σ ∧ Holds m σ ∧
      ∀ k, (m.get k).bind OverlayedEntry.valueRef = (σ.store.read k).map (·.value) := by
  obtain ⟨m, σ, hm, hσ, h⟩ :=
    simulates_changeSet.execute_eq_some TransactionStack.neverPanics_applyChange cs Holds.empty
  exact ⟨m, σ, hm, hσ, h, h.valueRef_get⟩

/-! ## What a key reads after `modify` and `clear_where` -/

section Reads

variable {m : OverlayedChangeSet}

theorem Holds.of_reachable_changeSet (hm : Reachable OverlayedChangeSet.apply (· = OverlayedMap.empty) m) :
    ∃ σ, Reachable TransactionStack.applyChange (· = TransactionStack.empty) σ ∧ Holds m σ := by
  refine simulates_changeSet.reachable ?_ hm
  intro s hs
  exact ⟨_, rfl, hs ▸ Holds.empty⟩

/-- **`modify` writes through to the key.** In every reachable change set,
`modify` returns its reference without a panic; what the caller writes
through it, from the value the key read (or `init` where it read none), is
what the key reads afterwards, and no other key's entry changes. -/
theorem modify_reads (hm : Reachable OverlayedChangeSet.apply (· = OverlayedMap.empty) m) (key : StorageKey)
    (init : StorageValue) (atExtrinsic : Option ℕ) (update : Option StorageValue → Option StorageValue) :
    ∃ m', (OverlayedChangeSet.modify key init atExtrinsic update).run m = .ok () m' ∧
      (m'.get key).bind OverlayedEntry.valueRef =
        some (update (((m.get key).bind OverlayedEntry.valueRef).getD (some init))) ∧
      ∀ k, k ≠ key → m'.get k = m.get k := by
  obtain ⟨σ, -, h⟩ := Holds.of_reachable_changeSet hm
  obtain ⟨m', hrun, h', -, -⟩ := h.refines.modify key init atExtrinsic update
  refine ⟨m', hrun, ?_, fun k hk => ?_⟩
  · rw [h'.valueRef_get, h.valueRef_get, Layered.read, Layered.versions_write_self]
    simp only [List.head?_cons, Option.map_some, value_modified]
    cases ht : σ.store.top key with
    | some t =>
      rw [Layered.read_eq_top_of_isSome (by simp [ht]), ht]
      rfl
    | none => rfl
  · rw [OverlayedMap.get, OverlayedMap.get, h'.changes k, h.refines.changes k, Layered.versions_write_of_ne _ hk]

theorem modify_reads_empty :
    Reachable OverlayedChangeSet.apply (· = OverlayedMap.empty) (OverlayedMap.empty : OverlayedChangeSet) ∧
    ∃ m', (OverlayedChangeSet.modify [1] [2] (some 0) fun _ => some [3]).run OverlayedMap.empty = .ok () m' ∧
      (m'.get [1]).bind OverlayedEntry.valueRef =
        some ((fun _ => some [3]) ((((OverlayedMap.empty : OverlayedChangeSet).get [1]).bind
          OverlayedEntry.valueRef).getD (some [2]))) ∧
      ∀ k, k ≠ [1] → m'.get k = (OverlayedMap.empty : OverlayedChangeSet).get k :=
  ⟨.start rfl, modify_reads (.start rfl) [1] [2] (some 0) fun _ => some [3]⟩

/-- **`clear_where` deletes what it picks.** In every reachable change set,
after `clear_where` a key whose entry the predicate picks reads a deletion,
and every other key reads what it read before. -/
theorem clearWhere_reads (hm : Reachable OverlayedChangeSet.apply (· = OverlayedMap.empty) m)
    (predicate : StorageKey → OverlayedEntry (Option StorageValue) → Bool) (atExtrinsic : Option ℕ)
    (k : StorageKey) :
    ((m.clearWhere predicate atExtrinsic).get k).bind OverlayedEntry.valueRef =
      match m.get k with
      | some e => if predicate k e then some none else e.valueRef
      | none => none := by
  obtain ⟨σ, -, h⟩ := Holds.of_reachable_changeSet hm
  have h' := h.refines.clearWhere predicate atExtrinsic
  rw [OverlayedMap.get, h'.changes k, Layered.versions_writeWhere, OverlayedMap.get, h.refines.changes k, cleared]
  cases σ.store.versions k with
  | nil => simp
  | cons v vs =>
    by_cases hp : predicate k ⟨v :: vs⟩ <;> simp [hp, OverlayedEntry.valueRef, stamp]

theorem clearWhere_reads_set :
    Reachable OverlayedChangeSet.apply (· = OverlayedMap.empty)
        ((OverlayedMap.empty : OverlayedChangeSet).set [1] (some [5]) none) ∧
      ((OverlayedChangeSet.clearWhere ((OverlayedMap.empty : OverlayedChangeSet).set [1] (some [5]) none)
          (fun _ _ => true) none).get [1]).bind OverlayedEntry.valueRef = some none :=
  have hreach : Reachable OverlayedChangeSet.apply (· = OverlayedMap.empty)
      ((OverlayedMap.empty : OverlayedChangeSet).set [1] (some [5]) none) :=
    Reachable.step (.start rfl) (.overlay (.set [1] (some [5]) none)) (.inl ⟨(), rfl⟩)
  ⟨hreach, (clearWhere_reads hreach (fun _ _ => true) none [1]).trans rfl⟩

end Reads

end SocialNetwork.StateMachine
