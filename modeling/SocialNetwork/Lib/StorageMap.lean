import Mathlib.Data.Finmap
import Mathlib.Algebra.BigOperators.Group.Multiset.Basic

/-!
# Storage maps and their totals

A storage map is a finite map: the keys that have an entry, each with its
value. Ledgers keep running totals beside such a map (a supply beside the
balances, a count beside the entries); those totals are `total f m`, the
sum of `f` over the values of `m`. A count is the total of an indicator.

The two rules below are all the accounting a ledger step needs: writing an
entry and removing one change the total by the value written and the value
that was there (`valueAt`, zero for a missing key).
-/

abbrev StorageMap (κ ν : Type) := Finmap (fun _ : κ => ν)

namespace StorageMap

variable {κ ν : Type} [DecidableEq κ]

/-- The sum of `f` over the values of `m`. -/
def total (f : ν → ℕ) (m : StorageMap κ ν) : ℕ := (m.entries.map fun e => f e.2).sum

def valueAt (f : ν → ℕ) (m : StorageMap κ ν) (k : κ) : ℕ := ((m.lookup k).map f).getD 0

variable {f g : ν → ℕ} {m : StorageMap κ ν} {k : κ} {v : ν}

omit [DecidableEq κ] in
@[simp] theorem total_empty : total f (∅ : StorageMap κ ν) = 0 := rfl

theorem keys_insert (m : StorageMap κ ν) (k : κ) (v : ν) :
    (m.insert k v).keys = insert k m.keys := by
  ext k'
  simp [Finmap.mem_keys, Finmap.mem_insert]

theorem lookup_erase_eq_some {k' : κ} {m : StorageMap κ ν} {v : ν} :
    (m.erase k).lookup k' = some v ↔ k' ≠ k ∧ m.lookup k' = some v := by
  by_cases h : k' = k
  · subst h
    simp
  · simp [Finmap.lookup_erase_ne h, h]

/-! Three extensional facts about `Finmap` that the accounting rules need. -/

theorem insert_erase_self (m : StorageMap κ ν) (k : κ) (v : ν) :
    (m.erase k).insert k v = m.insert k v := by
  refine Finmap.ext_lookup fun k' => ?_
  by_cases h : k' = k
  · subst h; simp
  · simp [Finmap.lookup_insert_of_ne _ h, Finmap.lookup_erase_ne h]

theorem insert_of_lookup (h : m.lookup k = some v) : m.insert k v = m := by
  refine Finmap.ext_lookup fun k' => ?_
  by_cases hk : k' = k
  · subst hk; simp [h]
  · simp [Finmap.lookup_insert_of_ne _ hk]

theorem erase_of_notMem (h : k ∉ m) : m.erase k = m := by
  refine Finmap.ext_lookup fun k' => ?_
  by_cases hk : k' = k
  · subst hk; simp [Finmap.lookup_eq_none.mpr h]
  · simp [Finmap.lookup_erase_ne hk]

theorem erase_insert_of_ne {k' : κ} (h : k ≠ k') :
    (m.insert k v).erase k' = (m.erase k').insert k v := by
  refine Finmap.ext_lookup fun j => ?_
  by_cases hj : j = k
  · subst hj; simp [Finmap.lookup_erase_ne h]
  · by_cases hj' : j = k'
    · subst hj'; simp [Finmap.lookup_insert_of_ne _ hj]
    · simp [Finmap.lookup_erase_ne hj', Finmap.lookup_insert_of_ne _ hj]

@[simp] theorem valueAt_of_lookup (h : m.lookup k = some v) : valueAt f m k = f v := by
  simp [valueAt, h]

@[simp] theorem valueAt_of_notMem (h : k ∉ m) : valueAt f m k = 0 := by
  simp [valueAt, Finmap.lookup_eq_none.mpr h]

theorem total_insert_of_notMem (h : k ∉ m) : total f (m.insert k v) = f v + total f m := by
  rw [total, total, Finmap.entries_insert_of_notMem h, Multiset.map_cons, Multiset.sum_cons]

theorem total_erase_add (h : m.lookup k = some v) : total f (m.erase k) + f v = total f m := by
  have hins : total f ((m.erase k).insert k v) = f v + total f (m.erase k) :=
    total_insert_of_notMem Finmap.notMem_erase_self
  rw [insert_erase_self, insert_of_lookup h] at hins
  omega

theorem total_erase (m : StorageMap κ ν) (k : κ) :
    total f (m.erase k) + valueAt f m k = total f m := by
  cases h : m.lookup k with
  | none =>
      have hk : k ∉ m := Finmap.lookup_eq_none.mp h
      rw [valueAt_of_notMem hk, erase_of_notMem hk]
      rfl
  | some v => rw [valueAt_of_lookup h]; exact total_erase_add h

theorem total_insert (m : StorageMap κ ν) (k : κ) (v : ν) :
    total f (m.insert k v) + valueAt f m k = total f m + f v := by
  have hfresh := total_insert_of_notMem (f := f) (v := v) (Finmap.notMem_erase_self (s := m) (a := k))
  rw [insert_erase_self] at hfresh
  have herase := total_erase (f := f) m k
  omega

theorem valueAt_le_total (m : StorageMap κ ν) (k : κ) : valueAt f m k ≤ total f m := by
  have := total_erase (f := f) m k
  omega

theorem total_congr (h : ∀ k v, m.lookup k = some v → f v = g v) : total f m = total g m := by
  unfold total
  congr 1
  apply Multiset.map_congr rfl
  intro e he
  exact h e.1 e.2 (Finmap.lookup_eq_some_iff.mpr he)

@[simp] theorem valueAt_insert_self : valueAt f (m.insert k v) k = f v := by
  simp [valueAt]

theorem valueAt_insert_of_ne {k' : κ} (h : k' ≠ k) : valueAt f (m.insert k v) k' = valueAt f m k' := by
  simp [valueAt, Finmap.lookup_insert_of_ne _ h]

@[simp] theorem valueAt_erase_self : valueAt f (m.erase k) k = 0 := by
  simp [valueAt]

theorem valueAt_erase_of_ne {k' : κ} (h : k' ≠ k) : valueAt f (m.erase k) k' = valueAt f m k' := by
  simp [valueAt, Finmap.lookup_erase_ne h]

theorem valueAt_add_valueAt_le_total {k' : κ} (m : StorageMap κ ν) (h : k ≠ k') :
    valueAt f m k + valueAt f m k' ≤ total f m := by
  have herase := total_erase (f := f) m k
  have hle := valueAt_le_total (f := f) (m.erase k) k'
  rw [valueAt_erase_of_ne h.symm] at hle
  omega

/-! ## Counting entries

`count p m` is the number of entries for which `p` holds of the key and the
value; `countAt p m k` is `1` when the entry at `k` is one of them. The
rules are those of `total`: writing an entry replaces its indicator. -/

def count (p : κ → ν → Bool) (m : StorageMap κ ν) : ℕ :=
  Multiset.card (m.entries.filter fun e => p e.1 e.2 = true)

def countAt (p : κ → ν → Bool) (m : StorageMap κ ν) (k : κ) : ℕ :=
  ((m.lookup k).map fun v => if p k v then 1 else 0).getD 0

variable {p : κ → ν → Bool}

theorem count_insert_of_notMem (h : k ∉ m) :
    count p (m.insert k v) = (if p k v then 1 else 0) + count p m := by
  rw [count, count, Finmap.entries_insert_of_notMem h, Multiset.filter_cons]
  split <;> simp_all [Nat.add_comm]

theorem count_erase (m : StorageMap κ ν) (k : κ) :
    count p (m.erase k) + countAt p m k = count p m := by
  cases h : m.lookup k with
  | none =>
      have hk : k ∉ m := Finmap.lookup_eq_none.mp h
      simp [countAt, h, erase_of_notMem hk]
  | some v =>
      have hins : count p ((m.erase k).insert k v) = (if p k v then 1 else 0) + count p (m.erase k) :=
        count_insert_of_notMem Finmap.notMem_erase_self
      rw [insert_erase_self, insert_of_lookup h] at hins
      simp only [countAt, h, Option.map_some, Option.getD_some]
      omega

theorem count_insert (m : StorageMap κ ν) (k : κ) (v : ν) :
    count p (m.insert k v) + countAt p m k = count p m + if p k v then 1 else 0 := by
  have hfresh := count_insert_of_notMem (p := p) (v := v) (Finmap.notMem_erase_self (s := m) (a := k))
  rw [insert_erase_self] at hfresh
  have herase := count_erase (p := p) m k
  omega

/-! ## Retaining entries and counting references -/

def retain (p : κ → ν → Bool) (m : StorageMap κ ν) : StorageMap κ ν :=
  ⟨m.entries.filter fun e => p e.1 e.2,
    Quot.induction_on m.entries (fun _ h => h.sublist List.filter_sublist) m.nodupKeys⟩

theorem lookup_retain (p : κ → ν → Bool) (m : StorageMap κ ν) (k : κ) :
    (m.retain p).lookup k = (m.lookup k).filter (p k) := by
  apply Option.ext
  intro v
  rw [Option.filter_eq_some_iff, ← Option.mem_def, ← Option.mem_def, Finmap.mem_lookup_iff,
    Finmap.mem_lookup_iff]
  simp [retain]

def addRef (m : StorageMap κ ℕ) (k : κ) : StorageMap κ ℕ :=
  m.insert k ((m.lookup k).getD 0 + 1)

/-- One reference to `k` less, the entry removed when none is left; `true`
when it was removed. A key without an entry is left alone. -/
def releaseRef (m : StorageMap κ ℕ) (k : κ) : StorageMap κ ℕ × Bool :=
  match m.lookup k with
  | some n => if n - 1 = 0 then (m.erase k, true) else (m.insert k (n - 1), false)
  | none => (m, false)

/-- A reference taken on a key that had none, with the entry removed again,
leaves the map as it was. -/
theorem erase_addRef {m : StorageMap κ ℕ} (h : m.lookup k = none) : (m.addRef k).erase k = m := by
  refine Finmap.ext_lookup fun k' => ?_
  by_cases hk : k' = k
  · subst hk
    simp [h]
  · simp [addRef, Finmap.lookup_erase_ne hk, Finmap.lookup_insert_of_ne _ hk]

/-- A reference taken on a key that had none and released again leaves the
map as it was, the entry reported removed. -/
theorem releaseRef_addRef {m : StorageMap κ ℕ} (h : m.lookup k = none) :
    (m.addRef k).releaseRef k = (m, true) := by
  have herase := erase_addRef h
  rw [addRef, h, Option.getD_none] at herase
  simp [releaseRef, addRef, h, herase]

end StorageMap
