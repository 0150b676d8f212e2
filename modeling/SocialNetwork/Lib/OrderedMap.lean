import Mathlib

/-!
# Ordered maps

A `BTreeMap` as the list of its entries, the keys strictly increasing: its
iterator walks the list, and `insert` puts an entry in place by structural
recursion, so that a map evaluates under `decide`. The order is a field of
the structure (`OrderedMap.sorted`); `insert` keeps it because each entry of
the result is the new one or an old one (`mem_insertList`).
-/

namespace OrderedMap

variable {κ ν : Type} [LinearOrder κ]

/-- The entries with `(k, v)` in its place: before the first greater key,
over an entry of the same key. -/
def insertList (k : κ) (v : ν) : List (κ × ν) → List (κ × ν)
  | [] => [(k, v)]
  | (k', v') :: rest =>
    if k < k' then (k, v) :: (k', v') :: rest
    else if k = k' then (k, v) :: rest
    else (k', v') :: insertList k v rest

theorem mem_insertList {k : κ} {v : ν} {x : κ × ν} :
    ∀ {l : List (κ × ν)}, x ∈ insertList k v l → x = (k, v) ∨ x ∈ l
  | [], h => by simpa [insertList] using h
  | (k', v') :: rest, h => by
    unfold insertList at h
    split_ifs at h with hlt heq
    · simpa using h
    · rcases List.mem_cons.1 h with h | h
      · exact .inl h
      · exact .inr (List.mem_cons_of_mem _ h)
    · rcases List.mem_cons.1 h with h | h
      · exact .inr (h ▸ List.mem_cons_self)
      · rcases mem_insertList h with h | h
        · exact .inl h
        · exact .inr (List.mem_cons_of_mem _ h)

theorem pairwise_insertList (k : κ) (v : ν) :
    ∀ {l : List (κ × ν)}, l.Pairwise (fun a b => a.1 < b.1) →
      (insertList k v l).Pairwise (fun a b => a.1 < b.1)
  | [], _ => List.pairwise_singleton _ _
  | (k', v') :: rest, h => by
    rw [List.pairwise_cons] at h
    unfold insertList
    split_ifs with hlt heq
    · -- the new key is below `k'`, and so below every key after it
      refine List.Pairwise.cons (fun x hx => ?_) (List.Pairwise.cons h.1 h.2)
      rcases List.mem_cons.1 hx with rfl | hx
      · exact hlt
      · exact hlt.trans (h.1 x hx)
    · subst heq
      exact List.Pairwise.cons h.1 h.2
    · -- `k'` stays first: the new key is above it
      have hgt : k' < k := lt_of_le_of_ne (not_lt.1 hlt) (Ne.symm heq)
      refine List.Pairwise.cons (fun x hx => ?_) (pairwise_insertList k v h.2)
      rcases mem_insertList hx with rfl | hx
      · exact hgt
      · exact h.1 x hx

end OrderedMap

/-! ## Lists read off entry by entry

A list made entry by entry, each entry giving its key and a value `g` reads
from it, as a loop over the iterator of a map builds it. -/

namespace OrderedMap

variable {κ ν γ : Type} {g : ν → Option γ} {k : κ}

theorem map_fst_of_forall₂ {es : List (κ × ν)} {ps : List (κ × γ)}
    (hes : List.Forall₂ (fun e p => p.1 = e.1 ∧ g e.2 = some p.2) es ps) :
    ps.map Prod.fst = es.map Prod.fst := by
  induction hes with
  | nil => rfl
  | cons hp _ ih => simp [hp.1, ih]

theorem mem_iff_of_forall₂ {es : List (κ × ν)} {ps : List (κ × γ)}
    (hes : List.Forall₂ (fun e p => p.1 = e.1 ∧ g e.2 = some p.2) es ps) {c : γ} :
    (k, c) ∈ ps ↔ ∃ e ∈ es, e.1 = k ∧ g e.2 = some c := by
  induction hes with
  | nil => simp
  | @cons e p es ps hp _ ih =>
    obtain ⟨p₁, p₂⟩ := p
    obtain ⟨rfl, hv⟩ := hp
    constructor
    · intro hkc
      rcases List.mem_cons.mp hkc with hkc | hkc
      · obtain ⟨rfl, rfl⟩ := Prod.mk.inj hkc
        exact ⟨e, List.mem_cons_self, rfl, hv⟩
      · obtain ⟨e', he', hk, hc⟩ := ih.mp hkc
        exact ⟨e', List.mem_cons_of_mem _ he', hk, hc⟩
    · rintro ⟨e', he', hk, hc⟩
      rcases List.mem_cons.mp he' with rfl | he'
      · -- the head entry reads one value
        rw [hv] at hc
        cases hc
        rw [← hk]
        exact List.mem_cons_self
      · exact List.mem_cons_of_mem _ (ih.mpr ⟨e', he', hk, hc⟩)

/-- The entries with `g` applied to each value, in their order; `none` where
`g` fails on one. -/
def traverseList (g : ν → Option γ) : List (κ × ν) → Option (List (κ × γ))
  | [] => some []
  | e :: rest => (g e.2).bind fun c => (traverseList g rest).map ((e.1, c) :: ·)

theorem forall₂_of_traverseList :
    ∀ {es : List (κ × ν)} {ps : List (κ × γ)}, traverseList g es = some ps →
      List.Forall₂ (fun e p => p.1 = e.1 ∧ g e.2 = some p.2) es ps
  | [], ps, h => by
    cases h
    exact .nil
  | e :: es, ps, h => by
    obtain ⟨c, hc, h⟩ := Option.bind_eq_some_iff.mp h
    obtain ⟨rest, hrest, rfl⟩ := Option.map_eq_some_iff.mp h
    exact .cons ⟨rfl, hc⟩ (forall₂_of_traverseList hrest)

theorem traverseList_isSome :
    ∀ {es : List (κ × ν)}, (∀ e ∈ es, (g e.2).isSome) → (traverseList g es).isSome
  | [], _ => rfl
  | e :: es, h => by
    obtain ⟨c, hc⟩ := Option.isSome_iff_exists.mp (h e List.mem_cons_self)
    obtain ⟨rest, hrest⟩ :=
      Option.isSome_iff_exists.mp (traverseList_isSome fun e' he' => h e' (List.mem_cons_of_mem _ he'))
    simp [traverseList, hc, hrest]

end OrderedMap

/-- A `BTreeMap`: its entries in the order of their keys. -/
structure OrderedMap (κ ν : Type) [LinearOrder κ] where
  entries : List (κ × ν)
  sorted : entries.Pairwise (fun a b => a.1 < b.1)

namespace OrderedMap

variable {κ ν : Type} [LinearOrder κ]

/-- `BTreeMap::new`. -/
def empty : OrderedMap κ ν := ⟨[], .nil⟩

def get? (m : OrderedMap κ ν) (k : κ) : Option ν :=
  (m.entries.find? fun e => e.1 = k).map (·.2)

/-- `BTreeMap::insert`. -/
def insert (m : OrderedMap κ ν) (k : κ) (v : ν) : OrderedMap κ ν :=
  ⟨insertList k v m.entries, pairwise_insertList k v m.sorted⟩

def erase (m : OrderedMap κ ν) (k : κ) : OrderedMap κ ν :=
  ⟨m.entries.filter fun e => e.1 ≠ k, m.sorted.filter _⟩

variable {m : OrderedMap κ ν} {k : κ} {v : ν} {x : κ × ν}

theorem mem_of_get? (h : m.get? k = some v) : (k, v) ∈ m.entries := by
  obtain ⟨e, he, rfl⟩ := Option.map_eq_some_iff.1 h
  have hk : e.1 = k := by simpa using List.find?_some he
  rw [← hk]
  exact List.mem_of_find?_eq_some he

theorem mem_insert (h : x ∈ (m.insert k v).entries) : x = (k, v) ∨ x ∈ m.entries :=
  mem_insertList h

theorem mem_erase (h : x ∈ (m.erase k).entries) : x ∈ m.entries :=
  (List.mem_filter.1 h).1

/-! ## Lookups after a write -/

@[simp] theorem get?_empty (k : κ) : (empty : OrderedMap κ ν).get? k = none := rfl

theorem find?_insertList_self (k : κ) (v : ν) :
    ∀ l : List (κ × ν), (insertList k v l).find? (fun e => e.1 = k) = some (k, v)
  | [] => by simp [insertList]
  | (k', v') :: rest => by
    unfold insertList
    split_ifs with hlt heq
    · simp
    · simp
    · have hne : k' ≠ k := fun h => heq h.symm
      simp [hne, find?_insertList_self k v rest]

theorem find?_insertList_of_ne {k k' : κ} (v : ν) (h : k' ≠ k) :
    ∀ l : List (κ × ν), (insertList k v l).find? (fun e => e.1 = k') = l.find? (fun e => e.1 = k')
  | [] => by simp [insertList, Ne.symm h]
  | (k₁, v₁) :: rest => by
    unfold insertList
    split_ifs with hlt heq
    · simp [Ne.symm h]
    · subst heq
      simp [Ne.symm h]
    · by_cases h₁ : k₁ = k'
      · simp [h₁]
      · simp [h₁, find?_insertList_of_ne v h rest]

@[simp] theorem get?_insert_self (m : OrderedMap κ ν) (k : κ) (v : ν) : (m.insert k v).get? k = some v := by
  simp [get?, insert, find?_insertList_self]

theorem get?_insert_of_ne {k' : κ} (h : k' ≠ k) : (m.insert k v).get? k' = m.get? k' := by
  simp only [get?, insert, find?_insertList_of_ne v h]

@[simp] theorem get?_erase_self (m : OrderedMap κ ν) (k : κ) : (m.erase k).get? k = none := by
  simp [get?, erase, List.find?_filter]

theorem get?_erase_of_ne {k' : κ} (h : k' ≠ k) : (m.erase k).get? k' = m.get? k' := by
  have hpred : (fun e : κ × ν => decide (decide (e.1 ≠ k) = true ∧ decide (e.1 = k') = true)) =
      fun e => decide (e.1 = k') := by
    funext e
    by_cases he : e.1 = k'
    · simp [he, h]
    · simp [he]
  simp only [get?, erase, List.find?_filter, hpred]

/-! ## Maps are their lookups -/

theorem find?_of_mem : ∀ {l : List (κ × ν)}, l.Pairwise (fun a b => a.1 < b.1) → x ∈ l →
    l.find? (fun e => e.1 = x.1) = some x
  | y :: l, hs, hx => by
    rw [List.pairwise_cons] at hs
    rcases List.mem_cons.1 hx with rfl | hx
    · simp
    · have hne : y.1 ≠ x.1 := (hs.1 x hx).ne
      rw [List.find?_cons_of_neg (by simpa using hne)]
      exact find?_of_mem hs.2 hx

theorem get?_of_mem (h : x ∈ m.entries) : m.get? x.1 = some x.2 := by
  rw [get?, find?_of_mem m.sorted h]
  rfl

theorem get?_eq_some_iff : m.get? k = some v ↔ (k, v) ∈ m.entries :=
  ⟨mem_of_get?, fun h => get?_of_mem h⟩

/-- Two maps with the same lookups are the same map: the order of the keys
fixes the list of entries. -/
theorem ext_get? {m m' : OrderedMap κ ν} (h : ∀ k, m.get? k = m'.get? k) : m = m' := by
  have hirrefl : Std.Irrefl (fun a b : κ × ν => a.1 < b.1) := ⟨fun a => lt_irrefl a.1⟩
  have hmem : ∀ x, x ∈ m.entries ↔ x ∈ m'.entries := fun x =>
    ⟨fun hx => mem_of_get? ((h x.1).symm.trans (get?_of_mem hx)),
      fun hx => mem_of_get? ((h x.1).trans (get?_of_mem hx))⟩
  cases m with
  | mk entries sorted =>
    cases m' with
    | mk entries' sorted' =>
      congr
      exact List.Pairwise.eq_of_mem_iff sorted sorted' hmem

/-! ## Reading every entry -/

section Read

variable {γ : Type} {g : ν → Option γ}

/-- Read off the entries of a map, a pair is a key of the map with the
value its entry reads. -/
theorem mem_iff_bind_get? {ps : List (κ × γ)}
    (hps : List.Forall₂ (fun e p => p.1 = e.1 ∧ g e.2 = some p.2) m.entries ps) {c : γ} :
    (k, c) ∈ ps ↔ (m.get? k).bind g = some c := by
  rw [mem_iff_of_forall₂ hps]
  constructor
  · rintro ⟨e, he, rfl, hc⟩
    rw [get?_of_mem he]
    exact hc
  · intro hc
    obtain ⟨w, hget, hw⟩ := Option.bind_eq_some_iff.mp hc
    exact ⟨(k, w), mem_of_get? hget, rfl, hw⟩

/-- A map read off entry by entry is a map: its keys are those of the entries,
in their order. -/
theorem sorted_of_forall₂ {ps : List (κ × γ)}
    (hps : List.Forall₂ (fun e p => p.1 = e.1 ∧ g e.2 = some p.2) m.entries ps) :
    ps.Pairwise (fun a b => a.1 < b.1) := by
  have hsorted := m.sorted
  rw [← List.pairwise_map (f := Prod.fst) (R := (· < ·))] at hsorted ⊢
  rwa [map_fst_of_forall₂ hps]

theorem get?_of_forall₂ {m' : OrderedMap κ γ}
    (hm : List.Forall₂ (fun e p => p.1 = e.1 ∧ g e.2 = some p.2) m.entries m'.entries) (k : κ) :
    m'.get? k = (m.get? k).bind g := by
  apply Option.ext
  intro c
  rw [get?_eq_some_iff, mem_iff_bind_get? hm]

end Read

/-! ## Every value at once -/

section Traverse

variable {γ : Type} {f : ν → Option γ}

/-- `for (_, v) in map.iter_mut()` with a step `f` that may panic: the map
with each value stepped, `none` where a step fails. -/
def traverse (f : ν → Option γ) (m : OrderedMap κ ν) : Option (OrderedMap κ γ) :=
  (traverseList f m.entries).attach.map fun ps =>
    ⟨ps.1, sorted_of_forall₂ (forall₂_of_traverseList ps.2)⟩

theorem get?_traverse {m' : OrderedMap κ γ} (h : m.traverse f = some m') (k : κ) :
    m'.get? k = (m.get? k).bind f := by
  obtain ⟨ps, -, rfl⟩ := Option.map_eq_some_iff.mp h
  exact get?_of_forall₂ (forall₂_of_traverseList ps.2) k

theorem exists_traverse (h : ∀ k v, m.get? k = some v → (f v).isSome) :
    ∃ m', m.traverse f = some m' := by
  have hsome : (traverseList f m.entries).isSome :=
    traverseList_isSome fun e he => h e.1 e.2 (get?_of_mem he)
  obtain ⟨ps, hps⟩ := Option.isSome_iff_exists.mp hsome
  exact ⟨_, Option.map_eq_some_iff.mpr ⟨⟨ps, hps⟩, by simp [hps], rfl⟩⟩

def mapValues (step : ν → γ) (m : OrderedMap κ ν) : OrderedMap κ γ :=
  ⟨m.entries.map fun e => (e.1, step e.2), by
    rw [List.pairwise_map]
    exact m.sorted⟩

theorem get?_mapValues (step : ν → γ) (k : κ) : (m.mapValues step).get? k = (m.get? k).map step := by
  have hm : List.Forall₂ (fun e p => p.1 = e.1 ∧ some (step e.2) = some p.2) m.entries
      (m.mapValues step).entries := by
    rw [mapValues, List.forall₂_map_right_iff]
    exact List.forall₂_same.mpr fun e _ => ⟨rfl, rfl⟩
  rw [get?_of_forall₂ (g := fun v => some (step v)) hm]
  cases m.get? k <;> rfl

end Traverse

def filter (m : OrderedMap κ ν) (p : κ → ν → Bool) : OrderedMap κ ν :=
  ⟨m.entries.filter fun e => p e.1 e.2, m.sorted.filter _⟩

theorem get?_filter (p : κ → ν → Bool) (k : κ) : (m.filter p).get? k = (m.get? k).filter (p k) := by
  apply Option.ext
  intro c
  rw [get?_eq_some_iff, Option.filter_eq_some_iff, get?_eq_some_iff]
  simp [filter]

end OrderedMap
