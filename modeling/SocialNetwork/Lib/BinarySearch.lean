import Mathlib

/-!
# Binary search by key, and the sorted update built on it

`slice::binary_search_by_key` of the Rust standard library, run as its loop
runs in the toolchain the repository pins (`nightly-2021-01-25`, before the
loop of Rust 1.52): the range `[base, base + size)` is halved while `size > 1`,
keeping the upper half unless its first key is above the one searched for,
with no early exit on a match; the element left is then compared once. Its
documented contract, on a slice sorted by the key: `Ok(i)` is a position of
the key, `Err(i)` the position where it could be inserted while keeping the
order (`binarySearchByKey_spec`).

A `Vec` kept sorted by a key is updated through it: the element found at
`Ok(i)` is replaced, and at `Err(i)` the new one is inserted. The keys then
still strictly increase (`pairwise_upsertByKey`).
-/

namespace BinarySearch

variable {α β : Type} [LinearOrder β] (key : α → β)

/-- `binary_search_by_key(&k, key)`: `Ok` a position of `k`, or `Err` the
position where it belongs. -/
def binarySearchByKey (xs : List α) (k : β) : Except ℕ ℕ :=
  if h : xs.length = 0 then .error 0 else loop 0 xs.length (by omega) (by omega)
where
  /-- The loop on `[base, base + size)`, then the comparison at `base`. -/
  loop (base size : ℕ) (hsize : 0 < size) (hbound : base + size ≤ xs.length) : Except ℕ ℕ :=
    if h : 1 < size then
      let half := size / 2
      let mid := base + half
      have hmid : mid < xs.length := by omega
      if k < key xs[mid] then loop base (size - half) (by omega) (by omega)
      else loop mid (size - half) (by omega) (by omega)
    else
      have hbase : base < xs.length := by omega
      if key xs[base] = k then .ok base
      else .error (base + if key xs[base] < k then 1 else 0)
  termination_by size

def SearchResult (xs : List α) (k : β) : Except ℕ ℕ → Prop
  | .ok i => ∃ h : i < xs.length, key xs[i] = k
  | .error i => i ≤ xs.length ∧ (∀ x ∈ xs.take i, key x < k) ∧ (∀ x ∈ xs.drop i, k < key x)

/-- Replace the element with the key of `a`, or insert `a` where the search
puts it. -/
def upsertByKey (xs : List α) (a : α) : List α :=
  match binarySearchByKey key xs (key a) with
  | .ok i => xs.set i a
  | .error i => xs.insertIdx i a

variable {key} {xs : List α} {k : β}

@[simp] theorem binarySearchByKey_nil : binarySearchByKey key ([] : List α) k = .error 0 := by
  rw [binarySearchByKey]
  simp

theorem key_le_of_le (hs : xs.Pairwise (fun a b => key a < key b)) {i j : ℕ}
    (hi : i < xs.length) (hj : j < xs.length) (hij : i ≤ j) : key xs[i] ≤ key xs[j] := by
  rcases Nat.eq_or_lt_of_le hij with rfl | hlt
  · exact le_rfl
  · exact (List.pairwise_iff_getElem.mp hs i j hi hj hlt).le

/-- `Err(i)` is right when the keys before `i` are below `k` and those from
`i` on above it. -/
theorem searchResult_error {i : ℕ} (hi : i ≤ xs.length)
    (hlow : ∀ j (hj : j < xs.length), j < i → key xs[j] < k)
    (hhigh : ∀ j (hj : j < xs.length), i ≤ j → k < key xs[j]) :
    SearchResult key xs k (.error i) := by
  refine ⟨hi, fun x hx => ?_, fun x hx => ?_⟩
  · obtain ⟨j, hj, rfl⟩ := List.mem_take_iff_getElem.mp hx
    exact hlow j (by omega) (by omega)
  · obtain ⟨j, hj, rfl⟩ := List.mem_drop_iff_getElem.mp hx
    exact hhigh (i + j) (by omega) (by omega)

/-- The loop keeps every key left of `base` below `k` and every key from
`base + size` on above it; when one element is left, comparing it settles
the search. -/
theorem loop_spec (hs : xs.Pairwise (fun a b => key a < key b)) (base size : ℕ)
    (hsize : 0 < size) (hbound : base + size ≤ xs.length)
    (hlow : ∀ j (hj : j < xs.length), j < base → key xs[j] < k)
    (hhigh : ∀ j (hj : j < xs.length), base + size ≤ j → k < key xs[j]) :
    SearchResult key xs k (binarySearchByKey.loop key xs k base size hsize hbound) := by
  fun_induction binarySearchByKey.loop key xs k base size hsize hbound with
  | case1 base size hsize hbound h half mid hmid hgt ih =>
      -- the key at `mid` is above `k`, and so is every key after it
      refine ih hlow (fun j hj hj' => ?_)
      exact hgt.trans_le (key_le_of_le hs hmid hj (by omega))
  | case2 base size hsize hbound h half mid hmid hngt ih =>
      refine ih (fun j hj hj' => ?_) (fun j hj hj' => hhigh j hj (by omega))
      by_cases hjb : j < base
      · exact hlow j hj hjb
      · exact (List.pairwise_iff_getElem.mp hs j mid hj hmid hj').trans_le (not_lt.mp hngt)
  | case3 base size hsize hbound h hbase heq => exact ⟨hbase, heq⟩
  | case4 base size hsize hbound h hbase hne =>
      have hsize1 : size = 1 := by omega
      subst hsize1
      by_cases hlt : key xs[base] < k
      · rw [if_pos hlt]
        refine searchResult_error (by omega) (fun j hj hj' => ?_) (fun j hj hj' => hhigh j hj hj')
        by_cases hjb : j < base
        · exact hlow j hj hjb
        · have hjeq : j = base := by omega
          subst hjeq
          exact hlt
      · rw [if_neg hlt, Nat.add_zero]
        have hgt : k < key xs[base] := lt_of_le_of_ne (not_lt.mp hlt) (Ne.symm hne)
        refine searchResult_error hbase.le hlow (fun j hj hj' => ?_)
        by_cases hjb : j = base
        · subst hjb
          exact hgt
        · exact hhigh j hj (by omega)

/-- The documented contract of `binary_search_by_key`, on a list whose keys
strictly increase. -/
theorem binarySearchByKey_spec (hs : xs.Pairwise (fun a b => key a < key b)) (k : β) :
    SearchResult key xs k (binarySearchByKey key xs k) := by
  unfold binarySearchByKey
  split
  · exact searchResult_error (Nat.zero_le _) (fun _ _ h => absurd h (Nat.not_lt_zero _))
      (fun _ _ _ => by omega)
  · exact loop_spec hs 0 xs.length _ _ (fun _ _ h => absurd h (Nat.not_lt_zero _))
      (fun _ hj h => absurd hj (by omega))

theorem insertIdx_eq_take_append_drop (a : α) :
    ∀ (xs : List α) (i : ℕ), i ≤ xs.length → xs.insertIdx i a = xs.take i ++ a :: xs.drop i
  | xs, 0, _ => by simp [List.insertIdx_zero]
  | [], _ + 1, h => by simp at h
  | x :: xs, i + 1, h => by
      rw [List.insertIdx_succ_cons, insertIdx_eq_take_append_drop a xs i (by simpa using h)]
      rfl

theorem pairwise_upsertByKey (hs : xs.Pairwise (fun a b => key a < key b)) (a : α) :
    (upsertByKey key xs a).Pairwise (fun a b => key a < key b) := by
  have hspec := binarySearchByKey_spec hs (key a)
  unfold upsertByKey
  split
  · -- found: the new element has the key of the one it replaces
    next i hi =>
      rw [hi] at hspec
      obtain ⟨hlen, hkey⟩ := hspec
      have hmap : (xs.set i a).map key = xs.map key := by
        rw [List.map_set, ← hkey]
        simpa using List.set_getElem_self (List.length_map key ▸ hlen : i < (xs.map key).length)
      rw [← List.pairwise_map, hmap, List.pairwise_map]
      exact hs
  · -- not found: the keys before the gap are below the new key, those after it above
    next i hi =>
      rw [hi] at hspec
      obtain ⟨hlen, hbelow, habove⟩ := hspec
      rw [← List.take_append_drop i xs, List.pairwise_append] at hs
      obtain ⟨htake, hdrop, hcross⟩ := hs
      rw [insertIdx_eq_take_append_drop a xs i hlen, List.pairwise_append, List.pairwise_cons]
      refine ⟨htake, ⟨habove, hdrop⟩, fun x hx y hy => ?_⟩
      rcases List.mem_cons.mp hy with rfl | hy
      · exact hbelow x hx
      · exact hcross x hx y hy

theorem eq_or_mem_of_mem_upsertByKey {a x : α} (h : x ∈ upsertByKey key xs a) :
    x = a ∨ x ∈ xs := by
  unfold upsertByKey at h
  split at h
  · exact (List.mem_or_eq_of_mem_set h).symm
  · exact List.eq_or_mem_of_mem_insertIdx h

end BinarySearch
