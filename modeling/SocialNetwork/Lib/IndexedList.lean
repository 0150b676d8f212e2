import Mathlib

/-!
# Lists of indexed entries

A list of `(index, value)` pairs whose indices are `0, …, n - 1`, each once,
in some order. Sorting it by index with `List.mergeSort` puts entry `i` at
position `i` (`fst_getElem_mergeSort`) and keeps the values' sum. Replacing
the value of the entry at one position keeps the indices (`map_fst_set`) and
moves the sum of the values by the difference (`sum_set_add`).
-/

namespace IndexedList

variable {β : Type}

theorem sum_set_add (l : List ℕ) {i : ℕ} (h : i < l.length) (v : ℕ) :
    (l.set i v).sum + l[i] = l.sum + v := by
  induction l generalizing i with
  | nil => cases h
  | cons a l ih =>
    cases i with
    | zero =>
      simp only [List.set_cons_zero, List.sum_cons, List.getElem_cons_zero]
      omega
    | succ i =>
      have := ih (Nat.lt_of_succ_lt_succ h)
      simp only [List.set_cons_succ, List.sum_cons, List.getElem_cons_succ]
      omega

theorem map_fst_set (L : List (ℕ × β)) {k : ℕ} (hk : k < L.length) (v : β) :
    (L.set k (L[k].1, v)).map Prod.fst = L.map Prod.fst := by
  have hk' : k < (L.map Prod.fst).length := by
    rw [List.length_map]
    exact hk
  have h1 : (L.map Prod.fst)[k] = L[k].1 := List.getElem_map _
  rw [List.map_set, ← h1, List.set_getElem_self hk']

theorem sum_map_snd_set (L : List (ℕ × ℕ)) {k : ℕ} (hk : k < L.length) (v : ℕ) :
    ((L.set k (L[k].1, v)).map Prod.snd).sum + L[k].2 = (L.map Prod.snd).sum + v := by
  rw [List.map_set]
  have := sum_set_add (L.map Prod.snd) (by rw [List.length_map]; exact hk) v
  rwa [List.getElem_map] at this

section WithIndex

variable (l : List β)

theorem map_fst_mapIdx : (l.mapIdx fun i t => (i, t)).map Prod.fst = List.range l.length :=
  List.ext_getElem (by simp) (by simp)

theorem map_snd_mapIdx : (l.mapIdx fun i t => (i, t)).map Prod.snd = l :=
  List.ext_getElem (by simp) (by simp)

theorem getD_of_mem_mapIdx {e : ℕ × β} (he : e ∈ l.mapIdx fun i t => (i, t)) (d : β) :
    l.getD e.1 d = e.2 := by
  obtain ⟨i, hi, rfl⟩ := List.mem_mapIdx.1 he
  exact List.getD_eq_getElem _ _ hi

end WithIndex

section Sorting

variable {L : List (ℕ × β)} {n : ℕ}

theorem map_fst_mergeSort (h : (L.map Prod.fst).Perm (List.range n)) :
    (L.mergeSort fun a b => a.1 ≤ b.1).map Prod.fst = List.range n := by
  have hperm := ((List.mergeSort_perm L fun a b => a.1 ≤ b.1).map Prod.fst).trans h
  have hsorted : (L.mergeSort fun a b => a.1 ≤ b.1).Pairwise fun a b => a.1 ≤ b.1 := by
    have := @List.pairwise_mergeSort _ (fun (a b : ℕ × β) => decide (a.1 ≤ b.1))
      (fun a b c hab hbc => by simp only [decide_eq_true_eq] at *; omega)
      (fun a b => by simp only [Bool.or_eq_true, decide_eq_true_eq]; omega) L
    simpa only [decide_eq_true_eq] using this
  exact hperm.eq_of_pairwise (fun a b _ _ hab hba => le_antisymm hab hba)
    (List.pairwise_map.2 hsorted) List.pairwise_le_range

theorem length_mergeSort (h : (L.map Prod.fst).Perm (List.range n)) :
    (L.mergeSort fun a b => a.1 ≤ b.1).length = n := by
  rw [← List.length_map (f := Prod.fst), map_fst_mergeSort h, List.length_range]

theorem fst_getElem_mergeSort (h : (L.map Prod.fst).Perm (List.range n)) {i : ℕ}
    (hi : i < (L.mergeSort fun a b => a.1 ≤ b.1).length) :
    (L.mergeSort fun a b => a.1 ≤ b.1)[i].1 = i := by
  have hmap := map_fst_mergeSort h
  have hi' : i < ((L.mergeSort fun a b => a.1 ≤ b.1).map Prod.fst).length := by
    rw [List.length_map]
    exact hi
  rw [← List.getElem_map Prod.fst (h := hi')]
  simp only [hmap, List.getElem_range]

theorem exists_mem_of_lt_mergeSort (h : (L.map Prod.fst).Perm (List.range n)) {i : ℕ}
    (hi : i < (L.mergeSort fun a b => a.1 ≤ b.1).length) :
    ∃ e ∈ L, e.1 = i ∧ e.2 = (L.mergeSort fun a b => a.1 ≤ b.1)[i].2 := by
  refine ⟨(L.mergeSort fun a b => a.1 ≤ b.1)[i], ?_, fst_getElem_mergeSort h hi, rfl⟩
  exact (List.mergeSort_perm L _).mem_iff.1 (List.getElem_mem hi)

theorem sum_map_snd_mergeSort (L : List (ℕ × ℕ)) :
    ((L.mergeSort fun a b => a.1 ≤ b.1).map Prod.snd).sum = (L.map Prod.snd).sum :=
  ((List.mergeSort_perm L _).map Prod.snd).sum_eq

end Sorting

end IndexedList
