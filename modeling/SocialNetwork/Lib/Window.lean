import Mathlib

/-!
# Windows of a list

A record of fixed size kept in a byte array is read as a window of the list,
`(l.drop start).take len`, and written by splicing new bytes over the same
window. Reading a window after a write gives the bytes written when it is the
window written (`read_overwrite_self`), and what it held before when the two
do not overlap (`read_overwrite_of_disjoint`). Appending to the list keeps
every window that lies within it (`read_append_of_le`).
-/

namespace Window

variable {α : Type*} {l mid : List α} {start : ℕ}

def read (l : List α) (start len : ℕ) : List α := (l.drop start).take len

def overwrite (l : List α) (start : ℕ) (mid : List α) : List α :=
  l.take start ++ mid ++ l.drop (start + mid.length)

theorem length_overwrite (h : start + mid.length ≤ l.length) :
    (overwrite l start mid).length = l.length := by
  simp only [overwrite, List.length_append, List.length_take, List.length_drop]
  omega

theorem read_overwrite_self (h : start ≤ l.length) :
    read (overwrite l start mid) start mid.length = mid := by
  have htake : (l.take start).length = start := List.length_take_of_le h
  rw [read, overwrite, List.append_assoc, List.drop_left' htake, List.take_left' rfl]

theorem getElem?_overwrite_of_lt (h : start ≤ l.length) {i : ℕ} (hi : i < start) :
    (overwrite l start mid)[i]? = l[i]? := by
  have htake : (l.take start).length = start := List.length_take_of_le h
  rw [overwrite, List.append_assoc, List.getElem?_append_left (by omega), List.getElem?_take_of_lt hi]

theorem getElem?_overwrite_of_ge (h : start ≤ l.length) {i : ℕ} (hi : start + mid.length ≤ i) :
    (overwrite l start mid)[i]? = l[i]? := by
  have hlen : (l.take start ++ mid).length = start + mid.length := by
    simp only [List.length_append, List.length_take_of_le h]
  rw [overwrite, List.getElem?_append_right (by omega), hlen, List.getElem?_drop]
  congr 1
  omega

theorem getElem?_read {len i : ℕ} : (read l start len)[i]? = if i < len then l[start + i]? else none := by
  split_ifs with hi
  · rw [read, List.getElem?_take_of_lt hi, List.getElem?_drop]
  · simp [read, hi]

theorem read_overwrite_of_disjoint (h : start ≤ l.length) {q len : ℕ}
    (hd : q + len ≤ start ∨ start + mid.length ≤ q) :
    read (overwrite l start mid) q len = read l q len := by
  apply List.ext_getElem?
  intro i
  rw [getElem?_read, getElem?_read]
  split_ifs with hi
  · rcases hd with hbefore | hafter
    · exact getElem?_overwrite_of_lt h (by omega)
    · exact getElem?_overwrite_of_ge h (by omega)
  · rfl

theorem read_append_of_le {r : List α} {q len : ℕ} (h : q + len ≤ l.length) :
    read (l ++ r) q len = read l q len := by
  have hdrop : len ≤ (l.drop q).length := by
    rw [List.length_drop]
    omega
  rw [read, read, List.drop_append_of_le_length (by omega), List.take_append_of_le_length hdrop]

end Window
