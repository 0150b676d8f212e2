import Mathlib

/-!
# Ledgers of a running maximum

A record that keeps the largest of a sequence of readings, and pays out by
how much each reading raises it, has paid out in total exactly the largest
reading. `Tracks m l` says this of a record `m` and a list `l` of
`(payout, reading)` pairs, in the order they were made: the payouts add up
to `m`, and `m` is the largest reading, or `0` if there is none. A reading
above the record raises it (`Tracks.raise`); one at or below pays nothing
(`Tracks.below`).
-/

namespace SocialNetwork.MaxLedger

def Tracks (m : ℕ) (l : List (ℕ × ℕ)) : Prop :=
  m = (l.map Prod.fst).sum ∧ m = (l.map Prod.snd).foldl max 0

theorem tracks_nil : Tracks 0 [] := ⟨rfl, rfl⟩

theorem foldl_max_append_singleton (l : List ℕ) (v : ℕ) :
    (l ++ [v]).foldl max 0 = max (l.foldl max 0) v := by
  simp [List.foldl_append]

variable {m v : ℕ} {l : List (ℕ × ℕ)}

/-- A reading above the record raises it to the reading and pays the
difference. -/
theorem Tracks.raise (h : Tracks m l) (hv : m < v) : Tracks v (l ++ [(v - m, v)]) := by
  obtain ⟨hsum, hmax⟩ := h
  constructor
  · have : ((l ++ [(v - m, v)]).map Prod.fst).sum = (l.map Prod.fst).sum + (v - m) := by simp
    omega
  · rw [List.map_append, List.map_singleton, foldl_max_append_singleton, ← hmax]
    exact (Nat.max_eq_right (Nat.le_of_lt hv)).symm

theorem Tracks.below (h : Tracks m l) (hv : v ≤ m) : Tracks m (l ++ [(0, v)]) := by
  obtain ⟨hsum, hmax⟩ := h
  constructor
  · simpa using hsum
  · rw [List.map_append, List.map_singleton, foldl_max_append_singleton, ← hmax]
    exact (Nat.max_eq_left hv).symm

theorem tracks_zero_of_forall (h : ∀ x ∈ l, x = (0, 0)) : Tracks 0 l := by
  induction l using List.reverseRecOn with
  | nil => exact tracks_nil
  | append_singleton l x ih =>
    have hx : x = (0, 0) := h x (by simp)
    have hl : Tracks 0 l := ih fun y hy => h y (by simp [hy])
    rw [hx]
    exact hl.below (Nat.le_refl 0)

end SocialNetwork.MaxLedger
