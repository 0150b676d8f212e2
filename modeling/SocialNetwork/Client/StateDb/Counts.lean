import Mathlib
import SocialNetwork.Client.StateDb.Runs

/-!
# The counts of the overlay's values

`values` counts each key once per block of the overlay that inserted it:
the blocks of `levels` and those kept in `pinned_insertions`
(`NonCanonicalOverlay.insertedCount`). `revert_insertions` takes the blocks
inserted since the last `apply_pending` off the ends of their levels, last
first, and pops a level it empties on the assumption, checked by a
`debug_assert` only, that it is the last one. A canonicalization can leave an
empty level below a later one: the children of a discarded block are
discarded with it, and a block inserted above a kept block of the discarded
fork starts the next level. Reverting a block inserted into the empty level
then pops that next level (`revertInsertion_of_only_block`), and its blocks
leave the overlay with their values still counted
(`revert_pending_leaks_values`).
-/

namespace SocialNetwork.StateDb

open Dispatch

variable {H K V : Type} [DecidableEq H] [DecidableEq K]

/-- The occurrences of `k` in the keys inserted by the blocks of the levels
and by the blocks kept in `pinned_insertions`. -/
def NonCanonicalOverlay.insertedCount (o : NonCanonicalOverlay H K V) (k : K) : ℕ :=
  (o.levels.flatten.map fun b => b.inserted.count k).sum +
    StorageMap.total (fun p : List K × ℕ => p.1.count k) o.pinnedInsertions

section Revert

variable {σ : Type} {hash : H} {s : σ}

omit [DecidableEq K] in
theorem run_levelWithLast (pre post : List (List (BlockOverlay H K))) {level : List (BlockOverlay H K)}
    {last : BlockOverlay H K} (hlast : level.getLast? = some last) (hhash : last.hash = hash)
    (hpre : ∀ l ∈ pre, ∃ b, l.getLast? = some b ∧ b.hash ≠ hash) :
    (levelWithLast hash (pre ++ level :: post) : Call Error σ (Option ℕ)).run s =
      .ok (some pre.length) s := by
  induction pre with
  | nil => simp [levelWithLast, hlast, hhash]
  | cons l pre ih =>
      obtain ⟨b, hb, hne⟩ := hpre l List.mem_cons_self
      have hrest := ih fun l' hl' => hpre l' (List.mem_cons_of_mem _ hl')
      simp only [List.cons_append, levelWithLast, run_bind_ok (run_unwrap_some (a := b)), hb, hne,
        if_false]
      simp only [Functor.map, EStateM.run] at hrest ⊢
      simp [EStateM.map, hrest]

variable {o : NonCanonicalOverlay H K V}

/-- **Reverting the only block of a level pops the last level.** Below any
levels whose last blocks are other blocks, the block leaves its level, and
the last level of the overlay leaves with it, whichever level that is. -/
theorem revertInsertion_of_only_block {pre post : List (List (BlockOverlay H K))} {b : BlockOverlay H K}
    (hlevels : o.levels = pre ++ [b] :: post)
    (hpre : ∀ l ∈ pre, ∃ b', l.getLast? = some b' ∧ b'.hash ≠ b.hash) :
    (NonCanonicalOverlay.revertInsertion b.hash).run o = .ok ()
      { o with
        parents := o.parents.erase b.hash,
        levels := (pre ++ [] :: post).dropLast,
        values := discardValues o.values b.inserted } := by
  cases o
  subst hlevels
  simp only [NonCanonicalOverlay.revertInsertion, run_modify_bind, run_get_bind]
  rw [run_bind_ok (run_levelWithLast pre post List.getLast?_singleton rfl hpre)]
  simp

end Revert

-- a block inserted on the last canonical block counts its key once
example : (execute NonCanonicalOverlay.apply [.insertBlock 1 1 0 ⟨[(9, 9)], []⟩]
    ((.empty, .empty) : NonCanonicalOverlay ℕ ℕ ℕ × Db ℕ ℕ ℕ)).map (·.1.insertedCount 9) = some 1 := by
  decide +kernel

/-- Blocks `1` and `2` at number `1` and the child `3` of `1`, which is
pinned; canonicalizing `2` discards `1` and `3`, kept for the pin, and leaves
level `2` empty. Block `4` at number `3` on top of `3` inserts key `9` and
starts level `3`; block `5` at number `2` on top of `2` is then reverted. The
revert pops level `3`: block `4` leaves the overlay, its parent entry stays,
and key `9` keeps a count of `1` and its value with no block inserting it. -/
theorem revert_pending_leaks_values :
    ∃ s : NonCanonicalOverlay ℕ ℕ ℕ × Db ℕ ℕ ℕ,
      Reachable NonCanonicalOverlay.apply (· = (.empty, .empty)) s ∧
      s.1.insertedCount 9 = 0 ∧ s.1.values.lookup 9 = some (1, 9) ∧ s.1.get 9 = some 9 ∧
      s.1.parents.lookup 4 = some 3 ∧ 4 ∉ s.1.levels.flatten.map (·.hash) ∧
      s.1.pinnedInsertions.lookup 4 = none :=
  NonCanonicalOverlay.exists_of_execute
    [.insertBlock 1 1 0 .empty, .insertBlock 2 1 0 .empty, .insertBlock 3 2 1 .empty, .applyPending,
      .pin 3, .canonicalizeBlock 2, .applyPending, .insertBlock 4 3 3 ⟨[(9, 9)], []⟩, .applyPending,
      .insertBlock 5 2 2 .empty, .revertPending]
    (by decide +kernel)

end SocialNetwork.StateDb
