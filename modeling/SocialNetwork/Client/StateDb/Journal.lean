import Mathlib
import SocialNetwork.Client.StateDb.Runs

/-!
# The journal of the overlay after a restart

`NonCanonicalOverlay::new` reads a level of the journal from index `0` up to
the first missing record, and stops at the first empty level
(`readLevels_of_missing`, `new_levels_of_missing`). `insert` journals a block
under `(number, level.len())`, the length of its level at the time.

Canonicalization breaks both halves of that agreement. A canonicalized
block's siblings are discarded with their descendants, and a descendant can
sit at index `0` of a level whose later blocks are kept: the journal then
starts the level at index `1`, and a restart reads no level at all. The level
is also one block shorter than the indices used, so the next block inserted
there is journalled under the index of a block still in it, and overwrites its
record (`journal_restore_loses_blocks`).
-/

namespace SocialNetwork.StateDb

open Dispatch

variable {H K V : Type} [DecidableEq H] [DecidableEq K]

section Read

variable {journal : StorageMap MetaKey (MetaValue H K V)} {block : ℕ}

omit [DecidableEq H] [DecidableEq K] in
theorem readLevel_of_missing (h : journal.lookup (.noncanonicalJournal block 0) = none) :
    ∀ fuel, readLevel journal block fuel 0 = []
  | 0 => rfl
  | _ + 1 => by rw [readLevel, h]

omit [DecidableEq H] [DecidableEq K] in
/-- The journal is read up to the first level whose first record is
missing. -/
theorem readLevels_of_missing (h : journal.lookup (.noncanonicalJournal block 0) = none) :
    ∀ fuel, readLevels journal fuel block = []
  | 0 => rfl
  | _ + 1 => by rw [readLevels, readLevel_of_missing h]

/-- **The loader stops at the first missing index.** A database whose
journal has no record at index `0` above its last canonical block restarts
with that block canonical and no level at all, whatever else the journal
holds. -/
theorem new_levels_of_missing {db : Db H K V} {hash : H} {number : ℕ}
    (hlast : db.metaData.lookup .lastCanonical = some (.lastCanonical hash number))
    (hfirst : db.metaData.lookup (.noncanonicalJournal (number + 1) 0) = none) :
    (NonCanonicalOverlay.new db).lastCanonicalized = some (hash, number) ∧
      (NonCanonicalOverlay.new db).levels = [] := by
  rw [NonCanonicalOverlay.new, hlast]
  exact ⟨rfl, by simp only [readLevels_of_missing hfirst, List.map_nil]⟩

end Read

-- the first block of a level is journalled at index `0`
example : (execute NonCanonicalOverlay.apply [.insertBlock 1 1 0 .empty]
    ((.empty, .empty) : NonCanonicalOverlay ℕ ℕ ℕ × Db ℕ ℕ ℕ)).map
      (·.1.levels.map (·.map (·.journalKey))) = some [[.noncanonicalJournal 1 0]] := by
  decide +kernel

/-- Blocks `1` and `2` at number `1` on the last canonical block `0`, their
children `3` and `4` at number `2`, then block `2` canonicalized, which
discards `1` and its child `3`, the first block of level `2`; then block `5`,
another child of `2`. Block `4` keeps index `1`, block `5` is given index `1`
as well and overwrites its record, and the journal read back has no level:
the two blocks left in the overlay are lost on a restart. -/
theorem journal_restore_loses_blocks :
    ∃ s : NonCanonicalOverlay ℕ ℕ ℕ × Db ℕ ℕ ℕ,
      Reachable NonCanonicalOverlay.apply (· = (.empty, .empty)) s ∧
      s.1.levels.map (·.map fun b => (b.hash, b.journalKey)) =
        [[(4, .noncanonicalJournal 2 1), (5, .noncanonicalJournal 2 1)]] ∧
      s.2.metaData.lookup (.noncanonicalJournal 2 1) = some (.noncanonicalJournal ⟨5, 2, [], []⟩) ∧
      (NonCanonicalOverlay.new s.2).lastCanonicalized = s.1.lastCanonicalized ∧
      (NonCanonicalOverlay.new s.2).levels = [] := by
  obtain ⟨s, hs, hlevels, hrecord, hcanonical, hlast, hfirst⟩ :=
    NonCanonicalOverlay.exists_of_execute
      (p := fun s : NonCanonicalOverlay ℕ ℕ ℕ × Db ℕ ℕ ℕ =>
        s.1.levels.map (·.map fun b => (b.hash, b.journalKey)) =
            [[(4, .noncanonicalJournal 2 1), (5, .noncanonicalJournal 2 1)]] ∧
          s.2.metaData.lookup (.noncanonicalJournal 2 1) = some (.noncanonicalJournal ⟨5, 2, [], []⟩) ∧
          s.1.lastCanonicalized = some (2, 1) ∧
          s.2.metaData.lookup .lastCanonical = some (.lastCanonical 2 1) ∧
          s.2.metaData.lookup (.noncanonicalJournal 2 0) = none)
      [.insertBlock 1 1 0 .empty, .insertBlock 2 1 0 .empty, .insertBlock 3 2 1 .empty,
        .insertBlock 4 2 2 .empty, .applyPending, .canonicalizeBlock 2, .applyPending,
        .insertBlock 5 2 2 .empty, .applyPending]
      (by decide +kernel)
  obtain ⟨hrestored, hnone⟩ := new_levels_of_missing hlast hfirst
  exact ⟨s, hs, hlevels, hrecord, hrestored.trans hcanonical.symm, hnone⟩

end SocialNetwork.StateDb
