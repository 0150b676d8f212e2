import Mathlib
import SocialNetwork.Client.StateDb.Pruning

/-!
# Re-inserted keys in the pruning window

With `count_insertions`, a key that a canonical block inserts again must
leave every death row that would delete it, or pruning deletes a live trie
node. `import` finds the row through `death_index`, which holds one block per
key, the last that deleted it; a key deleted by two blocks of the window
waits in the earlier row with the index placing it in the later one. Such a
key is never taken out of the earlier row: each `rescue` keeps it there
(`wp_rescue_unindexed`), so every later canonical block keeps it there
(`noteCanonical_keeps_unindexed_key`), and pruning the row deletes it
(`pruneOne_deletes_row_key`, `prune_deletes_reinserted_key`).
-/

namespace SocialNetwork.StateDb

open Dispatch

variable {H K V : Type} [DecidableEq K]

def RefWindow.InRow (w : RefWindow H K) (i : ℕ) (k : K) : Prop :=
  ∃ row, w.deathRows[i]? = some row ∧ k ∈ row.deleted

/-- `k` waits in the row at position `i`, and `death_index` does not place
it there. -/
def RefWindow.Unindexed (w : RefWindow H K) (i : ℕ) (k : K) : Prop :=
  w.InRow i k ∧ w.deathIndex.lookup k ≠ some (w.pendingNumber + i)

variable {R : Error → RefWindow H K → Prop} {w : RefWindow H K} {i : ℕ} {k : K}

omit [DecidableEq K] in
theorem RefWindow.InRow.append (hw : w.InRow i k) (rows : List (DeathRow H K)) :
    RefWindow.InRow { w with deathRows := w.deathRows ++ rows } i k := by
  obtain ⟨row, hrow, hk⟩ := hw
  have hi : i < w.deathRows.length := (List.getElem?_eq_some_iff.1 hrow).1
  exact ⟨row, by rw [List.getElem?_append_left hi, hrow], hk⟩

/-- **One rescue.** Taking any key out of the row the index places it in
leaves `k` in its row, and the index still not placing it there. -/
theorem wp_rescue_unindexed (k' : K) (hw : w.Unindexed i k) :
    Wp (RefWindow.rescue k') (fun _ w' => w'.Unindexed i k) R w := by
  obtain ⟨⟨row, hrow, hk⟩, hindex⟩ := hw
  unfold RefWindow.rescue
  rw [wp_bind, wp_get]
  cases hblock : w.deathIndex.lookup k' with
  | none => exact ⟨⟨row, hrow, hk⟩, hindex⟩
  | some block =>
      simp only [wp_bind, wp_set]
      by_cases hle : w.pendingNumber ≤ block
      · rw [if_pos hle]
        cases hrow' : w.deathRows[block - w.pendingNumber]? with
        | none => simp only [wp_unwrap_none]
        | some row' =>
            simp only [wp_unwrap_some, wp_modify]
            -- the key rescued is `k` only if the index placed it in another row
            have hj : k' = k → block - w.pendingNumber ≠ i := by
              rintro rfl rfl
              exact hindex (by rw [hblock]; congr 1; omega)
            refine ⟨?_, ?_⟩
            · by_cases hji : block - w.pendingNumber = i
              · have hkk : k ≠ k' := fun h => hj h.symm hji
                subst hji
                rw [hrow, Option.some.injEq] at hrow'
                subst hrow'
                exact ⟨_, List.getElem?_set_self (List.getElem?_eq_some_iff.1 hrow).1,
                  (List.mem_erase_of_ne hkk).2 hk⟩
              · exact ⟨row, by rw [List.getElem?_set_ne hji, hrow], hk⟩
            · by_cases hkk : k = k'
              · subst hkk
                simp
              · simpa [Finmap.lookup_erase_ne hkk] using hindex
      · rw [if_neg hle]
        simp only [wp_unwrap_none]

theorem wp_import_inRow (hash : H) (journalKey : MetaKey) (inserted deleted : List K)
    (hw : w.Unindexed i k) :
    Wp (RefWindow.import hash journalKey inserted deleted) (fun _ w' => w'.InRow i k) R w := by
  unfold RefWindow.import
  simp only [wp_bind, wp_get]
  split
  · -- the rescue loop keeps `k` where it is; the index and the new row do not touch it
    simp only [wp_bind]
    refine Wp.mono (wp_forM (fun k' _ w₁ hw₁ => wp_rescue_unindexed k' hw₁) hw)
      (fun _ w₁ hw₁ => ?_) (fun _ _ h => h)
    simp only [wp_get, wp_set, wp_modify]
    exact RefWindow.InRow.append hw₁.1 _
  · simp only [wp_modify]
    exact RefWindow.InRow.append hw.1 _

/-- **A key the index does not place in its row is never rescued.** A block
noted canonical after the row keeps `k` in it, even when it inserts `k`
again. -/
theorem noteCanonical_keeps_unindexed_key {w' : RefWindow H K} {hash : H}
    {commit c : CommitSet H K V} (hw : w.Unindexed i k)
    (h : (RefWindow.noteCanonical hash commit).run w = .ok c w') : w'.InRow i k := by
  have hwp : Wp (RefWindow.noteCanonical hash commit) (fun _ w' => w'.InRow i k)
      (fun _ _ => True) w := by
    unfold RefWindow.noteCanonical
    simp only [wp_bind, wp_get]
    refine Wp.mono (wp_import_inRow (R := fun _ _ => True) hash _ _ _ hw) (fun _ w₁ hw₁ => ?_)
      (fun _ _ _ => trivial)
    simp only [wp_modify, wp_pure]
    exact hw₁
  exact hwp.of_ok h

omit [DecidableEq K] in
theorem pruneOne_deletes_row_key {w' : RefWindow H K} {commit c : CommitSet H K V}
    (hw : w.InRow w.pendingPrunings k) (h : (RefWindow.pruneOne commit).run w = .ok c w') :
    k ∈ c.data.deleted := by
  obtain ⟨row, hrow, hk⟩ := hw
  simp only [RefWindow.pruneOne, run_get_bind, hrow, run_set_bind] at h
  cases h
  exact List.mem_append_right _ hk

/-- Blocks `1` and `2` each delete key `7`, and block `3` inserts it again.
The index places `7` in the row of block `2` only, from which block `3` takes
it; it stays in the row of block `1`, and pruning block `1` deletes it from
the database. -/
theorem prune_deletes_reinserted_key :
    ∃ (c : CommitSet ℕ ℕ ℕ) (w : RefWindow ℕ ℕ),
      (do
        discard (RefWindow.noteCanonical 1 (⟨⟨[], [7]⟩, .empty⟩ : CommitSet ℕ ℕ ℕ))
        discard (RefWindow.noteCanonical 2 (⟨⟨[], [7]⟩, .empty⟩ : CommitSet ℕ ℕ ℕ))
        discard (RefWindow.noteCanonical 3 (⟨⟨[(7, 0)], []⟩, .empty⟩ : CommitSet ℕ ℕ ℕ))
        RefWindow.pruneOne .empty : Call Error (RefWindow ℕ ℕ) (CommitSet ℕ ℕ ℕ)).run
          (.empty true) = .ok c w ∧
      c.data.deleted = [7] ∧ w.deathIndex.lookup 7 = none := by
  exact exists_of_returnsAnd (p := fun (c : CommitSet ℕ ℕ ℕ) (w : RefWindow ℕ ℕ) =>
    c.data.deleted = [7] ∧ w.deathIndex.lookup 7 = none) (by decide)

end SocialNetwork.StateDb
