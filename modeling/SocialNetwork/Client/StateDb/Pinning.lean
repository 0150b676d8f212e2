import Mathlib
import SocialNetwork.Client.StateDb.Runs

/-!
# Pins on blocks kept for a pinned descendant

A non-canonical block discarded while one of its descendants is pinned
waits in `pinned_insertions`, its count the pins below it, and its values stay
in the overlay for the descendant. It keeps its `parents` entry, so
`have_block` still finds it and `StateDb::pin` accepts a pin on it; the
overlay's count of it is not raised. Releasing that pin then walks up from the
block and takes one off its count as if a pin below it had gone: a pin and an
unpin leave the pins as they were and discard the block's values, while its
descendant is still pinned (`pin_unpin_discards_kept_block`).
-/

namespace SocialNetwork.StateDb

open Dispatch

variable {H K V : Type} [DecidableEq H] [DecidableEq K]

section Overlay

variable {o : NonCanonicalOverlay H K V} {hash : H}

theorem releasePinned_of_not_kept (h : o.pinnedInsertions.lookup hash = none) :
    ∀ fuel, NonCanonicalOverlay.releasePinned fuel o hash = o
  | 0 => rfl
  | _ + 1 => by simp only [NonCanonicalOverlay.releasePinned, h]

/-- The last pin on a block kept with count `1` released: the block leaves
`pinned_insertions` and its values are discarded, the walk stopping at a
parent that is not kept. -/
theorem unpin_last_of_kept_once {inserted : List K} {parent : H}
    (hpin : o.pinned.lookup hash = some 1)
    (hkept : o.pinnedInsertions.lookup hash = some (inserted, 1))
    (hparent : o.parents.lookup hash = some parent)
    (hstop : o.pinnedInsertions.lookup parent = none) :
    o.unpin hash = { o with
      pinned := o.pinned.erase hash,
      pinnedInsertions := o.pinnedInsertions.erase hash,
      values := discardValues o.values inserted,
      parents := o.parents.erase hash } := by
  have hrelease : o.pinned.releaseRef hash = (o.pinned.erase hash, true) := by
    simp [StorageMap.releaseRef, hpin]
  have hstop' : (o.pinnedInsertions.erase hash).lookup parent = none := by
    by_cases hp : parent = hash
    · subst hp
      exact Finmap.lookup_erase _ _
    · rw [Finmap.lookup_erase_ne hp, hstop]
  simp only [NonCanonicalOverlay.unpin, hrelease, if_true, NonCanonicalOverlay.releasePinned, hkept,
    hparent, Nat.sub_self, if_true]
  exact releasePinned_of_not_kept hstop' _

end Overlay

/-- **A pin and an unpin on a kept block.** `StateDb::pin` accepts a block
kept in `pinned_insertions` for the pins below it, and the matching unpin
leaves every pin count as it was but discards the block's values. -/
theorem pin_unpin_discards_kept_block {s : StateDbSync H K V} {hash parent : H} {inserted : List K}
    (hmode : s.mode ≠ .archiveAll)
    (hunpinned : s.pinned.lookup hash = none) (hpinned : s.nonCanonical.pinned.lookup hash = none)
    (hkept : s.nonCanonical.pinnedInsertions.lookup hash = some (inserted, 1))
    (hparent : s.nonCanonical.parents.lookup hash = some parent)
    (hstop : s.nonCanonical.pinnedInsertions.lookup parent = none)
    (hcanon : hash ∉ s.nonCanonical.pendingCanonicalizations)
    (hinserted : hash ∉ s.nonCanonical.pendingInsertions) :
    ∃ s', (StateDbSync.pin hash).run s = .ok () s' ∧
      (s'.unpin hash).pinned = s.pinned ∧
      (s'.unpin hash).nonCanonical.pinned = s.nonCanonical.pinned ∧
      (s'.unpin hash).nonCanonical.values = discardValues s.nonCanonical.values inserted := by
  -- `have_block` finds the block through its parent entry
  have hhave : s.nonCanonical.haveBlock hash = true := by
    simp [NonCanonicalOverlay.haveBlock, hparent, hcanon]
  have hrun : (StateDbSync.pin hash).run s = .ok ()
      { s with pinned := s.pinned.addRef hash, nonCanonical := s.nonCanonical.pin hash } := by
    cases hm : s.mode with
    | archiveAll => exact absurd hm hmode
    | _ => simp [StateDbSync.pin, hm, hhave, hunpinned]
  refine ⟨_, hrun, ?_⟩
  have hov : s.nonCanonical.pin hash = { s.nonCanonical with
      pinned := s.nonCanonical.pinned.addRef hash } := by
    simp [NonCanonicalOverlay.pin, hinserted]
  have hovpin : (s.nonCanonical.pin hash).pinned.lookup hash = some 1 := by
    simp [hov, StorageMap.addRef, hpinned]
  have hunpin := unpin_last_of_kept_once hovpin (by rwa [hov]) (by rwa [hov]) (by rwa [hov])
  have hrelease := StorageMap.releaseRef_addRef hunpinned
  refine ⟨?_, ?_, ?_⟩
  · simp only [StateDbSync.unpin, hrelease]
  · simp only [StateDbSync.unpin, hrelease, if_true]
    rw [hunpin, hov]
    exact StorageMap.erase_addRef hpinned
  · simp only [StateDbSync.unpin, hrelease, if_true]
    rw [hunpin, hov]

-- a pin on an inserted block is counted once
example : (execute StateDbSync.apply [.insertBlock 1 1 0 .empty, .pin 1]
    ((StateDbSync.empty .archiveCanonical false, .empty) : StateDbSync ℕ ℕ ℕ × Db ℕ ℕ ℕ)).map
      (·.1.pinned.lookup 1) = some (some 1) := by
  decide +kernel

/-- Block `3` at number `2` is pinned on its parent `1`, which inserted key
`7`, in the canonical archive mode. Canonicalizing the sibling `2` of `1`
discards `1` and `3`, both kept for the pin; a pin and an unpin on `1` then
discard key `7`, which no commit wrote to the database, while `3` is still
pinned. -/
theorem pinned_block_loses_ancestor_key :
    ∃ s₀ s : StateDbSync ℕ ℕ ℕ × Db ℕ ℕ ℕ,
      Reachable StateDbSync.apply (· = (StateDbSync.empty .archiveCanonical false, .empty)) s₀ ∧
      execute StateDbSync.apply [.canonicalizeBlock 2, .applyPending, .pin 1, .unpin 1] s₀ = some s ∧
      s₀.1.pinned.lookup 3 = some 1 ∧ s₀.1.nonCanonical.parents.lookup 3 = some 1 ∧
      (∃ b ∈ s₀.1.nonCanonical.levels.flatten, b.hash = 1 ∧ 7 ∈ b.inserted) ∧
      StateDbSync.get s₀.1 7 s₀.2 = some 7 ∧
      s.1.pinned.lookup 3 = some 1 ∧ StateDbSync.get s.1 7 s.2 = none :=
  Reachable.exists_of_execute_then
    [.insertBlock 1 1 0 ⟨[(7, 7)], []⟩, .insertBlock 2 1 0 .empty, .insertBlock 3 2 1 ⟨[(8, 8)], []⟩,
      .applyPending, .pin 3]
    rfl (by decide +kernel)

end SocialNetwork.StateDb
