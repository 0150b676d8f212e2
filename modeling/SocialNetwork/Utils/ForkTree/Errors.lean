import SocialNetwork.Utils.ForkTree.Wf

/-!
# What a failed call leaves of the fork tree

`import` fails without a trace, whatever the client answers: the nodes it
walks are written only once one of them takes the block (`wp_import_error`).
The finalizations are not so: `finalize` and `finalize_with_descendent_if`
move the roots out with `mem::take` before the loop that asks the client
about each of them, and a failure of the client in that loop returns with
the roots not yet walked gone (`finalize_drops_roots_on_client_error`).
-/

namespace SocialNetwork.Fork

open Dispatch

variable {H N V E : Type} [DecidableEq H] [LinearOrder N]
  (isDescendentOf : H → H → Except E Bool)

theorem wp_import_error (hash : H) (number : N) (data : V) (t : ForkTree H N V) :
    Wp (ForkTree.import isDescendentOf hash number data) (fun _ _ => True)
      (fun _ t' => t' = t) t := by
  unfold ForkTree.import
  refine wp_bind_of_keeps keeps_checkRevert (fun _ => ?_) (fun _ => rfl)
  simp only [wp_bind, wp_get]
  rw [importRoots_eq_importChildren]
  have hnotTaken := Node.importChildren_of_not_taken isDescendentOf hash number data t.roots
  generalize Node.importChildren isDescendentOf hash number data t.roots = res at hnotTaken ⊢
  obtain ⟨r, roots'⟩ := res
  rcases r with e | _ | _
  · -- the roots it walked are as they were
    have hsame : roots' = t.roots := hnotTaken (by simp)
    simp only [wp_set, wp_fail, hsame]
  · simp [rebalance]
  · simp [rebalance]

def forkAncestry : Ancestry ℕ ℕ where
  desc a b := decide (a = 0 ∧ b ≠ 0)
  height b := if b = 0 then 0 else 1
  desc_trans := by
    intro a b c hab hbc
    simp only [decide_eq_true_eq] at hab hbc
    exact absurd hbc.1 hab.2
  ancestors_chain := by
    intro a b c hac hbc
    simp only [decide_eq_true_eq] at hac hbc
    exact .inl (hac.1.trans hbc.1.symm)
  height_lt := by
    intro a b hab
    simp only [decide_eq_true_eq] at hab
    simp [hab.1, hab.2]

/-- The client for `forkAncestry` when its lookup of block `2` from block `0`
fails. -/
def failingOracle (a b : ℕ) : Except Unit Bool :=
  if a = 0 ∧ b = 2 then .error () else .ok (forkAncestry.desc a b)

def forkRoots : ForkTree ℕ ℕ Unit := ⟨[⟨1, 1, (), []⟩, ⟨2, 1, (), []⟩], none⟩

/-- On a well-formed tree, with a client that agrees with the ancestry where it
answers, `finalize` of block `0` fails with the client's error and leaves
one root of the two. -/
theorem finalize_drops_roots_on_client_error :
    forkRoots.Wf forkAncestry ∧
      (∀ a b r, failingOracle a b = .ok r → r = forkAncestry.desc a b) ∧
      (finalize failingOracle 0 0).run forkRoots =
        .error (.error (.client ())) ⟨[⟨1, 1, (), []⟩], none⟩ := by
  refine ⟨?_, fun a b r h => ?_, rfl⟩
  · -- the forks are incomparable leaves at their height
    have hinc : forkAncestry.Incomparable 1 2 :=
      ⟨by decide, by simp [forkAncestry], by simp [forkAncestry]⟩
    exact ⟨List.pairwise_pair.2 hinc, by
      simpa [forkRoots] using ⟨Node.Wf.leaf (A := forkAncestry) 1 (), Node.Wf.leaf 2 ()⟩⟩
  · unfold failingOracle at h
    split_ifs at h
    exact (Except.ok.inj h).symm

end SocialNetwork.Fork
