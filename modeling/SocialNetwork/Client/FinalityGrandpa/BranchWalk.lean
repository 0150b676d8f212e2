import SocialNetwork.Client.FinalityGrandpa.StandardChanges
import SocialNetwork.Utils.ForkTree.Branch

/-!
# Standard changes along each branch

The tree of standard changes holds the changes signalled on every fork. What
finalizing a block sees of it is the block's branch: the changes signalled at
the block or at its ancestors, root side first, each signalled at an ancestor
of the next (`pendingOn`).

Adding a change signalled at a block that no pending change descends from
puts it last on the branch of every block at or above its own, and leaves
every other branch as it was (`run_addPendingChange_branch`). Finalizing a
block does what `finalizeWalk` says with the changes on its branch
(`run_applyStandardChanges_walk`): the first is enacted once effective,
unless the next one is signalled below the block, and then the call is
refused with `UnfinalizedAncestor` and changes nothing. Otherwise the branch
of every block at or above the finalized one loses the enacted change and
nothing else (`Follows`).

At most one change is enacted by a call, the first on the branch: a change
already effective when the one before it is enacted waits for the next call
(`standard_change_enacted_late`).
-/

namespace SocialNetwork.Grandpa

open Dispatch Fork LinearSearch

variable {H N Id E : Type} [DecidableEq H] [LinearOrder N] [Add N]

/-- What finalizing a block at height `n` does with the changes pending on its
branch, root side first: the first is enacted once effective at `n`
(`some (some c)`), unless the next one is signalled below `n` (`none`, the
refusal); otherwise nothing is enacted (`some none`). -/
def finalizeWalk (n : N) : List (PendingChange H N Id) → Option (Option (PendingChange H N Id))
  | [] => some none
  | c :: cs =>
      if c.effectiveNumber ≤ n then
        match cs with
        | next :: _ => if next.canonHeight < n then none else some (some c)
        | [] => some (some c)
      else some none

omit [DecidableEq H] in
theorem finalizeWalk_cons_of_not_le {n : N} {c : PendingChange H N Id} (cs : List (PendingChange H N Id))
    (h : ¬ c.effectiveNumber ≤ n) : finalizeWalk n (c :: cs) = some none := by
  cases cs <;> simp [finalizeWalk, h]

variable (A : Ancestry H N)

/-- A tree of standard changes as `add_pending_change` builds it: well formed
over the ancestry, each node holding the change signalled at its block. -/
structure ChangesWf (t : ForkTree H N (PendingChange H N Id)) : Prop where
  wf : t.Wf A
  signalled : ∀ e ∈ nodeItems t.roots, e.2.2.canonHash = e.1 ∧ e.2.2.canonHeight = e.2.1

/-- The standard changes pending on the branch of block `head`: those signalled
at it or at one of its ancestors, root side first. -/
def pendingOn (head : H) (t : ForkTree H N (PendingChange H N Id)) : List (PendingChange H N Id) :=
  (branch A head t.roots).map fun e => e.2.2

/-- What `apply_standard_changes` of block `hash` leaves when it enacts
`enacted`, if anything: the new set's block, the tree kept well formed and
finalized at the block, the branch of every block at or above it short of
the enacted change and of nothing else, and the authorities and set id of
the change. -/
structure Follows (hash : H) (enacted : Option (PendingChange H N Id)) (s : AuthoritySet H N Id)
    (status : Status H N) (s' : AuthoritySet H N Id) : Prop where
  newSetBlock : status.newSetBlock = enacted.map fun _ => (hash, A.height hash)
  wf : ChangesWf A s'.pendingStandardChanges
  finalized : s'.pendingStandardChanges.bestFinalizedNumber = some (A.height hash)
  pending : ∀ head, A.Below hash head → pendingOn A head s'.pendingStandardChanges =
    if enacted.isSome then (pendingOn A head s.pendingStandardChanges).tail
    else pendingOn A head s.pendingStandardChanges
  authorities : s'.currentAuthorities = (enacted.map (·.nextAuthorities)).getD s.currentAuthorities
  setId : s'.setId = s.setId + if enacted.isSome then 1 else 0

section Tree

variable {A} {t : ForkTree H N (PendingChange H N Id)} {head : H}

omit [DecidableEq H] [Add N] in
theorem ChangesWf.of_subset (ht : ChangesWf A t) {roots : List (Node H N (PendingChange H N Id))}
    (hwf : Siblings A roots) (hsub : ∀ e ∈ nodeItems roots, e ∈ nodeItems t.roots) (best : Option N) :
    ChangesWf A ⟨roots, best⟩ :=
  ⟨hwf, fun e he => ht.signalled e (hsub e he)⟩

omit [DecidableEq H] [Add N] in
/-- A change in the tree is signalled at the height of its block. -/
theorem ChangesWf.canonHeight_eq (ht : ChangesWf A t) {m : Node H N (PendingChange H N Id)}
    (hm : m ∈ Node.preorderAll t.roots) : m.data.canonHeight = A.height m.hash := by
  rw [(ht.signalled _ (List.mem_map.2 ⟨m, hm, rfl⟩)).2]
  exact (Siblings.wf_of_mem_preorderAll ht.wf hm).number_eq

omit [Add N] in
theorem ChangesWf.pendingOn_of_mem (ht : ChangesWf A t) {r : Node H N (PendingChange H N Id)}
    (hr : r ∈ t.roots) (hon : A.Below r.hash head) :
    pendingOn A head t = r.data :: (branch A head r.children).map fun e => e.2.2 := by
  rw [pendingOn, Siblings.branch_of_mem ht.wf hr hon, List.map_cons]

end Tree

section Add

variable {A} {s : AuthoritySet H N Id}

/-- `add_pending_change` of a standard change signalled at a block that is not
in the tree, and that no pending change descends from, puts it last on the
branch of every block at or above its own. -/
theorem run_addPendingChange_branch (hs : ChangesWf A s.pendingStandardChanges)
    {c : PendingChange H N Id} (hheight : c.canonHeight = A.height c.canonHash)
    (hbest : ∀ b, s.pendingStandardChanges.bestFinalizedNumber = some b → b < c.canonHeight)
    (hnew : c.canonHash ∉ (Node.preorderAll s.pendingStandardChanges.roots).map Node.hash)
    (hfresh : ∀ m ∈ Node.preorderAll s.pendingStandardChanges.roots, A.desc c.canonHash m.hash = false)
    (hvalid : invalidAuthorityList c.nextAuthorities = false) (hkind : c.delayKind = .finalized) :
    ∃ t', (addPendingChange (ancestryOracle (E := E) A) c).run s =
        .ok () { s with pendingStandardChanges := t' } ∧
      ChangesWf A t' ∧ t'.bestFinalizedNumber = s.pendingStandardChanges.bestFinalizedNumber ∧
      ∀ head, pendingOn A head t' =
        pendingOn A head s.pendingStandardChanges ++ if A.Below c.canonHash head then [c] else [] := by
  rw [hheight] at hbest
  rcases run_import_spec (E := E) c.canonHash c hs.wf hbest with ⟨hdup, -⟩ | ⟨-, isRoot, t', himport, hplaced⟩
  · exact absurd hdup hnew
  have ht' : t'.Wf A := (wp_import_wf (E := E) c.canonHash c hs.wf hfresh).of_ok himport
  refine ⟨t', ?_, ⟨ht', fun e he => ?_⟩, hplaced.1, fun head => ?_⟩
  · unfold addPendingChange
    rw [hvalid, if_neg Bool.false_ne_true]
    simp only [hkind]
    unfold addStandardChange
    rw [hheight, run_bind_ok (run_onStandard_ok himport)]
    rfl
  · -- an item of the new tree is the new change's or an old one
    rcases List.mem_cons.1 ((nodeItems_roots_perm_of_placed hplaced).subset he) with rfl | he
    · exact ⟨rfl, hheight⟩
    · exact hs.signalled e he
  · rw [pendingOn, pendingOn, branch_of_placed hs.wf ht' hplaced hnew hfresh, List.map_append]
    split_ifs <;> rfl

end Add

section Apply

variable {A} {s : AuthoritySet H N Id} {hash : H}
  (hs : ChangesWf A s.pendingStandardChanges)
  (hbest : ∀ b, s.pendingStandardChanges.bestFinalizedNumber = some b → b < A.height hash)

include hs hbest

/-- No root passes: the roots the test does not retain are dropped, and
nothing is enacted. -/
theorem follows_of_none
    (hnone : firstWith (Passes A hash fun change : PendingChange H N Id =>
      decide (change.effectiveNumber ≤ A.height hash)) s.pendingStandardChanges.roots = none) :
    ∃ status s', (applyStandardChanges (ancestryOracle (E := E) A) hash (A.height hash)).run s =
      .ok status s' ∧ Follows A hash none s status s' := by
  have hrun := run_finalizeWithDescendentIf_none_retains (E := E) (run_checkRevert_of_lt hbest) hnone
  have hwf : ChangesWf A ⟨s.pendingStandardChanges.roots.filter (retains A hash (A.height hash)),
      some (A.height hash)⟩ :=
    hs.of_subset (hs.wf.sublist List.filter_sublist) (fun _ he => mem_nodeItems_of_mem_filter he) _
  have hpending : ∀ head, A.Below hash head →
      pendingOn A head ⟨s.pendingStandardChanges.roots.filter (retains A hash (A.height hash)),
        some (A.height hash)⟩ = pendingOn A head s.pendingStandardChanges := fun head hhead => by
    rw [pendingOn, pendingOn]
    exact congrArg _ (Siblings.branch_filter_retains hs.wf hhead)
  split_ifs at hrun
  · obtain ⟨forced, happly⟩ := run_applyStandardChanges_pruned hrun
    exact ⟨_, _, happly, rfl, hwf, rfl, hpending, rfl, rfl⟩
  · exact ⟨_, _, run_applyStandardChanges_unchanged hrun, rfl, hwf, rfl, hpending, rfl, rfl⟩

/-- A root passes and no child blocks it: its change is enacted, and its
children on the branch take its place. -/
theorem follows_of_found {i : ℕ} {root : Node H N (PendingChange H N Id)}
    (hfirst : firstWith (Passes A hash fun change : PendingChange H N Id =>
      decide (change.effectiveNumber ≤ A.height hash)) s.pendingStandardChanges.roots = some (i, root))
    (hskip : root.children.any (Blocks A hash (A.height hash)) = false) :
    ∃ status s', (applyStandardChanges (ancestryOracle (E := E) A) hash (A.height hash)).run s =
      .ok status s' ∧ Follows A hash (some root.data) s status s' := by
  have hrun := run_finalizeWithDescendentIf_found_retains (E := E) (run_checkRevert_of_lt hbest) hfirst hskip
  obtain ⟨forced, happly⟩ := run_applyStandardChanges_enacts hrun
  have hroot : root ∈ s.pendingStandardChanges.roots := mem_of_firstWith hfirst
  have hbelow : A.Below root.hash hash := below_of_passes (firstWith_spec hfirst).2
  have hchildren : Siblings A root.children := (hs.wf.wf root hroot).siblings
  have hwf : ChangesWf A ⟨root.children.filter (retains A hash (A.height hash)), some (A.height hash)⟩ :=
    hs.of_subset (hchildren.sublist List.filter_sublist)
      (fun _ he => mem_nodeItems_of_mem_children hroot (mem_nodeItems_of_mem_filter he)) _
  refine ⟨_, _, happly, rfl, hwf, rfl, fun head hhead => ?_, rfl, rfl⟩
  -- the root heads the branch, and the children it retains hold the rest
  rw [if_pos Option.isSome_some, hs.pendingOn_of_mem hroot (hbelow.trans hhead), List.tail_cons]
  exact congrArg _ (Siblings.branch_filter_retains hchildren hhead)

omit hs in
/-- A root passes and a child on the branch below the block blocks it: the
call is refused, and the set is as it was. -/
theorem run_applyStandardChanges_refused {i : ℕ} {root : Node H N (PendingChange H N Id)}
    (hfirst : firstWith (Passes A hash fun change : PendingChange H N Id =>
      decide (change.effectiveNumber ≤ A.height hash)) s.pendingStandardChanges.roots = some (i, root))
    (hskip : root.children.any (Blocks A hash (A.height hash)) = true) :
    (applyStandardChanges (ancestryOracle (E := E) A) hash (A.height hash)).run s =
      .error (.error (.forkTree .unfinalizedAncestor)) s :=
  run_applyStandardChanges_error (run_finalizeWithDescendentIf_skips (run_checkRevert_of_lt hbest) hfirst hskip)

omit hbest in
/-- The root on the block's branch, when it is effective, is the one the
search finds. -/
theorem firstWith_passes_root {r : Node H N (PendingChange H N Id)} (hr : r ∈ s.pendingStandardChanges.roots)
    (hon : A.Below r.hash hash) (heff : r.data.effectiveNumber ≤ A.height hash) :
    ∃ i, firstWith (Passes A hash fun change : PendingChange H N Id =>
      decide (change.effectiveNumber ≤ A.height hash)) s.pendingStandardChanges.roots = some (i, r) := by
  refine Siblings.firstWith_roots hs.wf hr ?_
  simp only [Passes, heff, decide_true, Bool.true_and, Bool.or_eq_true, decide_eq_true_eq]
  exact hon

/-- `apply_standard_changes` of a block above the last finalized one does what
`finalizeWalk` says with the changes on the block's branch. -/
theorem run_applyStandardChanges_walk :
    match finalizeWalk (A.height hash) (pendingOn A hash s.pendingStandardChanges) with
    | none => (applyStandardChanges (ancestryOracle (E := E) A) hash (A.height hash)).run s =
        .error (.error (.forkTree .unfinalizedAncestor)) s
    | some enacted => ∃ status s', (applyStandardChanges (ancestryOracle (E := E) A) hash (A.height hash)).run s =
        .ok status s' ∧ Follows A hash enacted s status s' := by
  by_cases hroot : ∃ r ∈ s.pendingStandardChanges.roots, A.Below r.hash hash
  · obtain ⟨r, hr, hon⟩ := hroot
    have hchildren : Siblings A r.children := (hs.wf.wf r hr).siblings
    rw [hs.pendingOn_of_mem hr hon]
    by_cases heff : r.data.effectiveNumber ≤ A.height hash
    · obtain ⟨i, hfirst⟩ := firstWith_passes_root hs hr hon heff
      by_cases hchild : ∃ c ∈ r.children, A.Below c.hash hash
      · -- the next change is signalled at the child on the branch
        obtain ⟨c, hc, hcon⟩ := hchild
        have hheight : c.data.canonHeight = A.height c.hash := hs.canonHeight_eq
          (Node.mem_preorderAll.2 ⟨r, hr, Node.mem_preorder_of_mem_children hc (Node.mem_preorder_self c)⟩)
        rw [Siblings.branch_of_mem hchildren hc hcon, List.map_cons, finalizeWalk, if_pos heff]
        by_cases heq : c.hash = hash
        · -- signalled at the block itself: it stays, and blocks nothing
          rw [if_neg (by rw [hheight, heq]; exact lt_irrefl _)]
          refine follows_of_found hs hbest hfirst (any_blocks_eq_false fun d hd => ?_)
          by_contra hdesc
          have hd' : d = c := eq_of_below hchildren.incomparable hd hc
            (.inr (Bool.not_eq_false _ ▸ hdesc)) hcon
          rw [hd', heq, Ancestry.desc_irrefl] at hdesc
          exact hdesc rfl
        · have hdesc : A.desc c.hash hash = true := hcon.resolve_left heq
          rw [if_pos (by rw [hheight]; exact A.height_lt hdesc)]
          exact run_applyStandardChanges_refused hbest hfirst
            (List.any_eq_true.2 ⟨c, hc, by
              simp [Blocks, hdesc, (hchildren.wf c hc).number_eq, (A.height_lt hdesc).le]⟩)
      · simp only [not_exists, not_and] at hchild
        rw [Siblings.branch_eq_nil hchildren hchild, List.map_nil, finalizeWalk, if_pos heff]
        exact follows_of_found hs hbest hfirst (any_blocks_eq_false fun d hd =>
          Bool.eq_false_iff.2 fun hdesc => hchild d hd (.inr hdesc))
    · -- the root on the branch is not effective, and no other root is on it
      rw [finalizeWalk_cons_of_not_le _ heff]
      refine follows_of_none hs hbest (firstWith_passes_eq_none fun x hx hxon => ?_)
      rw [eq_of_below hs.wf.incomparable hx hr hxon hon]
      exact decide_eq_false heff
  · simp only [not_exists, not_and] at hroot
    rw [pendingOn, Siblings.branch_eq_nil hs.wf hroot, List.map_nil]
    exact follows_of_none hs hbest (firstWith_passes_eq_none fun x hx hxon => absurd hxon (hroot x hx))

end Apply

/-- On a tree of standard changes as `add_pending_change` builds it, with a
client that answers from the ancestry: adding a change signalled at a new
block that no pending change descends from puts it last on the branch of
every block at or above its own; and finalizing a block above the last
finalized one does what `finalizeWalk` says with the changes on its branch. -/
theorem standard_changes_follow_branch_walk :
    (∀ (s : AuthoritySet H N Id) (c : PendingChange H N Id), ChangesWf A s.pendingStandardChanges →
      c.canonHeight = A.height c.canonHash →
      (∀ b, s.pendingStandardChanges.bestFinalizedNumber = some b → b < c.canonHeight) →
      c.canonHash ∉ (Node.preorderAll s.pendingStandardChanges.roots).map Node.hash →
      (∀ m ∈ Node.preorderAll s.pendingStandardChanges.roots, A.desc c.canonHash m.hash = false) →
      invalidAuthorityList c.nextAuthorities = false → c.delayKind = .finalized →
      ∃ t', (addPendingChange (ancestryOracle (E := E) A) c).run s =
          .ok () { s with pendingStandardChanges := t' } ∧
        ChangesWf A t' ∧ t'.bestFinalizedNumber = s.pendingStandardChanges.bestFinalizedNumber ∧
        ∀ head, pendingOn A head t' =
          pendingOn A head s.pendingStandardChanges ++ if A.Below c.canonHash head then [c] else []) ∧
    ∀ (s : AuthoritySet H N Id) (hash : H), ChangesWf A s.pendingStandardChanges →
      (∀ b, s.pendingStandardChanges.bestFinalizedNumber = some b → b < A.height hash) →
      match finalizeWalk (A.height hash) (pendingOn A hash s.pendingStandardChanges) with
      | none => (applyStandardChanges (ancestryOracle (E := E) A) hash (A.height hash)).run s =
          .error (.error (.forkTree .unfinalizedAncestor)) s
      | some enacted =>
          ∃ status s', (applyStandardChanges (ancestryOracle (E := E) A) hash (A.height hash)).run s =
            .ok status s' ∧ Follows A hash enacted s status s' :=
  ⟨fun _ _ hs hheight hbest hnew hfresh hvalid hkind =>
      run_addPendingChange_branch hs hheight hbest hnew hfresh hvalid hkind,
    fun _ _ hs hbest => run_applyStandardChanges_walk hs hbest⟩

/-- Blocks `0` to `5`: the chain `0, 1, 2, 3`, and the fork `4, 5` off block
`1`, at the heights of `2` and `3`. -/
def forkAncestry : Ancestry (Fin 6) ℕ where
  desc a b := decide ((a, b) ∈
    [(0, 1), (0, 2), (0, 3), (0, 4), (0, 5), (1, 2), (1, 3), (1, 4), (1, 5), (2, 3), (4, 5)])
  height b := if b.val < 4 then b.val else b.val - 2
  desc_trans := by decide
  ancestors_chain := by decide
  height_lt := by decide

/-- The change signalled at block `1`, effective at block `2`, and the one
signalled at block `4` of the fork. -/
def forkChangeAtOne : PendingChange (Fin 6) ℕ ℕ := ⟨[(1, 1)], 1, 1, 1, .finalized⟩

def forkChangeAtFour : PendingChange (Fin 6) ℕ ℕ := ⟨[(4, 1)], 0, 2, 4, .finalized⟩

def rootOnly : AuthoritySet (Fin 6) ℕ ℕ := ⟨[(0, 1)], 0, ⟨[⟨1, 1, forkChangeAtOne, []⟩], none⟩, [], []⟩

def forkSet : AuthoritySet (Fin 6) ℕ ℕ :=
  ⟨[(0, 1)], 0, ⟨[⟨1, 1, forkChangeAtOne, [⟨4, 2, forkChangeAtFour, []⟩]⟩], none⟩, [], []⟩

/-- Adding the change of block `4` to `rootOnly` puts it on the branch of
block `5` and not on that of block `3`; finalizing block `2` of the main
chain in `forkSet` then enacts the change of block `1`. -/
theorem standard_changes_follow_branch_walk_fork :
    (∃ t', (addPendingChange (ancestryOracle (E := Unit) forkAncestry) forkChangeAtFour).run rootOnly =
        .ok () { rootOnly with pendingStandardChanges := t' } ∧
      pendingOn forkAncestry 5 t' = [forkChangeAtOne, forkChangeAtFour] ∧
      pendingOn forkAncestry 3 t' = [forkChangeAtOne]) ∧
    ∃ status s', (applyStandardChanges (ancestryOracle (E := Unit) forkAncestry) 2 2).run forkSet =
      .ok status s' ∧ Follows forkAncestry 2 (some forkChangeAtOne) forkSet status s' := by
  have hone : ChangesWf forkAncestry rootOnly.pendingStandardChanges :=
    ⟨Siblings.singleton (Node.Wf.leaf 1 forkChangeAtOne), by decide⟩
  have hfork : ChangesWf forkAncestry forkSet.pendingStandardChanges :=
    ⟨Siblings.singleton (Node.Wf.intro rfl (by decide) (Siblings.singleton (Node.Wf.leaf 4 forkChangeAtFour))),
      by decide⟩
  obtain ⟨t', hrun, -, -, hpending⟩ := (standard_changes_follow_branch_walk (E := Unit) forkAncestry).1
    rootOnly forkChangeAtFour hone rfl (fun _ hb => by cases hb) (by decide) (by decide) rfl rfl
  have happly := (standard_changes_follow_branch_walk (E := Unit) forkAncestry).2 forkSet 2 hfork
    fun _ hb => by cases hb
  have hwalk : finalizeWalk (forkAncestry.height 2) (pendingOn forkAncestry 2 forkSet.pendingStandardChanges) =
      some (some forkChangeAtOne) := rfl
  rw [hwalk] at happly
  exact ⟨⟨t', hrun, by rw [hpending]; rfl, by rw [hpending]; rfl⟩, happly⟩

/-- Two standard changes of one chain: at block `1`, effective at `2`, and at
block `3`, effective at once. -/
def changeAtOne : PendingChange ℕ ℕ ℕ := ⟨[(1, 1)], 1, 1, 1, .finalized⟩

def changeAtThree : PendingChange ℕ ℕ ℕ := ⟨[(2, 1)], 0, 3, 3, .finalized⟩

def twoChanges : AuthoritySet ℕ ℕ ℕ :=
  ⟨[(0, 1)], 0, ⟨[⟨1, 1, changeAtOne, [⟨3, 3, changeAtThree, []⟩]⟩], none⟩, [], []⟩

/-- Added in order, the change of block `3` is signalled after the first is
effective, and is itself effective at `3`: finalizing block `3` enacts only
the first, and the second waits for the next finalized block, `4`. -/
theorem standard_change_enacted_late :
    changeAtOne.effectiveNumber ≤ changeAtThree.canonHeight ∧ changeAtThree.effectiveNumber = 3 ∧
      (do
          addPendingChange (ancestryOracle (E := Unit) chainAncestry) changeAtOne
          addPendingChange (ancestryOracle (E := Unit) chainAncestry) changeAtThree :
            SetCall ℕ ℕ ℕ Unit Unit).run ⟨[(0, 1)], 0, ForkTree.new, [], []⟩ = .ok () twoChanges ∧
      (applyStandardChanges (ancestryOracle (E := Unit) chainAncestry) 3 3).run twoChanges =
        .ok ⟨true, some (3, 3)⟩ ⟨[(1, 1)], 1, ⟨[⟨3, 3, changeAtThree, []⟩], some 3⟩, [], [(0, 3)]⟩ ∧
      (applyStandardChanges (ancestryOracle (E := Unit) chainAncestry) 4 4).run
          ⟨[(1, 1)], 1, ⟨[⟨3, 3, changeAtThree, []⟩], some 3⟩, [], [(0, 3)]⟩ =
        .ok ⟨true, some (4, 4)⟩ ⟨[(2, 1)], 2, ⟨[], some 4⟩, [], [(0, 3), (1, 4)]⟩ := by
  refine ⟨by decide, rfl, ?_, rfl, rfl⟩
  simp [changeAtOne, changeAtThree, twoChanges, addPendingChange, invalidAuthorityList,
    addStandardChange, onStandard, run_mapError, run_zoom, ForkTree.import, checkRevert, importRoots,
    Node.import, Node.importChildren, ancestryOracle, chainAncestry, rebalance, byDepth,
    Node.rebalance_eq, ForkTree.new]

end SocialNetwork.Grandpa
