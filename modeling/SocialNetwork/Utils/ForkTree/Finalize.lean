import SocialNetwork.Utils.ForkTree.Links
import SocialNetwork.Utils.ForkTree.Agreement

/-!
# What a finalization keeps

`finalize` of a block that is a root makes the root's children the roots.
Otherwise it fails with `UnfinalizedAncestor` when a root below the number is
an ancestor of the block, and else keeps the roots above the number that
descend from it. `finalize_with_ancestors` walks the roots in a loop: it
keeps a root that descends from the block, opens an ancestor into its
children with `swap_remove` and `extend`, removes any other root, and stops
at the block's node once that has become a root.

For a block at its height, with a client that answers from the ancestry, both
leave the nodes strictly below the block, under the same parents as far as
those are below the block too (`linksBelow`), and the block's height as the
best finalized number (`Finalized`). The loop is carried by `LoopInv`, with
one lemma for each way a root is handled (`LoopInv.skip`, `LoopInv.remove`,
`LoopInv.open`) and `ancestorsLoop_spec` for a whole run; `finalize_keeps_descendants`
puts the two calls together. With another number, the finalization of a root
still records the root's own number (`finalize_root_keeps_its_number`).
-/

namespace SocialNetwork.Fork

open Dispatch

variable {H N V E : Type} [DecidableEq H] [LinearOrder N]

section Below

variable {A : Ancestry H N} {hash : H}

omit [DecidableEq H] in
/-- A node incomparable with the block holds neither the block nor a
descendant of it. -/
theorem Node.Wf.clear_of_incomparable {x : Node H N V} (hx : x.Wf A)
    (hinc : A.Incomparable x.hash hash) :
    ∀ m ∈ x.preorder, m.hash ≠ hash ∧ A.desc hash m.hash = false := by
  intro m hm
  have hxm : A.Below x.hash m.hash := (hx.of_mem_preorder hm).2
  refine ⟨fun hhash => ?_, Bool.eq_false_iff.2 fun hdesc => ?_⟩
  · exact hinc.not_below_both hxm (by rw [hhash]; exact Ancestry.below_refl _)
  · exact hinc.not_below_both hxm (Ancestry.below_of_desc hdesc)

omit [DecidableEq H] in
theorem linksBelow_linksAll_of_clear {l : List (Node H N V)} {parent : Option H}
    (h : ∀ y ∈ l, ∀ m ∈ y.preorder, A.desc hash m.hash = false) :
    linksBelow A hash (Node.linksAll parent l) = [] := by
  induction l with
  | nil => rfl
  | cons y ys ih =>
      rw [Node.linksAll_cons, linksBelow_append,
        linksBelow_links_of_not_desc parent (h y List.mem_cons_self),
        ih fun y' hy' => h y' (List.mem_cons_of_mem _ hy')]
      rfl

omit [DecidableEq H] in
theorem linksBelow_roots_of_desc {l : List (Node H N V)}
    (h : ∀ y ∈ l, y.Wf A ∧ A.desc hash y.hash = true) :
    linksBelow A hash (Node.linksAll none l) = Node.linksAll none l :=
  linksBelow_linksAll_of_desc fun y hy => (h y hy).1.linksBelow_of_desc (h y hy).2 none

omit [DecidableEq H] in
/-- Roots each strictly below the block or incomparable with it keep the
links of the first. -/
theorem linksBelow_roots_filter {l : List (Node H N V)}
    (h : ∀ y ∈ l, y.Wf A ∧ (A.desc hash y.hash = true ∨ A.Incomparable y.hash hash)) :
    linksBelow A hash (Node.linksAll none l) =
      Node.linksAll none (l.filter fun y => A.desc hash y.hash) := by
  induction l with
  | nil => rfl
  | cons y ys ih =>
      have hrest := ih fun y' hy' => h y' (List.mem_cons_of_mem _ hy')
      obtain ⟨hy, hdesc | hinc⟩ := h y List.mem_cons_self
      · rw [List.filter_cons_of_pos (p := fun y : Node H N V => A.desc hash y.hash) hdesc, Node.linksAll_cons,
          Node.linksAll_cons,
          linksBelow_append, hy.linksBelow_of_desc hdesc none, hrest]
        rfl
      · rw [List.filter_cons_of_neg (p := fun y : Node H N V => A.desc hash y.hash) (by simp [hinc.not_desc']),
          Node.linksAll_cons,
          linksBelow_append, linksBelow_links_of_not_desc none
            fun m hm => (hy.clear_of_incomparable hinc m hm).2, hrest]
        rfl

omit [DecidableEq H] in
/-- Among well-formed siblings one of which is the block, the links below the
block are those of the block's children, made roots. -/
theorem Siblings.linksBelow_of_block {l : List (Node H N V)} (h : Siblings A l)
    {x : Node H N V} (hx : x ∈ l) (hhash : x.hash = hash) :
    (linksBelow A hash (Node.linksAll none l)).Perm (Node.linksAll none x.children) := by
  induction l with
  | nil => exact absurd hx List.not_mem_nil
  | cons y ys ih =>
      have hpair := List.pairwise_cons.1 h.incomparable
      have hys : Siblings A ys := h.sublist (List.sublist_cons_self y ys)
      rw [Node.linksAll_cons, linksBelow_append]
      rcases List.mem_cons.1 hx with rfl | hx
      · -- the block's node: its children are all strictly below it, its
        -- siblings incomparable with it
        have hxwf := h.wf x List.mem_cons_self
        have hnot : A.desc hash x.hash = false := by
          rw [hhash]
          exact Ancestry.desc_irrefl _
        have hchildren : linksBelow A hash (Node.linksAll none x.children) =
            Node.linksAll none x.children :=
          linksBelow_roots_of_desc fun c hc => ⟨hxwf.siblings.wf c hc, hhash ▸ hxwf.desc_child hc⟩
        have hclear : ∀ y' ∈ ys, ∀ m ∈ y'.preorder, A.desc hash m.hash = false := by
          intro y' hy' m hm
          have hinc : A.Incomparable y'.hash hash := by
            rw [← hhash]
            exact (hpair.1 y' hy').symm
          exact ((hys.wf y' hy').clear_of_incomparable hinc m hm).2
        rw [Node.linksBelow_links_eq_children none hnot, hchildren, linksBelow_linksAll_of_clear hclear,
          List.append_nil]
      · -- an earlier sibling is incomparable with the block
        have hinc : A.Incomparable y.hash hash := hhash ▸ hpair.1 x hx
        rw [linksBelow_links_of_not_desc none
          fun m hm => ((h.wf y List.mem_cons_self).clear_of_incomparable hinc m hm).2, List.nil_append]
        exact ih hys hx

end Below

section SwapRemove

variable {α : Type} {l : List α} {i : ℕ}

theorem perm_cons_swapRemove (hi : i < l.length) : l.Perm (l[i] :: swapRemove l i) :=
  (((swapRemove_perm hi).cons _).trans (List.getElem_cons_eraseIdx_perm hi)).symm

theorem length_swapRemove (hi : i < l.length) : (swapRemove l i).length = l.length - 1 := by
  rw [(swapRemove_perm hi).length_eq, List.length_eraseIdx_of_lt hi]

/-- `swap_remove` leaves the elements before the one it takes out where they
were. -/
theorem getElem?_swapRemove_of_lt {j : ℕ} (hi : i < l.length) (hji : j < i) :
    (swapRemove l i)[j]? = l[j]? := by
  unfold swapRemove
  split
  · split_ifs
    · rw [List.getElem?_dropLast, List.length_set, if_pos (by omega),
        List.getElem?_set_ne (by omega)]
    · rw [List.getElem?_dropLast, if_pos (by omega)]
  · rfl

end SwapRemove

section Loop

variable (A : Ancestry H N) (hash : H) (t : ForkTree H N V)

/-- What the loop of `finalize_with_ancestors` keeps of the tree it started
from, at its roots and index: the roots are siblings made of nodes of the
old tree, with its links below the block, and with the block's node if the
old tree had one; the roots before the index are strictly below the block. -/
structure LoopInv (roots : List (Node H N V)) (idx : ℕ) : Prop where
  siblings : Siblings A roots
  subset : ∀ m ∈ Node.preorderAll roots, m ∈ Node.preorderAll t.roots
  links : (linksBelow A hash (Node.linksAll none roots)).Perm (linksBelow A hash t.links)
  block : hash ∈ (Node.preorderAll t.roots).map Node.hash →
    hash ∈ (Node.preorderAll roots).map Node.hash
  kept : ∀ j < idx, ∀ x, roots[j]? = some x → A.desc hash x.hash = true

/-- How the loop ends: at the block's node, a root by then, or after the last
root, with every root strictly below the block; never at a client error. -/
def LoopDone : LoopEnd E × List (Node H N V) → Prop
  | (.finalized i, roots) => LoopInv A hash t roots 0 ∧ ∃ x, roots[i]? = some x ∧ x.hash = hash
  | (.done _, roots) => LoopInv A hash t roots roots.length
  | (.error _, _) => False

variable {A hash t} {roots : List (Node H N V)} {idx : ℕ}

omit [DecidableEq H] in
theorem LoopInv.start (ht : t.Wf A) : LoopInv A hash t t.roots 0 :=
  ⟨ht, fun _ hm => hm, .refl _, id, fun _ hj => absurd hj (Nat.not_lt_zero _)⟩

omit [DecidableEq H] in
theorem LoopInv.skip (h : LoopInv A hash t roots idx) (hi : idx < roots.length)
    (hdesc : A.desc hash roots[idx].hash = true) : LoopInv A hash t roots (idx + 1) := by
  refine { h with kept := fun j hj x hx => ?_ }
  rcases Nat.lt_succ_iff_lt_or_eq.1 hj with hj | rfl
  · exact h.kept j hj x hx
  · rw [List.getElem?_eq_getElem hi] at hx
    obtain rfl := Option.some.inj hx
    exact hdesc

omit [DecidableEq H] in
theorem LoopInv.remove (h : LoopInv A hash t roots idx) (hi : idx < roots.length)
    (hclear : ∀ m ∈ roots[idx].preorder, m.hash ≠ hash ∧ A.desc hash m.hash = false) :
    LoopInv A hash t (swapRemove roots idx) idx := by
  have hperm := perm_cons_swapRemove hi
  refine ⟨(h.siblings.perm hperm).sublist (List.sublist_cons_self _ _), fun m hm => ?_, ?_,
    fun hblock => ?_, fun j hj x hx => ?_⟩
  · obtain ⟨y, hy, hmy⟩ := Node.mem_preorderAll.1 hm
    exact h.subset m (Node.mem_preorderAll.2 ⟨y, hperm.mem_iff.2 (List.mem_cons_of_mem _ hy), hmy⟩)
  · -- the removed root kept no link
    have hsplit : (linksBelow A hash (Node.linksAll none roots)).Perm
        (linksBelow A hash (Node.linksAll none (roots[idx] :: swapRemove roots idx))) :=
      linksBelow_perm A hash (Node.linksAll_perm hperm)
    rw [Node.linksAll_cons, linksBelow_append,
      linksBelow_links_of_not_desc none fun m hm => (hclear m hm).2, List.nil_append] at hsplit
    exact hsplit.symm.trans h.links
  · obtain ⟨m, hm, hmh⟩ := List.mem_map.1 (h.block hblock)
    obtain ⟨y, hy, hmy⟩ := Node.mem_preorderAll.1 hm
    rcases List.mem_cons.1 (hperm.mem_iff.1 hy) with rfl | hy'
    · exact absurd hmh (hclear m hmy).1
    · exact List.mem_map.2 ⟨m, Node.mem_preorderAll.2 ⟨y, hy', hmy⟩, hmh⟩
  · rw [getElem?_swapRemove_of_lt hi hj] at hx
    exact h.kept j hj x hx

omit [DecidableEq H] in
/-- A strict ancestor of the block is opened: taken out, and its children
appended to the roots. -/
theorem LoopInv.open (h : LoopInv A hash t roots idx) (hi : idx < roots.length)
    (hhash : roots[idx].hash ≠ hash) (hdesc : A.desc roots[idx].hash hash = true) :
    LoopInv A hash t (swapRemove roots idx ++ roots[idx].children) idx := by
  have hperm := perm_cons_swapRemove hi
  refine ⟨?_, fun m hm => ?_, ?_, fun hblock => ?_, fun j hj x hx => ?_⟩
  · exact (h.siblings.eraseIdx_append_children hi).perm ((swapRemove_perm hi).append_right _).symm
  · rw [Node.preorderAll_append] at hm
    rcases List.mem_append.1 hm with hm | hm
    · obtain ⟨y, hy, hmy⟩ := Node.mem_preorderAll.1 hm
      exact h.subset m (Node.mem_preorderAll.2 ⟨y, hperm.mem_iff.2 (List.mem_cons_of_mem _ hy), hmy⟩)
    · -- a node under the opened root
      have hmroot : m ∈ roots[idx].preorder := by
        rw [Node.preorder_eq]
        exact List.mem_cons_of_mem _ hm
      exact h.subset m (Node.mem_preorderAll.2 ⟨roots[idx], List.getElem_mem hi, hmroot⟩)
  · -- the opened root keeps what its children keep as roots
    have hsplit : (linksBelow A hash (Node.linksAll none roots)).Perm
        (linksBelow A hash (Node.linksAll none (roots[idx] :: swapRemove roots idx))) :=
      linksBelow_perm A hash (Node.linksAll_perm hperm)
    rw [Node.linksAll_cons, linksBelow_append,
      Node.linksBelow_links_eq_children none (Ancestry.desc_asymm hdesc)] at hsplit
    rw [Node.linksAll_append, linksBelow_append]
    exact List.perm_append_comm.trans (hsplit.symm.trans h.links)
  · obtain ⟨m, hm, hmh⟩ := List.mem_map.1 (h.block hblock)
    obtain ⟨y, hy, hmy⟩ := Node.mem_preorderAll.1 hm
    rw [Node.preorderAll_append, List.map_append]
    rcases List.mem_cons.1 (hperm.mem_iff.1 hy) with rfl | hy'
    · -- under the opened root, which is not the block
      rw [Node.preorder_eq] at hmy
      rcases List.mem_cons.1 hmy with rfl | hmy
      · exact absurd hmh hhash
      · exact List.mem_append_right _ (List.mem_map.2 ⟨m, hmy, hmh⟩)
    · exact List.mem_append_left _ (List.mem_map.2 ⟨m, Node.mem_preorderAll.2 ⟨y, hy', hmy⟩, hmh⟩)
  · have hlen : j < (swapRemove roots idx).length := by
      rw [length_swapRemove hi]
      omega
    rw [List.getElem?_append_left hlen, getElem?_swapRemove_of_lt hi hj] at hx
    exact h.kept j hj x hx

omit [DecidableEq H] in
/-- The loop's first question, with the ancestry's answers, for a root at its
height: whether the root descends from the block. -/
theorem descendantTest_eq {x : Node H N V} (hx : x.Wf A) :
    (if x.number > A.height hash then ancestryOracle (E := E) A hash x.hash else .ok false) =
      .ok (A.desc hash x.hash) := by
  split_ifs with hgt
  · rfl
  · -- a descendant of the block is higher
    refine congrArg _ (Eq.symm (Bool.eq_false_iff.2 fun hdesc => hgt ?_))
    rw [hx.number_eq]
    exact A.height_lt hdesc

omit [DecidableEq H] in
theorem ancestorTest_eq {x : Node H N V} (hx : x.Wf A) :
    (if x.number < A.height hash then ancestryOracle (E := E) A x.hash hash else .ok false) =
      .ok (A.desc x.hash hash) := by
  split_ifs with hlt
  · rfl
  · -- an ancestor of the block is lower
    refine congrArg _ (Eq.symm (Bool.eq_false_iff.2 fun hdesc => hlt ?_))
    rw [hx.number_eq]
    exact A.height_lt hdesc

/-- **Loop rule** of `finalize_with_ancestors` for a block at its height:
the invariant holds when the loop ends, which it does at the block's node or
after the last root. -/
theorem ancestorsLoop_spec (roots : List (Node H N V)) (idx : ℕ) (changed : Bool) :
    LoopInv A hash t roots idx →
      LoopDone (E := E) A hash t
        (ancestorsLoop (ancestryOracle (E := E) A) hash (A.height hash) roots idx changed) := by
  fun_induction ancestorsLoop (ancestryOracle (E := E) A) hash (A.height hash) roots idx changed with
  | case1 roots idx _ hidx root hhash =>
      intro h
      exact ⟨{ h with kept := fun j hj => absurd hj (Nat.not_lt_zero _) }, roots[idx],
        List.getElem?_eq_getElem hidx, hhash⟩
  | case2 roots idx _ hidx root _ e htest =>
      intro h
      rw [dite_eq_ite, descendantTest_eq (h.siblings.wf _ (List.getElem_mem hidx))] at htest
      cases htest
  | case3 roots idx _ hidx root _ htest ih =>
      -- a descendant stays
      intro h
      rw [dite_eq_ite, descendantTest_eq (h.siblings.wf _ (List.getElem_mem hidx))] at htest
      exact ih (h.skip hidx (Except.ok.inj htest))
  | case4 roots idx _ hidx root _ _ e htest =>
      intro h
      rw [dite_eq_ite, ancestorTest_eq (h.siblings.wf _ (List.getElem_mem hidx))] at htest
      cases htest
  | case5 roots idx _ hidx root hhash _ htest ih =>
      intro h
      rw [dite_eq_ite, ancestorTest_eq (h.siblings.wf _ (List.getElem_mem hidx))] at htest
      exact ih (h.open hidx hhash (Except.ok.inj htest))
  | case6 roots idx _ hidx root hhash htest₁ htest₂ ih =>
      intro h
      have hroot := h.siblings.wf _ (List.getElem_mem hidx)
      rw [dite_eq_ite, descendantTest_eq hroot] at htest₁
      rw [dite_eq_ite, ancestorTest_eq hroot] at htest₂
      exact ih (h.remove hidx (hroot.clear_of_incomparable
        ⟨hhash, Except.ok.inj htest₂, Except.ok.inj htest₁⟩))
  | case7 roots idx _ hidx =>
      intro h
      exact { h with kept := fun j hj => h.kept j (lt_of_lt_of_le hj (not_lt.1 hidx)) }

end Loop

section Runs

variable {A : Ancestry H N} {hash : H} {number : N} {t : ForkTree H N V}

omit [LinearOrder N] in
theorem run_finalizeRoot_none (h : ∀ r ∈ t.roots, r.hash ≠ hash) :
    (finalizeRoot hash : TreeCall H N V E (Option V)).run t = .ok none t := by
  unfold finalizeRoot
  rw [run_get_bind, List.findIdx?_eq_none_iff.2 fun r hr => by simpa using h r hr]
  rfl

/-- `finalize_root` of the hash of a root among siblings finalizes that
root. -/
theorem run_finalizeRoot_some (ht : Siblings A t.roots) {x : Node H N V} (hx : x ∈ t.roots)
    (hhash : x.hash = hash) :
    (finalizeRoot hash : TreeCall H N V E (Option V)).run t =
      .ok (some x.data) { t with roots := x.children, bestFinalizedNumber := some x.number } := by
  have hsome : (t.roots.findIdx? fun node => decide (node.hash = hash)).isSome := by
    rw [List.findIdx?_isSome, List.any_eq_true]
    exact ⟨x, hx, by simp [hhash]⟩
  obtain ⟨i, hi⟩ := Option.isSome_iff_exists.1 hsome
  obtain ⟨hlt, hfound, -⟩ := List.findIdx?_eq_some_iff_getElem.1 hi
  have heq : t.roots[i] = x :=
    eq_of_below ht.incomparable (List.getElem_mem hlt) hx (.inl (by simpa using hfound)) (.inl hhash)
  unfold finalizeRoot
  rw [run_get_bind, hi]
  dsimp only
  rw [EStateM.run_map, run_finalizeRootAt (by rw [List.getElem?_eq_getElem hlt, heq])]
  rfl

omit [DecidableEq H] in
theorem run_checkRoots (roots : List (Node H N V)) :
    (checkRoots (ancestryOracle (E := E) A) hash number roots).run t =
      if roots.any (fun r => decide (number > r.number) && A.desc r.hash hash) then
        .error (.error .unfinalizedAncestor) t
      else .ok () t := by
  induction roots with
  | nil => rfl
  | cons r rs ih =>
      by_cases hgt : number > r.number
      · cases hdesc : A.desc r.hash hash
        · simp [checkRoots, hgt, hdesc, ih, run_descends]
        · simp [checkRoots, hgt, hdesc, run_descends]
      · simp [checkRoots, hgt, ih]

omit [DecidableEq H] in
theorem run_finalizeKeep (r : Node H N V) (s : ForkTree H N V) :
    ((if r.number > number then descends (ancestryOracle (E := E) A) hash r.hash
      else pure false) : TreeCall H N V E Bool).run s =
        .ok (decide (r.number > number) && A.desc hash r.hash) s := by
  by_cases hgt : r.number > number <;> simp [hgt, run_descends]

/-- `finalize` of a block that is not a root: `UnfinalizedAncestor` when a
root below the number is an ancestor of it, and otherwise the roots above
the number that descend from it stay. -/
theorem run_finalize_of_not_root (hlt : ∀ b, t.bestFinalizedNumber = some b → b < number)
    (hnone : ∀ r ∈ t.roots, r.hash ≠ hash) :
    (finalize (ancestryOracle (E := E) A) hash number).run t =
      if t.roots.any (fun r => decide (number > r.number) && A.desc r.hash hash) then
        .error (.error .unfinalizedAncestor) t
      else
        .ok (if t.roots.any (fun r => !(decide (r.number > number) && A.desc hash r.hash)) then
            .changed none else .unchanged)
          { t with roots := t.roots.filter fun r => decide (r.number > number) && A.desc hash r.hash,
                   bestFinalizedNumber := some number } := by
  have hcheck : (checkRoots (ancestryOracle (E := E) A) hash number t.roots).run t =
      if t.roots.any (fun r => decide (number > r.number) && A.desc r.hash hash) then
        .error (.error .unfinalizedAncestor) t
      else .ok () t := run_checkRoots t.roots
  unfold finalize
  rw [run_bind_ok (run_checkRevert_of_lt hlt), run_bind_ok (run_finalizeRoot_none hnone)]
  dsimp only
  rw [run_get_bind]
  by_cases hblock : t.roots.any (fun r => decide (number > r.number) && A.desc r.hash hash)
  · rw [if_pos hblock] at hcheck ⊢
    exact run_bind_error hcheck
  · rw [if_neg hblock] at hcheck ⊢
    rw [run_bind_ok hcheck, run_bind_ok (run_retainAndFinalize_of_answers
      (fun r _ s => run_finalizeKeep r s) number)]
    rfl

end Runs

section Finalized

variable (A : Ancestry H N) (hash : H)

/-- What a finalization of a block at its height leaves of the tree: the
nodes strictly below the block, under the same parents as far as those are
below the block too, and the block's height as the best finalized number. -/
def Finalized (t t' : ForkTree H N V) : Prop :=
  t'.links.Perm (linksBelow A hash t.links) ∧ t'.bestFinalizedNumber = some (A.height hash)

variable {A hash} {t : ForkTree H N V}

omit [DecidableEq H] in
/-- The block's node, a root among siblings with the old tree's links below
the block, finalized: its children become the roots. -/
theorem finalized_of_block {roots : List (Node H N V)} (hroots : Siblings A roots)
    (hlinks : (linksBelow A hash (Node.linksAll none roots)).Perm (linksBelow A hash t.links))
    {x : Node H N V} (hx : x ∈ roots) (hhash : x.hash = hash) :
    Finalized A hash t { t with roots := x.children, bestFinalizedNumber := some x.number } := by
  refine ⟨(hroots.linksBelow_of_block hx hhash).symm.trans hlinks, ?_⟩
  show some x.number = some (A.height hash)
  rw [(hroots.wf x hx).number_eq, hhash]

omit [DecidableEq H] in
/-- The data a finalization returns is that of the tree's one node with the
block's hash. -/
theorem changed_data_iff (ht : t.Wf A) {l : List (Node H N V)}
    (hl : ∀ m ∈ l, m ∈ Node.preorderAll t.roots) {x : Node H N V} (hx : x ∈ l)
    (hhash : x.hash = hash) (v : V) :
    FinalizationResult.changed (some x.data) = .changed (some v) ↔
      ∃ m ∈ l, m.hash = hash ∧ m.data = v := by
  constructor
  · intro h
    injection h with h
    exact ⟨x, hx, hhash, Option.some.inj h⟩
  · rintro ⟨m, hm, hmh, rfl⟩
    have hmx : m = x :=
      List.inj_on_of_nodup_map ht.nodup_hashes (hl m hm) (hl x hx) (hmh.trans hhash.symm)
    rw [hmx]

omit [DecidableEq H] in
/-- With the ancestry's answers, a root among well-formed siblings is below the
block's height and an ancestor of the block exactly when it is an ancestor. -/
theorem any_ancestor_iff (ht : t.Wf A) :
    t.roots.any (fun r => decide (A.height hash > r.number) && A.desc r.hash hash) = true ↔
      ∃ r ∈ t.roots, A.desc r.hash hash = true := by
  rw [List.any_eq_true]
  constructor
  · rintro ⟨r, hr, h⟩
    exact ⟨r, hr, (Bool.and_eq_true_iff.1 h).2⟩
  · rintro ⟨r, hr, hdesc⟩
    have hnum : r.number < A.height hash := by
      rw [(ht.wf r hr).number_eq]
      exact A.height_lt hdesc
    exact ⟨r, hr, by simp [hnum, hdesc]⟩

/-- `finalize` of a block at its height, above the best finalized number,
with the ancestry's answers: the block's root is finalized; or a root is an
ancestor of the block and the call fails; or the roots below the block stay. -/
theorem finalize_spec (ht : t.Wf A) (hlt : ∀ b, t.bestFinalizedNumber = some b → b < A.height hash) :
    (∃ x ∈ t.roots, x.hash = hash ∧ ∃ t',
        (finalize (ancestryOracle (E := E) A) hash (A.height hash)).run t =
          .ok (.changed (some x.data)) t' ∧ Finalized A hash t t') ∨
      ((∀ r ∈ t.roots, r.hash ≠ hash) ∧ (∃ r ∈ t.roots, A.desc r.hash hash = true) ∧
        (finalize (ancestryOracle (E := E) A) hash (A.height hash)).run t =
          .error (.error .unfinalizedAncestor) t) ∨
      ((∀ r ∈ t.roots, r.hash ≠ hash) ∧ (∀ r ∈ t.roots, A.desc r.hash hash = false) ∧
        ∃ (changed : Bool) (t' : ForkTree H N V),
          (finalize (ancestryOracle (E := E) A) hash (A.height hash)).run t =
            .ok (if changed then .changed none else .unchanged) t' ∧ Finalized A hash t t') := by
  by_cases hroot : ∃ x ∈ t.roots, x.hash = hash
  · -- the block is a root
    obtain ⟨x, hx, hhash⟩ := hroot
    refine .inl ⟨x, hx, hhash, _, ?_, finalized_of_block ht (.refl _) hx hhash⟩
    unfold finalize
    rw [run_bind_ok (run_checkRevert_of_lt hlt), run_bind_ok (run_finalizeRoot_some ht hx hhash)]
    rfl
  have hnone : ∀ r ∈ t.roots, r.hash ≠ hash := fun r hr hh => hroot ⟨r, hr, hh⟩
  rw [run_finalize_of_not_root hlt hnone]
  by_cases hanc : ∃ r ∈ t.roots, A.desc r.hash hash = true
  · exact .inr (.inl ⟨hnone, hanc, if_pos ((any_ancestor_iff ht).2 hanc)⟩)
  · -- no root is an ancestor: those that descend from the block stay, the
    -- others are incomparable with it
    have hanc' : ∀ r ∈ t.roots, A.desc r.hash hash = false :=
      fun r hr => Bool.eq_false_iff.2 fun hd => hanc ⟨r, hr, hd⟩
    have hkeep : (t.roots.filter fun r => decide (r.number > A.height hash) && A.desc hash r.hash) =
        t.roots.filter fun r => A.desc hash r.hash := by
      refine List.filter_congr fun r hr => ?_
      cases hdesc : A.desc hash r.hash
      · simp
      · have hnum : A.height hash < r.number := by
          rw [(ht.wf r hr).number_eq]
          exact A.height_lt hdesc
        simp [hnum]
    have hroots : ∀ r ∈ t.roots, r.Wf A ∧ (A.desc hash r.hash = true ∨ A.Incomparable r.hash hash) := by
      intro r hr
      refine ⟨ht.wf r hr, ?_⟩
      cases hdesc : A.desc hash r.hash
      · exact .inr ⟨hnone r hr, hanc' r hr, hdesc⟩
      · exact .inl rfl
    rw [if_neg fun h => hanc ((any_ancestor_iff ht).1 h)]
    refine .inr (.inr ⟨hnone, hanc', _, _, rfl, ?_, rfl⟩)
    show (Node.linksAll none _).Perm _
    rw [hkeep, ← linksBelow_roots_filter hroots]
    exact .refl _

/-- `finalize_with_ancestors` of a block at its height, above the best
finalized number, with the ancestry's answers: it returns `Ok`, and finalizes
the block's node when the tree has one. -/
theorem finalizeWithAncestors_spec (ht : t.Wf A)
    (hlt : ∀ b, t.bestFinalizedNumber = some b → b < A.height hash) :
    ∃ result t', (finalizeWithAncestors (ancestryOracle (E := E) A) hash (A.height hash)).run t =
        .ok result t' ∧ Finalized A hash t t' ∧
      ∀ v, result = .changed (some v) ↔
        ∃ m ∈ Node.preorderAll t.roots, m.hash = hash ∧ m.data = v := by
  by_cases hroot : ∃ x ∈ t.roots, x.hash = hash
  · -- the block is a root
    obtain ⟨x, hx, hhash⟩ := hroot
    refine ⟨_, _, ?_, finalized_of_block ht (.refl _) hx hhash,
      changed_data_iff ht (fun _ hm => hm) (Node.mem_preorderAll_of_mem hx) hhash⟩
    unfold finalizeWithAncestors
    rw [run_bind_ok (run_checkRevert_of_lt hlt), run_bind_ok (run_finalizeRoot_some ht hx hhash)]
    rfl
  have hnone : ∀ r ∈ t.roots, r.hash ≠ hash := fun r hr hh => hroot ⟨r, hr, hh⟩
  have hloop : LoopDone (E := E) A hash t
      (ancestorsLoop (ancestryOracle (E := E) A) hash (A.height hash) t.roots 0 false) :=
    ancestorsLoop_spec t.roots 0 false (LoopInv.start ht)
  unfold finalizeWithAncestors
  rw [run_bind_ok (run_checkRevert_of_lt hlt), run_bind_ok (run_finalizeRoot_none hnone)]
  dsimp only
  rw [run_get_bind]
  generalize ancestorsLoop (ancestryOracle A) hash (A.height hash) t.roots 0 false = res at hloop ⊢
  obtain ⟨loopEnd, roots⟩ := res
  rcases loopEnd with i | changed | e
  · -- the loop made the block's node a root, and it is finalized
    obtain ⟨hinv, x, hx, hhash⟩ := hloop
    have hmem : x ∈ roots := List.mem_of_getElem? hx
    refine ⟨_, _, ?_, finalized_of_block hinv.siblings hinv.links hmem hhash,
      changed_data_iff ht (fun _ hm => hm) (hinv.subset x (Node.mem_preorderAll_of_mem hmem)) hhash⟩
    rw [run_set_bind]
    exact run_bind_ok (run_finalizeRootAt hx)
  · -- the loop went through: every root left is strictly below the block
    have hdesc : ∀ y ∈ roots, y.Wf A ∧ A.desc hash y.hash = true := by
      intro y hy
      obtain ⟨j, hj, rfl⟩ := List.mem_iff_getElem.1 hy
      exact ⟨hloop.siblings.wf _ hy, hloop.kept j hj _ (List.getElem?_eq_getElem hj)⟩
    refine ⟨_, _, rfl, ⟨?_, rfl⟩, fun v => iff_of_false (by cases changed <;> simp) ?_⟩
    · show (Node.linksAll none roots).Perm _
      rw [← linksBelow_roots_of_desc hdesc]
      exact hloop.links
    · -- the block's node would have stayed, under a root strictly below it
      rintro ⟨m, hm, hmh, -⟩
      obtain ⟨m', hm', hm'h⟩ := List.mem_map.1 (hloop.block (List.mem_map.2 ⟨m, hm, hmh⟩))
      obtain ⟨y, hy, hm'y⟩ := Node.mem_preorderAll.1 hm'
      have hbelow := ((hdesc y hy).1.of_mem_preorder hm'y).2
      have hself := Ancestry.desc_of_desc_of_below (hdesc y hy).2 hbelow
      rw [hm'h, Ancestry.desc_irrefl] at hself
      cases hself
  · exact hloop.elim

end Finalized

variable {A : Ancestry H N}

/-- `finalize` and `finalize_with_ancestors` of a block at its height, above
the best finalized number, over a well-formed tree, with a client that
answers from the ancestry. `finalize` fails with `UnfinalizedAncestor`
exactly when the block is not a root and a root is an ancestor of it, and
returns `Ok` otherwise; `finalize_with_ancestors` always returns `Ok`. When
they return `Ok`, the tree keeps exactly the nodes strictly below the block,
each under its old parent when that is below the block too and as a root
otherwise, the block's height is the best finalized number, and the result
is `Changed(Some(v))` exactly when the block is a root (for
`finalize_with_ancestors`: a node) with data `v`. -/
theorem finalize_keeps_descendants {t : ForkTree H N V} (ht : t.Wf A) (hash : H)
    (hlt : ∀ best, t.bestFinalizedNumber = some best → best < A.height hash) :
    ((finalize (ancestryOracle (E := E) A) hash (A.height hash)).run t =
        .error (.error .unfinalizedAncestor) t ↔
      (∀ r ∈ t.roots, r.hash ≠ hash) ∧ ∃ r ∈ t.roots, A.desc r.hash hash = true) ∧
    ((∃ result t', (finalize (ancestryOracle (E := E) A) hash (A.height hash)).run t =
        .ok result t') ↔
      ¬ ((∀ r ∈ t.roots, r.hash ≠ hash) ∧ ∃ r ∈ t.roots, A.desc r.hash hash = true)) ∧
    (∀ result t', (finalize (ancestryOracle (E := E) A) hash (A.height hash)).run t =
        .ok result t' →
      Finalized A hash t t' ∧ ∀ v, result = .changed (some v) ↔
        ∃ r ∈ t.roots, r.hash = hash ∧ r.data = v) ∧
    ∃ result t', (finalizeWithAncestors (ancestryOracle (E := E) A) hash (A.height hash)).run t =
        .ok result t' ∧ Finalized A hash t t' ∧
      ∀ v, result = .changed (some v) ↔
        ∃ m ∈ Node.preorderAll t.roots, m.hash = hash ∧ m.data = v := by
  have hancestors := finalizeWithAncestors_spec (E := E) ht hlt
  rcases finalize_spec (E := E) ht hlt with
    ⟨x, hx, hhash, t₁, hrun, hfin⟩ | ⟨hnone, hanc, hrun⟩ | ⟨hnone, hanc, changed, t₁, hrun, hfin⟩
  · -- the block is a root
    have hroot : ¬ ∀ r ∈ t.roots, r.hash ≠ hash := fun h => h x hx hhash
    rw [hrun]
    refine ⟨iff_of_false (by simp) (fun h => hroot h.1), iff_of_true ⟨_, _, rfl⟩ (fun h => hroot h.1),
      fun result t' h => ?_, hancestors⟩
    obtain ⟨rfl, rfl⟩ := EStateM.Result.ok.inj h
    exact ⟨hfin, changed_data_iff ht (fun _ hm => Node.mem_preorderAll_of_mem hm) hx hhash⟩
  · -- `UnfinalizedAncestor`
    rw [hrun]
    refine ⟨iff_of_true rfl ⟨hnone, hanc⟩, iff_of_false ?_ (fun h => h ⟨hnone, hanc⟩), ?_, hancestors⟩
    · rintro ⟨_, _, h⟩
      cases h
    · intro _ _ h
      cases h
  · -- the roots below the block stay
    have hnoanc : ¬ ∃ r ∈ t.roots, A.desc r.hash hash = true := by
      rintro ⟨r, hr, hd⟩
      rw [hanc r hr] at hd
      cases hd
    rw [hrun]
    refine ⟨iff_of_false (by simp) (fun h => hnoanc h.2), iff_of_true ⟨_, _, rfl⟩ (fun h => hnoanc h.2),
      fun result t' h => ?_, hancestors⟩
    obtain ⟨rfl, rfl⟩ := EStateM.Result.ok.inj h
    refine ⟨hfin, fun v => iff_of_false (by cases changed <;> simp) ?_⟩
    rintro ⟨r, hr, hh, -⟩
    exact hnone r hr hh

/-- The finalization of block `1` of the chain `0, 1`, which is not a root. -/
theorem finalize_keeps_descendants_chain :
    chainTree.Wf chainAncestry ∧
    (∀ best, chainTree.bestFinalizedNumber = some best → best < chainAncestry.height 1) ∧
    (((finalize (ancestryOracle (E := Unit) chainAncestry) 1 (chainAncestry.height 1)).run chainTree =
        .error (.error .unfinalizedAncestor) chainTree ↔
      (∀ r ∈ chainTree.roots, r.hash ≠ 1) ∧ ∃ r ∈ chainTree.roots, chainAncestry.desc r.hash 1 = true) ∧
    ((∃ result t', (finalize (ancestryOracle (E := Unit) chainAncestry) 1
        (chainAncestry.height 1)).run chainTree = .ok result t') ↔
      ¬ ((∀ r ∈ chainTree.roots, r.hash ≠ 1) ∧
        ∃ r ∈ chainTree.roots, chainAncestry.desc r.hash 1 = true)) ∧
    (∀ result t', (finalize (ancestryOracle (E := Unit) chainAncestry) 1
        (chainAncestry.height 1)).run chainTree = .ok result t' →
      Finalized chainAncestry 1 chainTree t' ∧ ∀ v, result = .changed (some v) ↔
        ∃ r ∈ chainTree.roots, r.hash = 1 ∧ r.data = v) ∧
    ∃ result t', (finalizeWithAncestors (ancestryOracle (E := Unit) chainAncestry) 1
        (chainAncestry.height 1)).run chainTree = .ok result t' ∧
      Finalized chainAncestry 1 chainTree t' ∧
      ∀ v, result = .changed (some v) ↔
        ∃ m ∈ Node.preorderAll chainTree.roots, m.hash = 1 ∧ m.data = v) := by
  have hlt : ∀ best, chainTree.bestFinalizedNumber = some best → best < chainAncestry.height 1 := by
    simp [chainTree]
  exact ⟨chainTree_wf, hlt, finalize_keeps_descendants chainTree_wf 1 hlt⟩

/-- `finalize` of the root of the chain `0, 1` at number `5`, not the root's
height: the root is finalized, and the best finalized number becomes the
root's number `0`, not `5`. -/
theorem finalize_root_keeps_its_number :
    chainTree.Wf chainAncestry ∧ chainTree.bestFinalizedNumber = none ∧
      (finalize (ancestryOracle (E := Unit) chainAncestry) 0 5).run chainTree =
        .ok (.changed (some ())) ⟨[⟨1, 1, (), []⟩], some 0⟩ :=
  ⟨chainTree_wf, rfl, rfl⟩

end SocialNetwork.Fork
