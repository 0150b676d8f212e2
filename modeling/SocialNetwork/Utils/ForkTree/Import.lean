import SocialNetwork.Utils.ForkTree.Links
import SocialNetwork.Utils.ForkTree.Agreement

/-!
# Where `import` puts a block

`ForkTree::import` walks the roots and, in each node it enters, the children,
for the deepest node the block descends from, and adds the block under it,
or as a new root when no node is its ancestor. It enters a node only when
the block's number is above the node's, and looks for the block itself only
in the nodes it enters.

For a block at its height, with a client that answers from the ancestry, the
nodes it skips hold neither the block nor an ancestor of it, so the walk is
exact (`Node.import_spec`): `import` fails with `Duplicate` exactly when the
block is in the tree, and otherwise adds one link, under the deepest
ancestor or as a root (`import_places_block`). With a number below the
block's height the walk skips the node that holds the block: in the chain
`0, 1`, block `1` imported at number `0` becomes a second root
(`import_duplicates_below_height`).
-/

namespace SocialNetwork.Fork

open Dispatch

variable {H N V E : Type} [DecidableEq H] [LinearOrder N]

section Outcome

variable (A : Ancestry H N) (hash : H) (data : V)

def DeepestAncestor (nodes : List (Node H N V)) (p : Node H N V) : Prop :=
  p ∈ nodes ∧ A.desc p.hash hash = true ∧
    ∀ m ∈ nodes, A.desc m.hash hash = true → A.Below m.hash p.hash

/-- What importing the block at its height into some nodes returns, with
their links before and after: `Duplicate` when the block is among them; the
block taken as a new leaf under its deepest ancestor among them; or nothing
taken when none of them is its ancestor. -/
def Imported (nodes : List (Node H N V)) (before after : List (Option H × H × N × V)) :
    Except (Error E) Bool → Prop
  | .error .duplicate => hash ∈ nodes.map Node.hash
  | .ok true => hash ∉ nodes.map Node.hash ∧ ∃ p, DeepestAncestor A hash nodes p ∧
      after.Perm ((some p.hash, hash, A.height hash, data) :: before)
  | .ok false => hash ∉ nodes.map Node.hash ∧ ∀ m ∈ nodes, A.desc m.hash hash = false
  | .error _ => False

end Outcome

section Deepest

variable {A : Ancestry H N} {hash : H} {l l' : List (Node H N V)} {p : Node H N V}

omit [DecidableEq H] in
theorem DeepestAncestor.append_right (hp : DeepestAncestor A hash l p)
    (hl' : ∀ m ∈ l', A.desc m.hash hash = false) : DeepestAncestor A hash (l ++ l') p := by
  obtain ⟨hmem, hdesc, hbelow⟩ := hp
  refine ⟨List.mem_append_left _ hmem, hdesc, fun m hm hm' => ?_⟩
  rcases List.mem_append.1 hm with hm | hm
  · exact hbelow m hm hm'
  · rw [hl' m hm] at hm'
    cases hm'

omit [DecidableEq H] in
theorem DeepestAncestor.append_left (hl : ∀ m ∈ l, A.desc m.hash hash = false)
    (hp : DeepestAncestor A hash l' p) : DeepestAncestor A hash (l ++ l') p := by
  obtain ⟨hmem, hdesc, hbelow⟩ := hp
  refine ⟨List.mem_append_right _ hmem, hdesc, fun m hm hm' => ?_⟩
  rcases List.mem_append.1 hm with hm | hm
  · rw [hl m hm] at hm'
    cases hm'
  · exact hbelow m hm hm'

omit [DecidableEq H] in
/-- A node above the deepest ancestor among its descendants leaves it the
deepest. -/
theorem DeepestAncestor.cons {x : Node H N V} (hp : DeepestAncestor A hash l p)
    (hx : A.Below x.hash p.hash) : DeepestAncestor A hash (x :: l) p := by
  obtain ⟨hmem, hdesc, hbelow⟩ := hp
  refine ⟨List.mem_cons_of_mem _ hmem, hdesc, fun m hm hm' => ?_⟩
  rcases List.mem_cons.1 hm with rfl | hm
  · exact hx
  · exact hbelow m hm hm'

omit [DecidableEq H] in
theorem deepestAncestor_self {x : Node H N V} (hdesc : A.desc x.hash hash = true)
    (hl : ∀ m ∈ l, A.desc m.hash hash = false) : DeepestAncestor A hash (x :: l) x := by
  refine ⟨List.mem_cons_self, hdesc, fun m hm hm' => ?_⟩
  rcases List.mem_cons.1 hm with rfl | hm
  · exact Ancestry.below_refl _
  · rw [hl m hm] at hm'
    cases hm'

end Deepest

section Skipped

variable {A : Ancestry H N} {hash : H}

omit [DecidableEq H] in
/-- A node at or above the block's height, other than the block, holds
neither the block nor an ancestor of it. -/
theorem Node.Wf.clear_of_le {x : Node H N V} (hx : x.Wf A) (hh : x.hash ≠ hash)
    (hn : A.height hash ≤ x.number) :
    hash ∉ x.preorder.map Node.hash ∧ ∀ m ∈ x.preorder, A.desc m.hash hash = false := by
  rw [hx.number_eq] at hn
  refine ⟨fun hmem => ?_, fun m hm => Bool.eq_false_iff.2 fun hdesc => ?_⟩
  · obtain ⟨m, hm, rfl⟩ := List.mem_map.1 hmem
    rcases (hx.of_mem_preorder hm).2 with heq | hdesc
    · exact hh heq
    · exact absurd hn (not_le.2 (A.height_lt hdesc))
  · have hle : A.height x.hash ≤ A.height m.hash := (hx.of_mem_preorder hm).2.height_le
    exact absurd (hn.trans hle) (not_le.2 (A.height_lt hdesc))

omit [DecidableEq H] in
/-- The siblings after one on the block's way to the root hold neither the
block nor an ancestor of it. -/
theorem Siblings.clear_of_below {c : Node H N V} {cs : List (Node H N V)}
    (h : Siblings A (c :: cs)) (hbelow : A.Below c.hash hash) :
    hash ∉ (Node.preorderAll cs).map Node.hash ∧
      ∀ m ∈ Node.preorderAll cs, A.desc m.hash hash = false := by
  have hclear : ∀ m ∈ Node.preorderAll cs, ∃ y ∈ cs, y.Wf A ∧ m ∈ y.preorder ∧
      A.Incomparable c.hash y.hash := by
    intro m hm
    obtain ⟨y, hy, hmy⟩ := Node.mem_preorderAll.1 hm
    exact ⟨y, hy, h.wf y (List.mem_cons_of_mem _ hy), hmy,
      (List.pairwise_cons.1 h.incomparable).1 y hy⟩
  refine ⟨fun hmem => ?_, fun m hm => ?_⟩
  · obtain ⟨m, hm, hhash⟩ := List.mem_map.1 hmem
    obtain ⟨y, -, hy, hmy, hinc⟩ := hclear m hm
    have hy' : A.Below y.hash hash := hhash ▸ (hy.of_mem_preorder hmy).2
    exact hinc.not_below_both hbelow hy'
  · obtain ⟨y, -, hy, hmy, hinc⟩ := hclear m hm
    exact hy.not_desc_of_incomparable hmy hinc hbelow

end Skipped

section Spec

variable {A : Ancestry H N} (hash : H) (data : V)

omit [DecidableEq H] [LinearOrder N] in
theorem not_mem_hashes_append {l l' : List (Node H N V)} (h : hash ∉ l.map Node.hash)
    (h' : hash ∉ l'.map Node.hash) : hash ∉ (l ++ l').map Node.hash := by
  rw [List.map_append, List.mem_append, not_or]
  exact ⟨h, h'⟩

mutual
/-- `Node::import` of a block at its height into a well-formed node, with the
ancestry's answers. -/
theorem Node.import_spec : ∀ (x : Node H N V), x.Wf A → ∀ parent : Option H,
    Imported A hash data x.preorder (x.links parent)
      ((x.import (ancestryOracle (E := E) A) hash (A.height hash) data).2.links parent)
      (x.import (ancestryOracle (E := E) A) hash (A.height hash) data).1
  | ⟨h, n, d, children⟩, hx, parent => by
      unfold Node.import
      split_ifs with hh hn
      · -- the node is the block
        exact List.mem_map.2 ⟨_, Node.mem_preorder_self _, hh⟩
      · -- the block is no higher than the node: the branch is skipped
        exact hx.clear_of_le hh hn
      · have hsame := Node.importChildren_of_not_taken (ancestryOracle (E := E) A) hash
          (A.height hash) data children
        have hspec := importChildren_spec children hx.siblings (some h)
        generalize Node.importChildren (ancestryOracle A) hash (A.height hash) data children = res
          at hsame hspec ⊢
        obtain ⟨r, cs'⟩ := res
        rw [Node.preorder_eq, Node.links_eq]
        rcases r with e | _ | _
        · -- `Duplicate` from below; the oracle raises no other error
          cases e with
          | duplicate => exact List.mem_cons_of_mem _ hspec
          | _ => exact hspec.elim
        · -- no child took it: the node does, if it is an ancestor of the block
          have hcs : cs' = children := hsame (by simp)
          subst hcs
          obtain ⟨hnotmem, hclear⟩ := hspec
          have hnotmem' : hash ∉ (Node.mk h n d cs' :: Node.preorderAll cs').map Node.hash := by
            rw [List.map_cons, List.mem_cons, not_or]
            exact ⟨Ne.symm hh, hnotmem⟩
          cases hdesc : A.desc h hash
          · simp only [ancestryOracle, hdesc]
            refine ⟨hnotmem', fun m hm => ?_⟩
            rcases List.mem_cons.1 hm with rfl | hm
            · exact hdesc
            · exact hclear m hm
          · simp only [ancestryOracle, hdesc]
            refine ⟨hnotmem', _, deepestAncestor_self hdesc hclear, ?_⟩
            -- the new leaf is the last child
            rw [Node.links_eq, Node.linksAll_append]
            exact ((List.perm_append_singleton _ _).cons _).trans (List.Perm.swap _ _ _)
        · -- a child took it, under the node
          obtain ⟨hnotmem, p, hp, hperm⟩ := hspec
          have hbelow : A.Below h p.hash :=
            (hx.of_mem_preorder (by rw [Node.preorder_eq]; exact List.mem_cons_of_mem _ hp.1)).2
          refine ⟨?_, p, hp.cons hbelow, ?_⟩
          · rw [List.map_cons, List.mem_cons, not_or]
            exact ⟨Ne.symm hh, hnotmem⟩
          · rw [Node.links_eq]
            exact (hperm.cons _).trans (List.Perm.swap _ _ _)
termination_by structural x => x

theorem importChildren_spec : ∀ (cs : List (Node H N V)), Siblings A cs → ∀ parent : Option H,
    Imported A hash data (Node.preorderAll cs) (Node.linksAll parent cs)
      (Node.linksAll parent
        (Node.importChildren (ancestryOracle (E := E) A) hash (A.height hash) data cs).2)
      (Node.importChildren (ancestryOracle (E := E) A) hash (A.height hash) data cs).1
  | [], _, _ => ⟨by simp, by simp⟩
  | c :: cs, hcs, parent => by
      have hc := hcs.wf c List.mem_cons_self
      have hrest : Siblings A cs := hcs.sublist (List.sublist_cons_self c cs)
      have hsame := Node.import_of_not_taken (ancestryOracle (E := E) A) hash (A.height hash) data c
      have hspec := Node.import_spec c hc parent
      unfold Node.importChildren
      generalize c.import (ancestryOracle A) hash (A.height hash) data = res at hsame hspec ⊢
      obtain ⟨r, c'⟩ := res
      rw [Node.preorderAll_cons]
      rcases r with e | _ | _
      · -- `Duplicate` under the first child
        cases e with
        | duplicate =>
            show hash ∈ (c.preorder ++ Node.preorderAll cs).map Node.hash
            rw [List.map_append]
            exact List.mem_append_left _ hspec
        | _ => exact hspec.elim
      · -- the first child did not take it: the rest decide
        have hc' : c' = c := hsame (by simp)
        subst c'
        obtain ⟨hnotmem, hclear⟩ := hspec
        have hspec' := importChildren_spec cs hrest parent
        generalize Node.importChildren (ancestryOracle A) hash (A.height hash) data cs = res'
          at hspec' ⊢
        obtain ⟨r', cs'⟩ := res'
        rcases r' with e | _ | _
        · cases e with
          | duplicate =>
              show hash ∈ (c.preorder ++ Node.preorderAll cs).map Node.hash
              rw [List.map_append]
              exact List.mem_append_right _ hspec'
          | _ => exact hspec'.elim
        · obtain ⟨hnotmem', hclear'⟩ := hspec'
          refine ⟨not_mem_hashes_append hash hnotmem hnotmem', fun m hm => ?_⟩
          rcases List.mem_append.1 hm with hm | hm
          · exact hclear m hm
          · exact hclear' m hm
        · obtain ⟨hnotmem', p, hp, hperm⟩ := hspec'
          refine ⟨not_mem_hashes_append hash hnotmem hnotmem', p, hp.append_left hclear, ?_⟩
          rw [Node.linksAll_cons, Node.linksAll_cons]
          exact (hperm.append_left _).trans List.perm_middle
      · -- the first child took it: the block is below it, and not below the rest
        obtain ⟨hnotmem, p, hp, hperm⟩ := hspec
        have hbelow : A.Below c.hash hash :=
          (hc.of_mem_preorder hp.1).2.trans (Ancestry.below_of_desc hp.2.1)
        obtain ⟨hnotmem', hclear'⟩ := hcs.clear_of_below hbelow
        refine ⟨not_mem_hashes_append hash hnotmem hnotmem', p, hp.append_right hclear', ?_⟩
        rw [Node.linksAll_cons, Node.linksAll_cons]
        exact hperm.append_right _
termination_by structural cs => cs
end

end Spec

section Run

variable (isDescendentOf : H → H → Except E Bool) (hash : H) (number : N) (data : V)
  {t : ForkTree H N V}

/-- `ForkTree::import` at or below the best finalized number fails with
`Revert` before it reads anything else. -/
theorem run_import_of_le {best : N} (hbest : t.bestFinalizedNumber = some best)
    (hle : number ≤ best) :
    (ForkTree.import isDescendentOf hash number data).run t = .error (.error .revert) t := by
  unfold ForkTree.import
  exact run_bind_error (by simp [checkRevert, hbest, hle])

/-- `ForkTree::import` above the best finalized number: the loop over the
roots, a new root when none took the block, then `rebalance`. -/
theorem run_import_of_lt (h : ∀ b, t.bestFinalizedNumber = some b → b < number) :
    (ForkTree.import isDescendentOf hash number data).run t =
      match Node.importChildren isDescendentOf hash number data t.roots with
      | (.error e, roots) => .error (.error e) { t with roots }
      | (.ok true, roots) => .ok false { t with roots := (byDepth roots).map Node.rebalance }
      | (.ok false, roots) => .ok true
          { t with roots := (byDepth (roots ++ [⟨hash, number, data, []⟩])).map Node.rebalance } := by
  unfold ForkTree.import
  rw [run_bind_ok (run_checkRevert_of_lt h), run_get_bind, importRoots_eq_importChildren]
  rcases Node.importChildren isDescendentOf hash number data t.roots with ⟨_ | _ | _, roots⟩ <;> rfl

end Run

section Placement

variable (A : Ancestry H N) (hash : H) (data : V)

/-- What `import` of a block at its height promises when it returns
`Ok(is_root)`: the best finalized number is kept, and the tree gains one
link, for the block under its deepest ancestor, or as a root, and then
`is_root`, when no node is its ancestor. -/
def Placed (t : ForkTree H N V) (isRoot : Bool) (t' : ForkTree H N V) : Prop :=
  t'.bestFinalizedNumber = t.bestFinalizedNumber ∧
    ∃ parent : Option (Node H N V), (isRoot = true ↔ parent = none) ∧
      (parent = none ↔ ∀ m ∈ Node.preorderAll t.roots, A.desc m.hash hash = false) ∧
      (∀ p, parent = some p → DeepestAncestor A hash (Node.preorderAll t.roots) p) ∧
      t'.links.Perm ((parent.map Node.hash, hash, A.height hash, data) :: t.links)

variable {A hash data}

variable (hash data) in
/-- Above the best finalized number, with the ancestry's answers, `import`
fails with `Duplicate` when the block is in the tree, and otherwise places
it. -/
theorem run_import_spec {t : ForkTree H N V} (ht : t.Wf A)
    (hlt : ∀ b, t.bestFinalizedNumber = some b → b < A.height hash) :
    (hash ∈ (Node.preorderAll t.roots).map Node.hash ∧
        (ForkTree.import (ancestryOracle (E := E) A) hash (A.height hash) data).run t =
          .error (.error .duplicate) t) ∨
      (hash ∉ (Node.preorderAll t.roots).map Node.hash ∧ ∃ isRoot t',
        (ForkTree.import (ancestryOracle (E := E) A) hash (A.height hash) data).run t =
          .ok isRoot t' ∧ Placed A hash data t isRoot t') := by
  rw [run_import_of_lt _ _ _ _ hlt]
  have hspec := importChildren_spec (E := E) hash data t.roots ht none
  have hsame := Node.importChildren_of_not_taken (ancestryOracle (E := E) A) hash
    (A.height hash) data t.roots
  generalize Node.importChildren (ancestryOracle A) hash (A.height hash) data t.roots = res
    at hspec hsame ⊢
  obtain ⟨r, roots⟩ := res
  rcases r with e | _ | _
  · -- `Duplicate`, with the roots as they were
    cases e with
    | duplicate =>
        have hroots : roots = t.roots := hsame (by simp)
        subst hroots
        exact .inl ⟨hspec, rfl⟩
    | _ => exact hspec.elim
  · -- no root took it: a new root
    have hroots : roots = t.roots := hsame (by simp)
    subst hroots
    obtain ⟨hnotmem, hclear⟩ := hspec
    refine .inr ⟨hnotmem, true, _, rfl, ?_⟩
    refine ⟨rfl, none, iff_of_true rfl rfl, iff_of_true rfl hclear, fun p hp => ?_, ?_⟩
    · cases hp
    · refine (Node.linksAll_byDepth_rebalance none _).trans ?_
      rw [Node.linksAll_append]
      exact List.perm_append_singleton _ _
  · -- a root took it, under the deepest ancestor
    obtain ⟨hnotmem, p, hp, hperm⟩ := hspec
    have hancestor : ¬ ∀ m ∈ Node.preorderAll t.roots, A.desc m.hash hash = false := by
      intro hclear
      have hdesc := hp.2.1
      rw [hclear p hp.1] at hdesc
      cases hdesc
    refine .inr ⟨hnotmem, false, _, rfl, rfl, some p, by simp, iff_of_false (by simp) hancestor,
      fun p' hp' => Option.some_inj.1 hp' ▸ hp, ?_⟩
    exact (Node.linksAll_byDepth_rebalance none _).trans hperm

end Placement

variable {A : Ancestry H N}

/-- `ForkTree::import` of a block at its height, into a well-formed tree,
with a client that answers from the ancestry: it fails with `Revert` exactly
when the height is at or below the best finalized number; otherwise with
`Duplicate` exactly when the block is in the tree; it returns `Ok` in every
other case; and then it adds one node for the block, under the deepest node
it descends from, or as a new root, with `is_root`, when none is its
ancestor. -/
theorem import_places_block {t : ForkTree H N V} (ht : t.Wf A) (hash : H) (data : V) :
    ((ForkTree.import (ancestryOracle (E := E) A) hash (A.height hash) data).run t =
        .error (.error .revert) t ↔
      ∃ best, t.bestFinalizedNumber = some best ∧ A.height hash ≤ best) ∧
    ((ForkTree.import (ancestryOracle (E := E) A) hash (A.height hash) data).run t =
        .error (.error .duplicate) t ↔
      (∀ best, t.bestFinalizedNumber = some best → best < A.height hash) ∧
        hash ∈ (Node.preorderAll t.roots).map Node.hash) ∧
    ((∃ isRoot t', (ForkTree.import (ancestryOracle (E := E) A) hash (A.height hash) data).run t =
        .ok isRoot t') ↔
      (∀ best, t.bestFinalizedNumber = some best → best < A.height hash) ∧
        hash ∉ (Node.preorderAll t.roots).map Node.hash) ∧
    ∀ isRoot t', (ForkTree.import (ancestryOracle (E := E) A) hash (A.height hash) data).run t =
        .ok isRoot t' → Placed A hash data t isRoot t' := by
  by_cases hrev : ∃ best, t.bestFinalizedNumber = some best ∧ A.height hash ≤ best
  · -- `Revert`, before anything else
    obtain ⟨best, hbest, hle⟩ := hrev
    have hrun := run_import_of_le (ancestryOracle (E := E) A) hash (A.height hash) data hbest hle
    have hnotlt : ¬ ∀ b, t.bestFinalizedNumber = some b → b < A.height hash :=
      fun hlt => absurd (hlt best hbest) (not_lt.2 hle)
    rw [hrun]
    refine ⟨iff_of_true rfl ⟨best, hbest, hle⟩, iff_of_false (by simp) (fun h => hnotlt h.1),
      iff_of_false (by simp) (fun h => hnotlt h.1), fun _ _ h => nomatch h⟩
  · have hlt : ∀ b, t.bestFinalizedNumber = some b → b < A.height hash :=
      fun b hb => not_le.1 fun hle => hrev ⟨b, hb, hle⟩
    rcases run_import_spec (E := E) hash data ht hlt with ⟨hmem, hrun⟩ | ⟨hnotmem, isRoot, t', hrun, hplaced⟩
    · -- `Duplicate`
      rw [hrun]
      refine ⟨iff_of_false (by simp) hrev, iff_of_true rfl ⟨hlt, hmem⟩,
        iff_of_false (by simp) (fun h => h.2 hmem), fun _ _ h => nomatch h⟩
    · -- placed
      rw [hrun]
      refine ⟨iff_of_false (by simp) hrev, iff_of_false (by simp) (fun h => hnotmem h.2),
        iff_of_true ⟨_, _, rfl⟩ ⟨hlt, hnotmem⟩, fun isRoot' t'' h => ?_⟩
      obtain ⟨rfl, rfl⟩ := EStateM.Result.ok.inj h
      exact hplaced

/-- The placement of block `2` in the chain `0, 1`. -/
theorem import_places_block_chain :
    chainTree.Wf chainAncestry ∧
    ((ForkTree.import (ancestryOracle (E := Unit) chainAncestry) 2 (chainAncestry.height 2) ()).run
        chainTree = .error (.error .revert) chainTree ↔
      ∃ best, chainTree.bestFinalizedNumber = some best ∧ chainAncestry.height 2 ≤ best) ∧
    ((ForkTree.import (ancestryOracle (E := Unit) chainAncestry) 2 (chainAncestry.height 2) ()).run
        chainTree = .error (.error .duplicate) chainTree ↔
      (∀ best, chainTree.bestFinalizedNumber = some best → best < chainAncestry.height 2) ∧
        2 ∈ (Node.preorderAll chainTree.roots).map Node.hash) ∧
    ((∃ isRoot t', (ForkTree.import (ancestryOracle (E := Unit) chainAncestry) 2
        (chainAncestry.height 2) ()).run chainTree = .ok isRoot t') ↔
      (∀ best, chainTree.bestFinalizedNumber = some best → best < chainAncestry.height 2) ∧
        2 ∉ (Node.preorderAll chainTree.roots).map Node.hash) ∧
    ∀ isRoot t', (ForkTree.import (ancestryOracle (E := Unit) chainAncestry) 2
        (chainAncestry.height 2) ()).run chainTree = .ok isRoot t' →
      Placed chainAncestry 2 () chainTree isRoot t' :=
  ⟨chainTree_wf, import_places_block chainTree_wf 2 ()⟩

/-- In the chain `0, 1`, block `1` imported again at number `0`, below its
height, is not found: the root is skipped, and the block becomes a second
root with the same hash. -/
theorem import_duplicates_below_height :
    chainTree.Wf chainAncestry ∧ 1 ∈ (Node.preorderAll chainTree.roots).map Node.hash ∧
      (ForkTree.import (ancestryOracle (E := Unit) chainAncestry) 1 0 ()).run chainTree =
        .ok true ⟨[⟨0, 0, (), [⟨1, 1, (), []⟩]⟩, ⟨1, 0, (), []⟩], none⟩ := by
  have hsorted : ([⟨0, 0, (), [⟨1, 1, (), []⟩]⟩, ⟨1, 0, (), []⟩] : List (Node ℕ ℕ Unit)).mergeSort
      (fun a b => decide (b.maxDepth ≤ a.maxDepth)) = [⟨0, 0, (), [⟨1, 1, (), []⟩]⟩, ⟨1, 0, (), []⟩] :=
    List.mergeSort_of_pairwise (by decide)
  refine ⟨chainTree_wf, by decide, ?_⟩
  simp [ForkTree.import, checkRevert, importRoots, Node.import, rebalance, byDepth, hsorted,
    Node.rebalance_eq, chainTree]

end SocialNetwork.Fork
