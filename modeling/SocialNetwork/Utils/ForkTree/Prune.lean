import SocialNetwork.Utils.ForkTree.Links
import SocialNetwork.Utils.ForkTree.Agreement

/-!
# What `prune` keeps and what it returns

`ForkTree::prune` searches for the deepest node the block descends from,
takes it out of its parent's children with `Vec::remove`, and makes it the
only root. Of its children it keeps the first that is the block at `number`,
or an ancestor of the block below `number`; the other children and the rest
of the old forest go to `RemovedIterator`, which yields every node of them.

No node is lost or duplicated: the `(hash, number, data)` of the nodes before
are those after together with what is returned (`nodeItems`, compared up to
order). The forest left by `removeAt` keeps the items of every node but the
one taken out (`removeAt_of_walk`), and `rebalance` keeps them all
(`nodeItems_rebalance`). For a block at its height, with a client that
answers from the ancestry, the new root keeps exactly its child on the block's
branch (`prune_conserves_nodes`); at another number it may drop it
(`prune_drops_block_at_other_number`).
-/

namespace SocialNetwork.Fork

open Dispatch

variable {H N V E : Type}

/-! ## The items of a forest -/

section Items

def nodeItems (nodes : List (Node H N V)) : List (H × N × V) :=
  (Node.preorderAll nodes).map fun n => (n.hash, n.number, n.data)

@[simp] theorem nodeItems_nil : nodeItems ([] : List (Node H N V)) = [] := rfl

@[simp] theorem nodeItems_append (l l' : List (Node H N V)) :
    nodeItems (l ++ l') = nodeItems l ++ nodeItems l' := by
  simp [nodeItems, Node.preorderAll_append]

/-- A node's item comes first, then those of its children, then those of its
siblings. -/
theorem nodeItems_cons (x : Node H N V) (l : List (Node H N V)) :
    nodeItems (x :: l) = (x.hash, x.number, x.data) :: nodeItems (x.children ++ l) := by
  simp [nodeItems, Node.preorder_eq, Node.preorderAll_append]

theorem nodeItems_singleton (x : Node H N V) :
    nodeItems [x] = (x.hash, x.number, x.data) :: nodeItems x.children := by
  rw [nodeItems_cons, List.append_nil]

theorem removedItems_eq_nodeItems (stack : List (Node H N V)) :
    removedItems stack = nodeItems stack.reverse := rfl

theorem Node.preorderAll_perm {l l' : List (Node H N V)} (h : l.Perm l') :
    (Node.preorderAll l).Perm (Node.preorderAll l') := by
  induction h with
  | nil => exact .nil
  | cons c _ ih => exact ih.append_left _
  | swap c c' l =>
      simp only [Node.preorderAll_cons, ← List.append_assoc]
      exact List.perm_append_comm.append_right _
  | trans _ _ ih₁ ih₂ => exact ih₁.trans ih₂

theorem nodeItems_perm {l l' : List (Node H N V)} (h : l.Perm l') :
    (nodeItems l).Perm (nodeItems l') :=
  (Node.preorderAll_perm h).map _

mutual
theorem Node.map_snd_links : ∀ (x : Node H N V) (parent : Option H),
    (x.links parent).map Prod.snd = nodeItems [x]
  | ⟨h, n, d, children⟩, parent => by
      rw [Node.links_eq, List.map_cons, Node.map_snd_linksAll, nodeItems_cons, List.append_nil]
termination_by structural x => x

theorem Node.map_snd_linksAll : ∀ (cs : List (Node H N V)) (parent : Option H),
    (Node.linksAll parent cs).map Prod.snd = nodeItems cs
  | [], _ => rfl
  | c :: cs, parent => by
      rw [Node.linksAll_cons, List.map_append, Node.map_snd_links, Node.map_snd_linksAll,
        ← nodeItems_append]
      rfl
termination_by structural cs => cs
end

theorem nodeItems_rebalance [LinearOrder N] (l : List (Node H N V)) :
    (nodeItems ((byDepth l).map Node.rebalance)).Perm (nodeItems l) := by
  rw [← Node.map_snd_linksAll _ none, ← Node.map_snd_linksAll l none]
  exact (Node.linksAll_byDepth_rebalance none l).map _

end Items

/-! ## Taking the new root out -/

section RemoveAt

variable {α : Type} {l : List α} {i : ℕ} {x : α}

theorem perm_cons_eraseIdx_of_getElem? (h : l[i]? = some x) : l.Perm (x :: l.eraseIdx i) := by
  obtain ⟨hi, rfl⟩ := List.getElem?_eq_some_iff.1 h
  exact (List.getElem_cons_eraseIdx_perm hi).symm

theorem perm_set_of_getElem? (h : l[i]? = some x) (y : α) :
    (l.set i y).Perm (y :: l.eraseIdx i) := by
  obtain ⟨hi, -⟩ := List.getElem?_eq_some_iff.1 h
  have hset : (l.set i y)[i]? = some y := by simp [hi]
  rw [← List.eraseIdx_set_eq (a := y)]
  exact perm_cons_eraseIdx_of_getElem? hset

/-- The walk of `prune` down a path that leads to `r`: it takes `r` out, and
the forest left holds the items of every other node. -/
theorem removeAt_of_walk : ∀ (path : List ℕ) (i : ℕ) (nodes : List (Node H N V))
    (x r : Node H N V), nodes[i]? = some x → x.walk path = some r →
    ∃ forest, removeAt (i :: path) nodes = some (r, forest) ∧
      (nodeItems nodes).Perm (nodeItems (r :: forest))
  | [], i, nodes, x, r, hx, hwalk => by
      obtain rfl : x = r := Option.some.inj hwalk
      refine ⟨nodes.eraseIdx i, by simp [removeAt, hx], ?_⟩
      exact nodeItems_perm (perm_cons_eraseIdx_of_getElem? hx)
  | j :: path, i, nodes, x, r, hx, hwalk => by
      obtain ⟨c, hc, hcwalk⟩ := Option.bind_eq_some_iff.1 hwalk
      obtain ⟨forest, hremove, hperm⟩ := removeAt_of_walk path j x.children c r hc hcwalk
      -- `x` stays in place, with `r` taken out of its children
      let x' : Node H N V := { x with children := forest }
      refine ⟨nodes.set i x', by simp [removeAt, hx, hremove, x'], ?_⟩
      have hrest : nodeItems (r :: forest) = nodeItems [r] ++ nodeItems forest :=
        nodeItems_append [r] forest
      calc (nodeItems nodes).Perm (nodeItems (x :: nodes.eraseIdx i)) :=
            nodeItems_perm (perm_cons_eraseIdx_of_getElem? hx)
          _ = (x.hash, x.number, x.data) :: (nodeItems x.children ++ nodeItems (nodes.eraseIdx i)) := by
            rw [nodeItems_cons, nodeItems_append]
          List.Perm _ ((x.hash, x.number, x.data) ::
              (nodeItems [r] ++ nodeItems (forest ++ nodes.eraseIdx i))) := by
            rw [nodeItems_append, ← List.append_assoc, ← hrest]
            exact (hperm.append_right _).cons _
          List.Perm _ (nodeItems [r] ++ nodeItems (x' :: nodes.eraseIdx i)) := by
            rw [nodeItems_cons x' (nodes.eraseIdx i)]
            exact List.perm_middle.symm
          List.Perm _ (nodeItems [r] ++ nodeItems (nodes.set i x')) :=
            (nodeItems_perm (perm_set_of_getElem? hx x')).symm.append_left _
          _ = nodeItems (r :: nodes.set i x') := (nodeItems_append [r] _).symm

end RemoveAt

/-! ## The new root and what is returned -/

section Split

theorem nodeItems_singleton_rebalance [LinearOrder N] (x : Node H N V) :
    (nodeItems [x.rebalance]).Perm (nodeItems [x]) := by
  rw [← Node.map_snd_links _ none, ← Node.map_snd_links x none]
  exact (Node.links_rebalance x none).map _

/-- A node whose children are split between itself and the stack of removed
nodes: together they hold the items of the node and of the forest. -/
theorem nodeItems_split_children [LinearOrder N] (p : Node H N V → Bool) (r : Node H N V)
    (forest : List (Node H N V)) :
    (nodeItems (r :: forest)).Perm
      (nodeItems [{ r with children := r.children.filter p }.rebalance] ++
        removedItems (forest ++ r.children.filter fun c => !p c)) := by
  let x : Node H N V := { r with children := r.children.filter p }
  have hsplit : (r.children ++ forest).Perm
      (r.children.filter p ++ (forest ++ r.children.filter fun c => !p c)) := by
    refine ((List.filter_append_perm p r.children).symm.append_right forest).trans ?_
    rw [List.append_assoc]
    exact List.perm_append_comm.append_left _
  calc (nodeItems (r :: forest)).Perm (nodeItems (x :: (forest ++ r.children.filter fun c => !p c))) := by
        rw [nodeItems_cons, nodeItems_cons x]
        exact (nodeItems_perm hsplit).cons _
    _ = nodeItems [x] ++ nodeItems (forest ++ r.children.filter fun c => !p c) :=
        nodeItems_append [x] _
    List.Perm _ (nodeItems [x.rebalance] ++ removedItems (forest ++ r.children.filter fun c => !p c)) := by
        rw [removedItems_eq_nodeItems]
        exact (nodeItems_singleton_rebalance x).symm.append (nodeItems_perm (List.reverse_perm _).symm)

end Split

/-! ## The children the new root keeps -/

section Keep

variable [DecidableEq H] [LinearOrder N] (A : Ancestry H N) (hash : H) (number : N)

/-- The test `prune` puts to a child of the new root while it keeps none yet,
with the ancestry's answers: the block at `number`, or an ancestor of the
block below `number`. -/
def keepsChild (c : Node H N V) : Bool :=
  decide (c.number = number ∧ c.hash = hash) || (decide (c.number < number) && A.desc c.hash hash)

variable {A hash number}

theorem below_of_keepsChild {c : Node H N V} (h : keepsChild A hash number c = true) :
    A.Below c.hash hash := by
  simp only [keepsChild, Bool.or_eq_true, Bool.and_eq_true, decide_eq_true_eq] at h
  rcases h with ⟨-, hh⟩ | ⟨-, hdesc⟩
  · exact Or.inl hh
  · exact Or.inr hdesc

theorem below_of_eq_or_desc {c : Node H N V}
    (h : (decide (c.hash = hash) || A.desc c.hash hash) = true) : A.Below c.hash hash := by
  simpa [Ancestry.Below] using h

/-- At the block's height, a child at its own height is kept exactly when it
is the block or an ancestor of it. -/
theorem keepsChild_at_height {c : Node H N V} (hc : c.number = A.height c.hash) :
    keepsChild A hash (A.height hash) c = (decide (c.hash = hash) || A.desc c.hash hash) := by
  by_cases hh : c.hash = hash
  · simp [keepsChild, hh, hc]
  · cases hdesc : A.desc c.hash hash
    · simp [keepsChild, hh, hdesc]
    · -- an ancestor of the block is below its height
      have hlt := A.height_lt hdesc
      simp [keepsChild, hh, hdesc, hc, hlt]

omit [DecidableEq H] in
theorem Siblings.length_filter_le_one {l : List (Node H N V)} (h : Siblings A l)
    {p : Node H N V → Bool} (hp : ∀ x ∈ l, p x = true → A.Below x.hash hash) :
    (l.filter p).length ≤ 1 := by
  induction l with
  | nil => simp
  | cons y ys ih =>
      have hpair := List.pairwise_cons.1 h.incomparable
      have hys : Siblings A ys := h.sublist (List.sublist_cons_self y ys)
      cases hy : p y
      · rw [List.filter_cons_of_neg (by simp [hy])]
        exact ih hys fun x hx => hp x (List.mem_cons_of_mem _ hx)
      · -- a second sibling on the block's branch would be comparable with `y`
        have hnone : ys.filter p = [] := List.filter_eq_nil_iff.2 fun x hx hpx =>
          (hpair.1 x hx).not_below_both (hp y List.mem_cons_self hy)
            (hp x (List.mem_cons_of_mem _ hx) hpx)
        rw [List.filter_cons_of_pos hy, hnone]
        rfl

theorem run_pruneChildren_removes : ∀ (children kept removed : List (Node H N V))
    (s : ForkTree H N V),
    (pruneChildren (ancestryOracle (E := E) A) hash number children kept removed false).run s =
      .ok (kept, removed ++ children) s
  | [], kept, removed, s => by simp [pruneChildren]
  | child :: children, kept, removed, s => by
      unfold pruneChildren
      simp [run_pruneChildren_removes children kept (removed ++ [child]) s]

/-- One step of the loop of `prune` while no child is kept, with the
ancestry's answers: the child passes `keepsChild` or is removed. -/
theorem run_pruneChildren_cons (child : Node H N V) (children kept removed : List (Node H N V))
    (s : ForkTree H N V) :
    (pruneChildren (ancestryOracle (E := E) A) hash number (child :: children) kept removed true).run s =
      (if keepsChild A hash number child
        then pruneChildren (ancestryOracle (E := E) A) hash number children (kept ++ [child]) removed false
        else pruneChildren (ancestryOracle (E := E) A) hash number children kept (removed ++ [child]) true).run s := by
  conv_lhs => unfold pruneChildren
  rw [if_pos rfl]
  by_cases hblock : child.number = number ∧ child.hash = hash
  · -- the block at `number` is kept without a question
    have hk : keepsChild A hash number child = true := by simp [keepsChild, hblock]
    simp [hblock, hk]
  · by_cases hlt : child.number < number
    · -- below `number` the client is asked
      have hk : keepsChild A hash number child = A.desc child.hash hash := by
        simp [keepsChild, hblock, hlt]
      rw [if_neg hblock, if_pos hlt, run_bind_ok (run_descends child.hash hash), hk]
    · have hk : keepsChild A hash number child = false := by simp [keepsChild, hblock, hlt]
      simp [hblock, hlt, hk]

/-- The loop of `prune` with the ancestry's answers, over children at most
one of which passes the test: that one is kept, the others removed. -/
theorem run_pruneChildren_first : ∀ (children kept removed : List (Node H N V))
    (s : ForkTree H N V), (children.filter (keepsChild A hash number)).length ≤ 1 →
    (pruneChildren (ancestryOracle (E := E) A) hash number children kept removed true).run s =
      .ok (kept ++ children.filter (keepsChild A hash number),
        removed ++ children.filter fun c => !keepsChild A hash number c) s
  | [], kept, removed, s, _ => by simp [pruneChildren]
  | child :: children, kept, removed, s, hone => by
      rw [run_pruneChildren_cons]
      cases hk : keepsChild A hash number child
      · -- removed: the loop goes on with the test
        have hone' : (children.filter (keepsChild A hash number)).length ≤ 1 := by
          simpa [List.filter_cons, hk] using hone
        rw [if_neg Bool.false_ne_true, run_pruneChildren_first children kept (removed ++ [child]) s hone']
        simp [hk]
      · -- kept: no later child passes, and every one is removed
        have hnone : children.filter (keepsChild A hash number) = [] := by
          simpa [List.filter_cons, hk] using hone
        have hall : (children.filter fun c => !keepsChild A hash number c) = children := by
          rw [List.filter_eq_self]
          intro c hc
          have hc' : keepsChild A hash number c = false :=
            Bool.eq_false_iff.2 fun h => List.filter_eq_nil_iff.1 hnone c hc h
          simp [hc']
        rw [if_pos rfl, run_pruneChildren_removes]
        simp [hk, hnone, hall]

end Keep

/-! ## A run of `prune` -/

section Run

variable [DecidableEq H] [LinearOrder N] {t : ForkTree H N V} (hash : H) (number : N)
  (predicate : V → Bool)

/-- When the search finds no node, `prune` only rebalances the tree, and
returns nothing. -/
theorem run_prune_of_none {isDescendentOf : H → H → Except E Bool}
    (h : findNodeIndexWhere isDescendentOf hash number predicate t.roots 0 = .ok none) :
    (prune isDescendentOf hash number predicate).run t =
      .ok [] { t with roots := (byDepth t.roots).map Node.rebalance } := by
  unfold prune
  rw [run_get_bind, h]
  rfl

variable {A : Ancestry H N}

/-- When the search finds a node, with the ancestry's answers, `prune` makes
it the only root with the children it keeps, and returns the rest. -/
theorem run_prune_of_found {path : List ℕ} {r : Node H N V} {forest : List (Node H N V)}
    (h : findNodeIndexWhere (ancestryOracle (E := E) A) hash number predicate t.roots 0 =
      .ok (some path))
    (hremove : removeAt path.reverse t.roots = some (r, forest))
    (hone : (r.children.filter (keepsChild A hash number)).length ≤ 1) :
    (prune (ancestryOracle (E := E) A) hash number predicate).run t =
      .ok (removedItems (forest ++ r.children.filter fun c => !keepsChild A hash number c))
        { t with roots := [{ r with children := r.children.filter (keepsChild A hash number) }.rebalance] } := by
  unfold prune
  rw [run_get_bind, h]
  simp only [run_bind_ok run_ofExcept_ok]
  rw [run_set_bind, hremove, run_bind_ok run_unwrap_some,
    run_bind_ok (run_pruneChildren_first r.children [] forest _ hone), run_modify_bind]
  simp [rebalance, byDepth]

end Run

section Conservation

variable [DecidableEq H] [LinearOrder N] {A : Ancestry H N} {t : ForkTree H N V}

/-- With the ancestry's answers, over a well-formed tree, `prune` returns, and
the items of the tree before are those after with the items returned. For a
block at its height, a node the search finds becomes the only root, with the
one child on the block's branch, if any, and its subtree. -/
theorem prune_conserves_nodes (ht : t.Wf A) (hash : H) (number : N) (predicate : V → Bool) :
    ∃ removed t', (prune (ancestryOracle (E := E) A) hash number predicate).run t = .ok removed t' ∧
      (nodeItems t.roots).Perm (nodeItems t'.roots ++ removed) ∧
      (number = A.height hash → ∀ path r,
        findNodeIndexWhere (ancestryOracle (E := E) A) hash number predicate t.roots 0 =
          .ok (some path) → nodeAt t.roots path = some r →
        t'.roots = [{ r with children := r.children.filter (fun c =>
          decide (c.hash = hash) || A.desc c.hash hash) }.rebalance] ∧
        (r.children.filter fun c => decide (c.hash = hash) || A.desc c.hash hash).length ≤ 1) := by
  rcases findNodeWhereIn_spec (E := E) hash number predicate t t.roots 0 ht with
    ⟨j, js, c, m, hidx, hc, hwalk, -, -⟩ | ⟨hidx, -, -⟩
  · -- a node is found: it is taken out of the forest and becomes the root
    obtain ⟨forest, hremove, hperm⟩ := removeAt_of_walk js.reverse j t.roots c m hc hwalk
    have hremove' : removeAt (js ++ [0 + j]).reverse t.roots = some (m, forest) := by
      simpa using hremove
    have hmwf : m.Wf A := ht.wf_of_mem_preorderAll (mem_preorderAll_of_removeAt hremove)
    refine ⟨_, _, run_prune_of_found hash number predicate hidx hremove'
        (hmwf.siblings.length_filter_le_one fun x _ hx => below_of_keepsChild hx),
      hperm.trans (nodeItems_split_children _ m forest), ?_⟩
    rintro rfl path r hpath hr
    -- the path is the one found, and leads to `m`
    obtain rfl : path = js ++ [0 + j] := Option.some.inj (Except.ok.inj (hpath.symm.trans hidx))
    have hnode : nodeAt t.roots (js ++ [0 + j]) = some m := by simpa [nodeAt, hc] using hwalk
    obtain rfl : r = m := Option.some.inj (hr.symm.trans hnode)
    have hfilter : r.children.filter (keepsChild A hash (A.height hash)) =
        r.children.filter fun c => decide (c.hash = hash) || A.desc c.hash hash :=
      List.filter_congr fun c hc => keepsChild_at_height (hmwf.siblings.wf c hc).number_eq
    exact ⟨by rw [hfilter], hmwf.siblings.length_filter_le_one fun x _ hx => below_of_eq_or_desc hx⟩
  · -- nothing is found: the tree is only rebalanced
    refine ⟨[], _, run_prune_of_none hash number predicate hidx, ?_, ?_⟩
    · rw [List.append_nil]
      exact (nodeItems_rebalance t.roots).symm
    · intro _ path r hpath
      rw [hidx] at hpath
      cases hpath

/-- Pruning the chain `0, 1` at its tip, at the tip's height. -/
theorem prune_conserves_nodes_chain :
    chainTree.Wf chainAncestry ∧
    ∃ removed t', (prune (ancestryOracle (E := Unit) chainAncestry) 1 1 fun _ => true).run chainTree =
        .ok removed t' ∧
      (nodeItems chainTree.roots).Perm (nodeItems t'.roots ++ removed) ∧
      (1 = chainAncestry.height 1 → ∀ path r,
        findNodeIndexWhere (ancestryOracle (E := Unit) chainAncestry) 1 1 (fun _ => true)
          chainTree.roots 0 = .ok (some path) → nodeAt chainTree.roots path = some r →
        t'.roots = [{ r with children := r.children.filter (fun c =>
          decide (c.hash = 1) || chainAncestry.desc c.hash 1) }.rebalance] ∧
        (r.children.filter fun c => decide (c.hash = 1) || chainAncestry.desc c.hash 1).length ≤ 1) :=
  ⟨chainTree_wf, prune_conserves_nodes chainTree_wf 1 1 fun _ => true⟩

/-- In the chain `0, 1`, pruning at block `1` with number `5`, not its
height: the search finds the root, and the root's child, the block itself, is
removed. -/
theorem prune_drops_block_at_other_number :
    chainTree.Wf chainAncestry ∧
    findNodeIndexWhere (ancestryOracle (E := Unit) chainAncestry) 1 5 (fun _ => true)
        chainTree.roots 0 = .ok (some [0]) ∧
      nodeAt chainTree.roots [0] = some ⟨0, 0, (), [⟨1, 1, (), []⟩]⟩ ∧
      (prune (ancestryOracle (E := Unit) chainAncestry) 1 5 fun _ => true).run chainTree =
        .ok [(1, 1, ())] ⟨[⟨0, 0, (), []⟩], none⟩ := by
  have hidx : findNodeIndexWhere (ancestryOracle (E := Unit) chainAncestry) 1 5 (fun _ => true)
      chainTree.roots 0 = .ok (some [0]) := rfl
  have hremove : removeAt [0].reverse chainTree.roots =
      some (⟨0, 0, (), [⟨1, 1, (), []⟩]⟩, []) := rfl
  refine ⟨chainTree_wf, hidx, rfl, ?_⟩
  rw [run_prune_of_found 1 5 _ hidx hremove (by decide)]
  simp [keepsChild, chainAncestry, Node.rebalance_eq, Node.preorder_eq, byDepth, removedItems,
    chainTree]

end Conservation

end SocialNetwork.Fork
