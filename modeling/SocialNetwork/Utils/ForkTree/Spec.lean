import SocialNetwork.Utils.ForkTree.Tree

/-!
# What each method of the fork tree does, for any client

The facts here hold whatever `is_descendent_of` answers: a node's `import`
changes it only when it takes the block; the checks and searches read the
tree and never write it; a retain loop ends with a sublist of the roots it
walked, even when the client fails in the middle; `finalize_root_at`
replaces the roots by the children of one of them. `ancestorsLoop_induction`
is the loop rule of `finalize_with_ancestors`: what survives removing a root
and opening one into its children survives the loop.
-/

namespace SocialNetwork.Fork

open Dispatch


section Shape

variable {H N V : Type}

theorem Node.preorder_eq (x : Node H N V) : x.preorder = x :: Node.preorderAll x.children := by
  obtain ⟨h, n, d, children⟩ := x
  rfl

@[simp] theorem Node.preorderAll_nil : Node.preorderAll ([] : List (Node H N V)) = [] := rfl

@[simp] theorem Node.preorderAll_cons (x : Node H N V) (xs : List (Node H N V)) :
    Node.preorderAll (x :: xs) = x.preorder ++ Node.preorderAll xs := rfl

theorem Node.preorderAll_append (xs ys : List (Node H N V)) :
    Node.preorderAll (xs ++ ys) = Node.preorderAll xs ++ Node.preorderAll ys := by
  induction xs with
  | nil => rfl
  | cons x xs ih => simp [ih]

theorem Node.mem_preorderAll {m : Node H N V} {xs : List (Node H N V)} :
    m ∈ Node.preorderAll xs ↔ ∃ x ∈ xs, m ∈ x.preorder := by
  induction xs with
  | nil => simp
  | cons x xs ih => simp [ih]

theorem Node.mem_preorder_self (x : Node H N V) : x ∈ x.preorder := by
  rw [Node.preorder_eq]
  exact List.mem_cons_self

theorem Node.mem_preorderAll_of_mem {x : Node H N V} {xs : List (Node H N V)} (hx : x ∈ xs) :
    x ∈ Node.preorderAll xs :=
  Node.mem_preorderAll.2 ⟨x, hx, x.mem_preorder_self⟩

theorem Node.mem_preorder_of_mem_children {x c m : Node H N V} (hc : c ∈ x.children)
    (hm : m ∈ c.preorder) : m ∈ x.preorder := by
  rw [Node.preorder_eq]
  exact List.mem_cons_of_mem _ (Node.mem_preorderAll.2 ⟨c, hc, hm⟩)

theorem mem_preorderAll_of_removeAt : ∀ {path : List ℕ} {nodes : List (Node H N V)}
    {node : Node H N V} {rest : List (Node H N V)},
    removeAt path nodes = some (node, rest) → node ∈ Node.preorderAll nodes
  | [], _, _, _, h => by simp [removeAt] at h
  | [i], nodes, node, rest, h => by
      unfold removeAt at h
      rcases hi : nodes[i]? with _ | x <;> simp only [hi] at h
      · exact absurd h (by simp)
      · obtain ⟨rfl, -⟩ := Prod.mk.inj (Option.some.inj h)
        exact Node.mem_preorderAll_of_mem (List.mem_of_getElem? hi)
  | i :: j :: path, nodes, node, rest, h => by
      unfold removeAt at h
      rcases hi : nodes[i]? with _ | x <;> simp only [hi] at h
      · exact absurd h (by simp)
      · -- the walk goes on in the children of the node at `i`
        obtain ⟨⟨found, children⟩, hfound, heq⟩ := Option.map_eq_some_iff.1 h
        obtain ⟨rfl, -⟩ := Prod.mk.inj heq
        have hbelow := mem_preorderAll_of_removeAt hfound
        obtain ⟨c, hc, hm⟩ := Node.mem_preorderAll.1 hbelow
        exact Node.mem_preorderAll.2
          ⟨x, List.mem_of_getElem? hi, Node.mem_preorder_of_mem_children hc hm⟩

end Shape

variable {H N V E : Type} [DecidableEq H] [LinearOrder N] (isDescendentOf : H → H → Except E Bool)

section Import

variable (hash : H) (number : N) (data : V)

mutual
theorem Node.import_of_not_taken : ∀ (x : Node H N V),
    (x.import isDescendentOf hash number data).1 ≠ .ok true →
      (x.import isDescendentOf hash number data).2 = x
  | ⟨h, n, d, children⟩, hr => by
      unfold Node.import at hr ⊢
      split_ifs with hh hn
      · rfl
      · rfl
      · rw [if_neg hh, if_neg hn] at hr
        -- the loop over the children left them as they were, unless one took the block
        have hchildren := Node.importChildren_of_not_taken children
        rcases hc : Node.importChildren isDescendentOf hash number data children with
          ⟨r, children'⟩
        rw [hc] at hchildren hr
        rcases r with e | _ | _
        · have hcs : children' = children := hchildren (by simp)
          simp only [hcs]
        · have hcs : children' = children := hchildren (by simp)
          rcases hdesc : isDescendentOf h hash with e | _ | _ <;> simp only [hdesc] at hr ⊢
          · rw [hcs]
          · rw [hcs]
          · exact absurd rfl hr
        · exact absurd rfl hr
termination_by structural x => x

theorem Node.importChildren_of_not_taken : ∀ (cs : List (Node H N V)),
    (Node.importChildren isDescendentOf hash number data cs).1 ≠ .ok true →
      (Node.importChildren isDescendentOf hash number data cs).2 = cs
  | [], _ => rfl
  | c :: cs, hr => by
      unfold Node.importChildren at hr ⊢
      have hc := Node.import_of_not_taken c
      rcases hi : c.import isDescendentOf hash number data with ⟨r, c'⟩
      rw [hi] at hc hr
      rcases r with e | _ | _
      · have hc' : c' = c := hc (by simp)
        simp only [hc']
      · have hc' : c' = c := hc (by simp)
        simp only at hr ⊢
        rw [hc', Node.importChildren_of_not_taken cs hr]
      · exact absurd rfl hr
termination_by structural cs => cs
end

/-- The check of each root's hash in `ForkTree::import` is the one `Node::import`
makes first: the loop over the roots is the loop over a node's children. -/
theorem importRoots_eq_importChildren : ∀ (roots : List (Node H N V)),
    importRoots isDescendentOf hash number data roots =
      Node.importChildren isDescendentOf hash number data roots
  | [] => rfl
  | root :: roots => by
      unfold importRoots Node.importChildren
      split_ifs with hh
      · have hdup : root.import isDescendentOf hash number data = (.error .duplicate, root) := by
          obtain ⟨h, n, d, children⟩ := root
          simp only at hh
          simp [Node.import, hh]
        rw [hdup]
      · simp only [importRoots_eq_importChildren roots]

end Import

section ReadOnly

variable {isDescendentOf} {hash : H} {number : N}

omit [DecidableEq H] [LinearOrder N] in
theorem keeps_descends (a b : H) : Keeps id (descends isDescendentOf a b : TreeCall H N V E Bool) :=
  keeps_ofExcept _

omit [DecidableEq H] in
theorem keeps_checkRevert : Keeps id (checkRevert number : TreeCall H N V E Unit) := by
  unfold checkRevert
  refine keeps_bind keeps_get fun t => ?_
  rcases t.bestFinalizedNumber with _ | best
  · exact keeps_pure _
  · exact keeps_ensure _

omit [DecidableEq H] in
theorem keeps_checkRoots (roots : List (Node H N V)) :
    Keeps id (checkRoots isDescendentOf hash number roots) := by
  induction roots with
  | nil => exact keeps_pure _
  | cons root roots ih =>
      unfold checkRoots
      dsimp only
      exact keeps_ite (keeps_bind (keeps_descends _ _) fun _ =>
        keeps_ite (keeps_bind (keeps_fail _) fun _ => ih) ih) ih

omit [DecidableEq H] in
theorem keeps_checkChildren (nodes : List (Node H N V)) :
    Keeps id (checkChildren isDescendentOf hash number nodes) := by
  induction nodes with
  | nil => exact keeps_pure _
  | cons node nodes ih =>
      unfold checkChildren
      dsimp only
      exact keeps_ite (keeps_bind (keeps_descends _ _) fun _ =>
        keeps_ite (keeps_bind (keeps_fail _) fun _ => ih) ih) ih

theorem keeps_findPassing (predicate : V → Bool) (nodes : List (Node H N V)) :
    Keeps id (findPassing isDescendentOf hash number predicate nodes) := by
  induction nodes with
  | nil => exact keeps_pure _
  | cons node nodes ih =>
      unfold findPassing
      dsimp only
      have hrest := keeps_bind (f := id) ih fun rest => keeps_pure (rest.map fun x => (x.1 + 1, x.2))
      have hfound : ∀ found : Bool, Keeps id (if found = true then
          checkChildren isDescendentOf hash number node.children >>= fun _ => pure (some (0, node))
        else findPassing isDescendentOf hash number predicate nodes >>= fun rest =>
          pure (rest.map fun x => (x.1 + 1, x.2))) := fun _ =>
        keeps_ite (keeps_bind (keeps_checkChildren _) fun _ => keeps_pure _) hrest
      exact keeps_ite (keeps_ite (keeps_bind (keeps_pure _) hfound)
        (keeps_bind (keeps_descends _ _) hfound)) hrest

end ReadOnly

section Calls

variable {isDescendentOf} {hash : H} {number : N}

/-- The roots a retain loop ends with, however it ends: those there before,
then a sublist of the ones it walked. -/
def Retained (t : ForkTree H N V) (roots : List (Node H N V)) (t' : ForkTree H N V) : Prop :=
  ∃ kept, kept.Sublist roots ∧ t' = { t with roots := t.roots ++ kept }

omit [DecidableEq H] [LinearOrder N] in
theorem wp_retainRoots {keep : Node H N V → TreeCall H N V E Bool}
    (hkeep : ∀ root, Keeps id (keep root)) (roots : List (Node H N V)) (changed : Bool)
    (t : ForkTree H N V) :
    Wp (retainRoots keep roots changed) (fun _ => Retained t roots) (fun _ => Retained t roots) t := by
  induction roots generalizing changed t with
  | nil => exact ⟨[], .slnil, by simp⟩
  | cons root roots ih =>
      unfold retainRoots
      refine wp_bind_of_keeps (hkeep root) (fun b => ?_) (fun _ => ⟨[], List.nil_sublist _, by simp⟩)
      cases b with
      | false =>
          simp only [Bool.false_eq_true, if_false]
          refine Wp.mono (ih true t) ?_ ?_ <;>
            · rintro _ _ ⟨kept, hs, rfl⟩
              exact ⟨kept, hs.cons root, rfl⟩
      | true =>
          simp only [if_true, wp_bind, wp_modify]
          refine Wp.mono (ih changed _) ?_ ?_ <;>
            · rintro _ _ ⟨kept, hs, rfl⟩
              exact ⟨root :: kept, hs.cons_cons root, by simp⟩

omit [DecidableEq H] [LinearOrder N] in
/-- The end of the finalizations leaves a sublist of the roots, however it
ends. -/
theorem wp_retainAndFinalize {keep : Node H N V → TreeCall H N V E Bool}
    (hkeep : ∀ root, Keeps id (keep root)) (t : ForkTree H N V) :
    Wp (retainAndFinalize number keep) (fun _ t' => t'.roots.Sublist t.roots)
      (fun _ t' => t'.roots.Sublist t.roots) t := by
  unfold retainAndFinalize
  simp only [wp_bind, wp_get, wp_set]
  refine Wp.mono (wp_retainRoots hkeep t.roots false _) ?_ ?_
  · rintro _ _ ⟨kept, hs, rfl⟩
    simpa using hs
  · rintro _ _ ⟨kept, hs, rfl⟩
    simpa using hs

omit [DecidableEq H] [LinearOrder N] in
theorem wp_finalizeRootAt {R : Error E → ForkTree H N V → Prop} (position : ℕ)
    (t : ForkTree H N V) :
    Wp (finalizeRootAt position)
      (fun data t' => ∃ node, t.roots[position]? = some node ∧ data = node.data ∧
        t' = { t with roots := node.children, bestFinalizedNumber := some node.number }) R t := by
  unfold finalizeRootAt
  simp only [wp_bind, wp_get]
  rcases h : t.roots[position]? with _ | node
  · simp
  · simp only [wp_unwrap_some, wp_set, wp_pure]
    exact ⟨node, rfl, rfl, rfl⟩

omit [LinearOrder N] in
theorem wp_finalizeRoot {R : Error E → ForkTree H N V → Prop} (t : ForkTree H N V) :
    Wp (finalizeRoot hash)
      (fun r t' => (r = none ∧ t' = t ∧ ∀ node ∈ t.roots, node.hash ≠ hash) ∨
        ∃ node ∈ t.roots, node.hash = hash ∧ r = some node.data ∧
          t' = { t with roots := node.children, bestFinalizedNumber := some node.number }) R t := by
  unfold finalizeRoot
  simp only [wp_bind, wp_get]
  split
  next position h =>
      simp only [wp_map]
      refine Wp.mono (wp_finalizeRootAt position t) ?_ (fun _ _ h => h)
      rintro _ _ ⟨node, hnode, rfl, rfl⟩
      obtain ⟨hlt, hfound, -⟩ := List.findIdx?_eq_some_iff_getElem.1 h
      have heq : t.roots[position] = node := by simpa [hlt] using hnode
      refine .inr ⟨node, List.mem_of_getElem? hnode, ?_, rfl, rfl⟩
      simpa [heq] using hfound
  next h =>
      refine .inl ⟨rfl, rfl, fun node hnode heq => ?_⟩
      have := List.findIdx?_eq_none_iff.1 h node hnode
      simp [heq] at this

theorem wp_pruneChildren (children kept removed : List (Node H N V)) (isFirst : Bool)
    (t : ForkTree H N V) :
    Wp (pruneChildren isDescendentOf hash number children kept removed isFirst)
      (fun r t' => t' = t ∧ ∃ l, l.Sublist children ∧ r.1 = kept ++ l) (fun _ t' => t' = t) t := by
  induction children generalizing kept removed isFirst with
  | nil => exact ⟨rfl, [], .slnil, by simp⟩
  | cons child children ih =>
      unfold pruneChildren
      dsimp only
      -- the rest of the loop runs from the same tree, whichever way the child goes
      have hnext : ∀ keep : Bool, Wp (if keep = true then
            pruneChildren isDescendentOf hash number children (kept ++ [child]) removed false
          else pruneChildren isDescendentOf hash number children kept (removed ++ [child]) isFirst)
          (fun r t' => t' = t ∧ ∃ l, l.Sublist (child :: children) ∧ r.1 = kept ++ l)
          (fun _ t' => t' = t) t := by
        intro keep
        cases keep with
        | false =>
            refine Wp.mono (ih _ _ _) ?_ (fun _ _ h => h)
            rintro _ _ ⟨rfl, l, hs, hr⟩
            exact ⟨rfl, l, hs.cons child, hr⟩
        | true =>
            refine Wp.mono (ih _ _ _) ?_ (fun _ _ h => h)
            rintro _ _ ⟨rfl, l, hs, hr⟩
            exact ⟨rfl, child :: l, hs.cons_cons child, by simp [hr]⟩
      split_ifs
      · exact wp_bind_of_keeps (keeps_pure _) hnext (fun _ => rfl)
      · exact wp_bind_of_keeps (keeps_descends _ _) hnext (fun _ => rfl)
      · exact wp_bind_of_keeps (keeps_pure _) hnext (fun _ => rfl)
      · exact wp_bind_of_keeps (keeps_pure _) hnext (fun _ => rfl)

/-- **Loop rule** for `finalize_with_ancestors`: what holds of the roots before
the loop, and survives `swap_remove` of a root and its replacement by its
children, holds of the roots the loop ends with. -/
theorem ancestorsLoop_induction (P : List (Node H N V) → Prop)
    (hremove : ∀ l i, i < l.length → P l → P (swapRemove l i))
    (hopen : ∀ l i (hi : i < l.length), P l → P (swapRemove l i ++ l[i].children))
    (roots : List (Node H N V)) (idx : ℕ) (changed : Bool) (hP : P roots) :
    P (ancestorsLoop isDescendentOf hash number roots idx changed).2 := by
  fun_induction ancestorsLoop isDescendentOf hash number roots idx changed with
  | case1 | case2 | case4 | case7 => exact hP
  | case3 _ _ _ _ _ _ _ ih => exact ih hP
  | case5 roots idx _ hidx _ _ _ _ ih => exact ih (hopen roots idx hidx hP)
  | case6 roots idx _ hidx _ _ _ _ ih => exact ih (hremove roots idx hidx hP)

end Calls

end SocialNetwork.Fork
