import Mathlib
import SocialNetwork.Lib.Dispatch

/-!
# `fork_tree::ForkTree`

`src/utils/fork-tree/src/lib.rs` keeps a forest of blocks with data; GRANDPA
keeps its pending authority-set changes in one, a node per block that
signals a change. A node's children are blocks that descend from it, and the
roots are the blocks next to the last finalized one. The tree never sees the
chain: it asks the client `is_descendent_of(a, b)` whether `b` descends from
`a`, and the client may fail.

Every method takes `&mut self` and returns a `Result`, so a method is a
`Dispatch.Call` over the tree whose errors keep what it wrote before them,
as `?` does. The recursions of `Node` (`import`, `find_node_index_where`,
`max_depth`) are pairs of functions over a node and a list of children. The
loops of the tree's methods are recursions over the list they walk; the
`while` loop of `finalize_with_ancestors`, which puts children back into the
list it walks, recurses on the number of nodes left and its index, and
`rebalance` recurses on the size of the node.
-/

namespace SocialNetwork.Fork

open Dispatch

/-- `fork_tree::Error`. -/
inductive Error (E : Type) where
  | duplicate
  | unfinalizedAncestor
  | revert
  | client (e : E)
  deriving DecidableEq, Repr

/-- `FinalizationResult`. -/
inductive FinalizationResult (V : Type) where
  | changed (data : Option V)
  | unchanged
  deriving DecidableEq, Repr

/-- `FindOutcome` of the node search. -/
inductive FindOutcome (T : Type) where
  | found (x : T)
  | failure (descendent : Bool)
  | abort
  deriving DecidableEq, Repr

/-- `Node`: a block, its data, and the nodes of blocks that descend from it. -/
structure Node (H N V : Type) where
  hash : H
  number : N
  data : V
  children : List (Node H N V)

/-- `ForkTree`. -/
structure ForkTree (H N V : Type) where
  roots : List (Node H N V)
  bestFinalizedNumber : Option N

/-- `ForkTree::new`. -/
def ForkTree.new {H N V : Type} : ForkTree H N V := ⟨[], none⟩

/-- `Vec::swap_remove(i)` for `i` in range: the last element takes the place
of the `i`-th. -/
def swapRemove {α : Type} (l : List α) (i : ℕ) : List α :=
  match l.getLast? with
  | some last => if i + 1 < l.length then (l.set i last).dropLast else l.dropLast
  | none => l

variable {H N V E : Type}

section Shape

mutual
/-- `Node::max_depth`. -/
def Node.maxDepth : Node H N V → ℕ
  | ⟨_, _, _, children⟩ => Node.maxDepthOf children + 1

/-- The loop of `max_depth` over the children: the deepest of them, `0` for
none. -/
def Node.maxDepthOf : List (Node H N V) → ℕ
  | [] => 0
  | c :: cs => max c.maxDepth (Node.maxDepthOf cs)
end

mutual
/-- The number of nodes of a subtree. -/
def Node.size : Node H N V → ℕ
  | ⟨_, _, _, children⟩ => Node.forestSize children + 1

def Node.forestSize : List (Node H N V) → ℕ
  | [] => 0
  | c :: cs => c.size + Node.forestSize cs
end

mutual
def Node.preorder : Node H N V → List (Node H N V)
  | n@⟨_, _, _, children⟩ => n :: Node.preorderAll children

def Node.preorderAll : List (Node H N V) → List (Node H N V)
  | [] => []
  | c :: cs => c.preorder ++ Node.preorderAll cs
end

/-- `sort_by_key(|n| Reverse(n.max_depth()))`: deepest first, stable. -/
def byDepth (nodes : List (Node H N V)) : List (Node H N V) :=
  nodes.mergeSort fun a b => decide (b.maxDepth ≤ a.maxDepth)

theorem sizeOf_lt_of_mem_byDepth {h : H} {n : N} {d : V} {children : List (Node H N V)}
    {c : Node H N V} (hc : c ∈ byDepth children) : sizeOf c < sizeOf (Node.mk h n d children) := by
  have hmem : c ∈ children := (List.mergeSort_perm _ _).mem_iff.1 hc
  have := List.sizeOf_lt_of_mem hmem
  simp only [Node.mk.sizeOf_spec]
  omega

/-- `Node::rebalance`: the children deepest first, each rebalanced in turn. -/
def Node.rebalance : Node H N V → Node H N V
  | ⟨h, n, d, children⟩ =>
      ⟨h, n, d, (byDepth children).attach.map fun ⟨c, _⟩ => c.rebalance⟩
termination_by node => sizeOf node
decreasing_by exact sizeOf_lt_of_mem_byDepth ‹_›

/-- `RemovedIterator`: what it yields from its stack, the last node first,
each followed by its subtree in pre-order. -/
def removedItems (stack : List (Node H N V)) : List (H × N × V) :=
  (Node.preorderAll stack.reverse).map fun n => (n.hash, n.number, n.data)

theorem forestSize_append (l l' : List (Node H N V)) :
    Node.forestSize (l ++ l') = Node.forestSize l + Node.forestSize l' := by
  induction l with
  | nil => simp [Node.forestSize]
  | cons c cs ih =>
      simp only [List.cons_append, Node.forestSize, ih]
      omega

theorem forestSize_eq_sum (l : List (Node H N V)) :
    Node.forestSize l = (l.map Node.size).sum := by
  induction l with
  | nil => rfl
  | cons c cs ih => simp [Node.forestSize, ih]

theorem swapRemove_perm {α : Type} {l : List α} {i : ℕ} (hi : i < l.length) :
    (swapRemove l i).Perm (l.eraseIdx i) := by
  obtain ⟨init, last, rfl⟩ := (List.eq_nil_or_concat l).resolve_left (by rintro rfl; simp at hi)
  simp only [List.concat_eq_append] at hi ⊢
  simp only [swapRemove, List.getLast?_concat, List.length_append, List.length_singleton]
  split_ifs with hlt
  · -- the last element moves to position `i`
    rw [List.set_append_left _ _ (by omega), List.dropLast_concat,
      List.eraseIdx_append_of_lt_length (by omega), List.set_eq_take_append_cons_drop,
      if_pos (by omega), List.eraseIdx_eq_take_drop_succ]
    exact List.perm_middle.trans (List.perm_append_singleton _ _).symm
  · -- the last element itself goes
    have hlast : i = init.length := by simp at hi; omega
    subst hlast
    rw [List.eraseIdx_append_of_length_le (Nat.le_refl _)]
    simp

theorem forestSize_swapRemove {l : List (Node H N V)} {i : ℕ} (hi : i < l.length) :
    Node.forestSize (swapRemove l i) + (l[i]).size = Node.forestSize l := by
  have hperm := ((swapRemove_perm hi).map Node.size).sum_eq
  have hsum := List.CommMonoid.add_sum_eraseIdx (l := l.map Node.size) (i := i) (by simpa using hi)
  rw [List.eraseIdx_map, List.getElem_map] at hsum
  rw [forestSize_eq_sum, forestSize_eq_sum, hperm]
  omega

end Shape

variable [DecidableEq H] [LinearOrder N] (isDescendentOf : H → H → Except E Bool)

section Node

mutual
/-- `Node::import`: whether the node took the block, as itself or below, and
the node after the call. The source moves `(hash, number, data)` in and hands
them back when the node does not take them; here they stay with the caller. -/
def Node.import (hash : H) (number : N) (data : V) :
    Node H N V → Except (Error E) Bool × Node H N V
  | ⟨h, n, d, children⟩ =>
      if h = hash then (.error .duplicate, ⟨h, n, d, children⟩)
      else if number ≤ n then (.ok false, ⟨h, n, d, children⟩)
      else
        match Node.importChildren hash number data children with
        | (.ok false, children) =>
            match isDescendentOf h hash with
            | .ok true => (.ok true, ⟨h, n, d, children ++ [⟨hash, number, data, []⟩]⟩)
            | .ok false => (.ok false, ⟨h, n, d, children⟩)
            | .error e => (.error (.client e), ⟨h, n, d, children⟩)
        | (result, children) => (result, ⟨h, n, d, children⟩)

/-- The loop of `Node::import` over the children: the first that takes the
block, or fails, ends it. -/
def Node.importChildren (hash : H) (number : N) (data : V) :
    List (Node H N V) → Except (Error E) Bool × List (Node H N V)
  | [] => (.ok false, [])
  | c :: cs =>
      match Node.import hash number data c with
      | (.ok false, c) =>
          let (result, cs) := Node.importChildren hash number data cs
          (result, c :: cs)
      | (result, c) => (result, c :: cs)
end

mutual
/-- `Node::find_node_index_where`: the path, leaf first, to the node the search
stops at; `failure true` when the block descends from the node but no node
on the way passes `predicate`. -/
def Node.findNodeIndexWhere (hash : H) (number : N) (predicate : V → Bool) :
    Node H N V → Except (Error E) (FindOutcome (List ℕ))
  | ⟨h, n, d, children⟩ =>
      if number < n then .ok (.failure false)
      else
        match Node.findIndexInChildren hash number predicate children 0 with
        | .error e => .error e
        | .ok .abort => .ok .abort
        | .ok (.found x) => .ok (.found x)
        | .ok (.failure knownDescendentOf) =>
            -- a block below one child is below no other: the child's answer stands
            let isDescendent : Except (Error E) Bool :=
              if knownDescendentOf then .ok true else (isDescendentOf h hash).mapError .client
            match isDescendent with
            | .error e => .error e
            | .ok isDescendent =>
                if isDescendent && predicate d then .ok (.found [])
                else .ok (.failure isDescendent)

def Node.findIndexInChildren (hash : H) (number : N) (predicate : V → Bool) :
    List (Node H N V) → ℕ → Except (Error E) (FindOutcome (List ℕ))
  | [], _ => .ok (.failure false)
  | c :: cs, i =>
      match Node.findNodeIndexWhere hash number predicate c with
      | .error e => .error e
      | .ok .abort => .ok .abort
      | .ok (.found x) => .ok (.found (x ++ [i]))
      | .ok (.failure true) => .ok (.failure true)
      | .ok (.failure false) => Node.findIndexInChildren hash number predicate cs (i + 1)
end

end Node

abbrev TreeCall (H N V E : Type) := Call (Error E) (ForkTree H N V)

section Tree

/-- `is_descendent_of(a, b)?`, its error lifted by `From<E>`. -/
def descends (a b : H) : TreeCall H N V E Bool :=
  Dispatch.ofExcept ((isDescendentOf a b).mapError Error.client)

/-- The check that opens `import` and every finalization: nothing at or below
the best finalized number. -/
def checkRevert (number : N) : TreeCall H N V E Unit := do
  let t ← get
  match t.bestFinalizedNumber with
  | some best => ensure (¬ number ≤ best) .revert
  | none => pure ()

/-- `ForkTree::rebalance`: the roots deepest first, each rebalanced. -/
def rebalance : TreeCall H N V E Unit :=
  modify fun (t : ForkTree H N V) => { t with roots := (byDepth t.roots).map Node.rebalance }

/-- The loop of `ForkTree::import` over the roots: as `Node.importChildren`,
after a check of each root's hash that `Node::import` makes again. -/
def importRoots (hash : H) (number : N) (data : V) :
    List (Node H N V) → Except (Error E) Bool × List (Node H N V)
  | [] => (.ok false, [])
  | root :: roots =>
      if root.hash = hash then (.error .duplicate, root :: roots)
      else
        match root.import isDescendentOf hash number data with
        | (.ok false, root) =>
            let (result, roots) := importRoots hash number data roots
            (result, root :: roots)
        | (result, root) => (result, root :: roots)

/-- `ForkTree::import`: `true` when the block becomes a new root. -/
def ForkTree.import (hash : H) (number : N) (data : V) : TreeCall H N V E Bool := do
  checkRevert number
  let t ← get
  let (result, roots) := importRoots isDescendentOf hash number data t.roots
  set { t with roots }
  match result with
  | .error e => fail e
  | .ok true =>
      rebalance
      pure false
  | .ok false =>
      modify fun (t : ForkTree H N V) => { t with roots := t.roots ++ [⟨hash, number, data, []⟩] }
      rebalance
      pure true

/-- `finalize_root_at`: the root becomes the last finalized block and its
children the roots. -/
def finalizeRootAt (position : ℕ) : TreeCall H N V E V := do
  let t ← get
  -- `swap_remove(position)`, which panics out of range; the other roots go
  -- with the vector that `node.children` replaces
  let node ← unwrap t.roots[position]?
  set { t with roots := node.children, bestFinalizedNumber := some node.number }
  pure node.data

/-- `finalize_root`: finalize the root with this hash, if there is one. -/
def finalizeRoot (hash : H) : TreeCall H N V E (Option V) := do
  let t ← get
  match t.roots.findIdx? fun node => decide (node.hash = hash) with
  | some position => some <$> finalizeRootAt position
  | none => pure none

/-- The loop of `finalize` over the roots: a root below `number` that is an
ancestor of `hash` would be finalized past. -/
def checkRoots (hash : H) (number : N) : List (Node H N V) → TreeCall H N V E Unit
  | [] => pure ()
  | root :: roots => do
      if number > root.number then
        if ← descends isDescendentOf root.hash hash then fail .unfinalizedAncestor
      checkRoots hash number roots

/-- The loop of `finalizes_any_with_descendent_if` and
`finalize_with_descendent_if` over a node's children: a child at or below
`number` that is an ancestor of `hash` would be finalized past. -/
def checkChildren (hash : H) (number : N) : List (Node H N V) → TreeCall H N V E Unit
  | [] => pure ()
  | node :: nodes => do
      if node.number ≤ number then
        if ← descends isDescendentOf node.hash hash then fail .unfinalizedAncestor
      checkChildren hash number nodes

/-- The search of `finalizes_any_with_descendent_if` (over every node in
pre-order) and of `finalize_with_descendent_if` (over the roots): the first
node that passes `predicate` and is `hash` or an ancestor of it, with its
position, once its children are checked. -/
def findPassing (hash : H) (number : N) (predicate : V → Bool) :
    List (Node H N V) → TreeCall H N V E (Option (ℕ × Node H N V))
  | [] => pure none
  | node :: nodes => do
      if predicate node.data then
        let found ← if node.hash = hash then pure true else descends isDescendentOf node.hash hash
        if found then
          checkChildren isDescendentOf hash number node.children
          return some (0, node)
      let rest ← findPassing hash number predicate nodes
      pure (rest.map fun (i, node) => (i + 1, node))

/-- The loop that puts back the roots `keep` accepts once `mem::take` has
emptied the tree's roots; `true` when one was dropped. An error of `keep`
ends it, and the roots not yet walked are gone. -/
def retainRoots (keep : Node H N V → TreeCall H N V E Bool) :
    List (Node H N V) → Bool → TreeCall H N V E Bool
  | [], changed => pure changed
  | root :: roots, changed => do
      if ← keep root then
        modify fun (t : ForkTree H N V) => { t with roots := t.roots ++ [root] }
        retainRoots keep roots changed
      else retainRoots keep roots true

/-- The end of `finalize` and `finalize_with_descendent_if`: `mem::take` of the
roots, the loop that puts back those `keep` accepts, and `number` as the best
finalized number; `true` when a root was dropped. -/
def retainAndFinalize (number : N) (keep : Node H N V → TreeCall H N V E Bool) :
    TreeCall H N V E Bool := do
  let t ← get
  -- `mem::take(&mut self.roots)`: the roots not yet walked are lost on an error
  set ({ t with roots := [] } : ForkTree H N V)
  let changed ← retainRoots keep t.roots false
  modify fun (t : ForkTree H N V) => { t with bestFinalizedNumber := some number }
  pure changed

/-- `finalize`. -/
def finalize (hash : H) (number : N) : TreeCall H N V E (FinalizationResult V) := do
  checkRevert number
  match ← finalizeRoot hash with
  | some root => pure (.changed (some root))
  | none =>
      let t ← get
      checkRoots isDescendentOf hash number t.roots
      let changed ← retainAndFinalize number fun root =>
        if root.number > number then descends isDescendentOf hash root.hash else pure false
      pure (if changed then .changed none else .unchanged)

/-- How the loop of `finalize_with_ancestors` ends: at the root with the
finalized hash, after the last root, or at an error of the client. -/
inductive LoopEnd (E : Type) where
  | finalized (idx : ℕ)
  | done (changed : Bool)
  | error (e : Error E)

/-- The `while` loop of `finalize_with_ancestors` over the roots from `idx`:
a root that descends from the block stays, an ancestor is opened into its
children, and any other root is removed, each by `swap_remove`. -/
def ancestorsLoop (hash : H) (number : N) (roots : List (Node H N V)) (idx : ℕ)
    (changed : Bool) : LoopEnd E × List (Node H N V) :=
  if hidx : idx < roots.length then
    let root := roots[idx]
    if root.hash = hash then (.finalized idx, roots)
    else
      match (if root.number > number then isDescendentOf hash root.hash else .ok false) with
      | .error e => (.error (.client e), roots)
      | .ok true => ancestorsLoop hash number roots (idx + 1) changed
      | .ok false =>
          match (if root.number < number then isDescendentOf root.hash hash else .ok false) with
          | .error e => (.error (.client e), roots)
          | .ok true => ancestorsLoop hash number (swapRemove roots idx ++ root.children) idx true
          | .ok false => ancestorsLoop hash number (swapRemove roots idx) idx true
  else (.done changed, roots)
termination_by (Node.forestSize roots, roots.length - idx)
decreasing_by
  · exact Prod.Lex.right _ (by omega)
  · have h := forestSize_swapRemove hidx
    have hsize : (roots[idx]).size = Node.forestSize (roots[idx]).children + 1 := by
      cases roots[idx]
      rfl
    refine Prod.Lex.left _ _ ?_
    rw [forestSize_append]
    omega
  · have h := forestSize_swapRemove hidx
    have hsize : 0 < (roots[idx]).size := by
      cases roots[idx]
      simp [Node.size]
    exact Prod.Lex.left _ _ (by omega)

/-- `finalize_with_ancestors`: finalize a block and every pending ancestor of
it. -/
def finalizeWithAncestors (hash : H) (number : N) : TreeCall H N V E (FinalizationResult V) := do
  checkRevert number
  match ← finalizeRoot hash with
  | some root => pure (.changed (some root))
  | none =>
      let t ← get
      let (loopEnd, roots) := ancestorsLoop isDescendentOf hash number t.roots 0 false
      set { t with roots }
      match loopEnd with
      | .finalized idx => pure (.changed (some (← finalizeRootAt idx)))
      | .error e => fail e
      | .done changed =>
          modify fun (t : ForkTree H N V) => { t with bestFinalizedNumber := some number }
          pure (if changed then .changed none else .unchanged)

/-- `finalizes_any_with_descendent_if`: whether finalizing the block would
finalize a node that passes `predicate`, and that node is a root; the tree is
only read. -/
def finalizesAnyWithDescendentIf (hash : H) (number : N) (predicate : V → Bool) :
    TreeCall H N V E (Option Bool) := do
  checkRevert number
  let t ← get
  match ← findPassing isDescendentOf hash number predicate (Node.preorderAll t.roots) with
  | some (_, node) => pure (some (t.roots.any fun root => decide (root.hash = node.hash)))
  | none => pure none

/-- `finalize_with_descendent_if`: finalize the first root that passes
`predicate` and is the block or an ancestor of it, then keep the roots on
the block's branch. -/
def finalizeWithDescendentIf (hash : H) (number : N) (predicate : V → Bool) :
    TreeCall H N V E (FinalizationResult V) := do
  checkRevert number
  let t ← get
  let position ← findPassing isDescendentOf hash number predicate t.roots
  -- the same `swap_remove` and replacement as `finalize_root_at`
  let nodeData ← match position with
    | some (i, _) => some <$> finalizeRootAt i
    | none => pure none
  let changed ← retainAndFinalize number fun root => do
    if root.number > number then
      if ← descends isDescendentOf hash root.hash then return true
    if root.number = number ∧ root.hash = hash then return true
    descends isDescendentOf root.hash hash
  pure <| match nodeData, changed with
    | some data, _ => .changed (some data)
    | none, true => .changed none
    | none, false => .unchanged

/-- `ForkTree::find_node_index_where`: the path, leaf first and root index
last, to the first node found under a root. -/
def findNodeIndexWhere (hash : H) (number : N) (predicate : V → Bool) :
    List (Node H N V) → ℕ → Except (Error E) (Option (List ℕ))
  | [], _ => .ok none
  | root :: roots, index =>
      match root.findNodeIndexWhere isDescendentOf hash number predicate with
      | .error e => .error e
      | .ok (.found node) => .ok (some (node ++ [index]))
      | .ok _ => findNodeIndexWhere hash number predicate roots (index + 1)

/-- The walk of `find_node_where` down a path, root side first:
`cur = &cur.children[i]` for each index, `none` where one is out of range and
the source panics. -/
def Node.walk : Node H N V → List ℕ → Option (Node H N V)
  | x, [] => some x
  | x, i :: path => x.children[i]?.bind fun c => c.walk path

/-- `Node::find_node_where`: the search, then the walk down the indices it
returned, popped from the back of the path. -/
def Node.findNodeWhere (hash : H) (number : N) (predicate : V → Bool) (x : Node H N V) :
    TreeCall H N V E (FindOutcome (Node H N V)) := do
  match ← ofExcept (x.findNodeIndexWhere isDescendentOf hash number predicate) with
  | .abort => pure .abort
  | .failure f => pure (.failure f)
  | .found indexes => FindOutcome.found <$> unwrap (x.walk indexes.reverse)

/-- The loop of `ForkTree::find_node_where` over the roots: the first node
found under one. -/
def findNodeWhereIn (hash : H) (number : N) (predicate : V → Bool) :
    List (Node H N V) → TreeCall H N V E (Option (Node H N V))
  | [] => pure none
  | root :: roots => do
      match ← root.findNodeWhere isDescendentOf hash number predicate with
      | .found node => pure (some node)
      | _ => findNodeWhereIn hash number predicate roots

/-- `ForkTree::find_node_where`. -/
def findNodeWhere (hash : H) (number : N) (predicate : V → Bool) :
    TreeCall H N V E (Option (Node H N V)) := do
  let t ← get
  findNodeWhereIn isDescendentOf hash number predicate t.roots

/-- `ForkTree::find_node_where_mut`: the body of `find_node_where` again,
over mutable references, which a value of the tree does not tell apart. -/
def findNodeWhereMut (hash : H) (number : N) (predicate : V → Bool) :
    TreeCall H N V E (Option (Node H N V)) :=
  findNodeWhere isDescendentOf hash number predicate

/-- The walk of `prune` down a path, root index first: the node at its end,
taken out of its parent's children with `Vec::remove`, and the forest left. -/
def removeAt : List ℕ → List (Node H N V) → Option (Node H N V × List (Node H N V))
  | [], _ => none
  | [i], nodes =>
      match nodes[i]? with
      | some node => some (node, nodes.eraseIdx i)
      | none => none
  | i :: path, nodes =>
      match nodes[i]? with
      | some node =>
          (removeAt path node.children).map fun (found, children) =>
            (found, nodes.set i { node with children })
      | none => none

/-- The loop of `prune` over the new root's children: the first that is the
block, or an ancestor of it below `number`, stays; every other one is
removed. -/
def pruneChildren (hash : H) (number : N) :
    List (Node H N V) → List (Node H N V) → List (Node H N V) → Bool →
      TreeCall H N V E (List (Node H N V) × List (Node H N V))
  | [], kept, removed, _ => pure (kept, removed)
  | child :: children, kept, removed, isFirst => do
      let keep ←
        if isFirst then
          if child.number = number ∧ child.hash = hash then pure true
          else if child.number < number then descends isDescendentOf child.hash hash
          else pure false
        else pure false
      if keep then pruneChildren hash number children (kept ++ [child]) removed false
      else pruneChildren hash number children kept (removed ++ [child]) isFirst

/-- `prune`: the node found for the block becomes the only root, with at most
the one child on the block's branch; what is removed is returned as
`RemovedIterator` yields it. -/
def prune (hash : H) (number : N) (predicate : V → Bool) :
    TreeCall H N V E (List (H × N × V)) := do
  let t ← get
  let newRootIndex ← ofExcept (findNodeIndexWhere isDescendentOf hash number predicate t.roots 0)
  let removed ← match newRootIndex with
    | some rootIndex => do
        -- `mem::take(&mut self.roots)`: the roots stay out of the tree on an error
        set ({ t with roots := [] } : ForkTree H N V)
        -- `pop` walks the path from its root index; `expect` when it is empty
        let (root, removed) ← unwrap (removeAt rootIndex.reverse t.roots)
        let (kept, removed) ← pruneChildren isDescendentOf hash number root.children [] removed true
        modify fun (t : ForkTree H N V) => { t with roots := [{ root with children := kept }] }
        pure removed
    | none => pure []
  rebalance
  pure (removedItems removed)

end Tree

end SocialNetwork.Fork
