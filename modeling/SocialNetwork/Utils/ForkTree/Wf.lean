import SocialNetwork.Utils.ForkTree.Spec
import SocialNetwork.Lib.Ancestry

/-!
# The shape the fork tree keeps

With a client that answers `is_descendent_of` from an `Ancestry` (a tree of
blocks whose heights grow along descent), the fork tree keeps its nodes as
the blocks keep them: a node's number is its block's height, its children
descend from it, and siblings (the roots, or the children of one node) are
pairwise `Incomparable`. `Node.Wf` says it of one node, `Siblings` of a list,
and `Siblings.nodup_hashes` draws from it that no two nodes share a hash.

`import` keeps this when no block in the tree descends from the one imported
(`wp_import_wf`): a node takes the block only as a descendant, and a new leaf
or root is incomparable with the siblings that did not take it. The
finalizations and `prune` keep it for any client, however they end: they drop
roots, make one node's children the roots, or open a root into its children
(`Siblings.eraseIdx_append_children`). `TreeStep` is one call; `wf_of_reachable`
carries the invariant over every run from `ForkTree::new`.
-/

namespace SocialNetwork.Fork

open Dispatch

variable {H N V E : Type} [LinearOrder N]

section Shape

variable (A : Ancestry H N)

/-- The client's `is_descendent_of` when it answers from the ancestry `A` and
never fails. -/
def ancestryOracle : H → H → Except E Bool := fun a b => .ok (A.desc a b)

/-- A node as the tree keeps it: its number is its block's height, and its
children descend from it, are pairwise incomparable, and are kept so in turn. -/
inductive Node.Wf : Node H N V → Prop
  | mk {hash : H} {number : N} {data : V} {children : List (Node H N V)} :
      number = A.height hash →
      (∀ c ∈ children, A.desc hash c.hash = true) →
      children.Pairwise (fun a b => A.Incomparable a.hash b.hash) →
      (∀ c ∈ children, Node.Wf c) →
      Node.Wf ⟨hash, number, data, children⟩

/-- A list of siblings as the tree keeps it: the roots, or a node's children. -/
structure Siblings (nodes : List (Node H N V)) : Prop where
  incomparable : nodes.Pairwise fun a b => A.Incomparable a.hash b.hash
  wf : ∀ n ∈ nodes, n.Wf A

def ForkTree.Wf (t : ForkTree H N V) : Prop := Siblings A t.roots

variable {A} {x c m : Node H N V} {l l' : List (Node H N V)}

theorem Node.Wf.number_eq (h : x.Wf A) : x.number = A.height x.hash := by
  cases h with
  | mk hnumber _ _ _ => exact hnumber

theorem Node.Wf.desc_child (h : x.Wf A) (hc : c ∈ x.children) : A.desc x.hash c.hash = true := by
  cases h with
  | mk _ hdesc _ _ => exact hdesc c hc

theorem Node.Wf.siblings (h : x.Wf A) : Siblings A x.children := by
  cases h with
  | mk _ _ hpair hwf => exact ⟨hpair, hwf⟩

theorem Node.Wf.intro {hash : H} {number : N} {data : V} {children : List (Node H N V)}
    (hnumber : number = A.height hash) (hdesc : ∀ c ∈ children, A.desc hash c.hash = true)
    (hsib : Siblings A children) : (Node.mk hash number data children).Wf A :=
  .mk hnumber hdesc hsib.incomparable hsib.wf

/-- Every node of a well-formed subtree is well formed, and is its root's
block or below it. -/
theorem Node.Wf.of_mem_preorder (h : x.Wf A) (hm : m ∈ x.preorder) :
    m.Wf A ∧ A.Below x.hash m.hash := by
  induction h with
  | mk hnumber hdesc hpair hwf ih =>
      rw [Node.preorder_eq] at hm
      rcases List.mem_cons.1 hm with rfl | hm
      · exact ⟨.mk hnumber hdesc hpair hwf, Ancestry.below_refl _⟩
      · -- below a child, which descends from the node
        obtain ⟨c, hc, hmc⟩ := Node.mem_preorderAll.1 hm
        obtain ⟨hmwf, hbelow⟩ := ih c hc hmc
        exact ⟨hmwf, .inr (Ancestry.desc_of_desc_of_below (hdesc c hc) hbelow)⟩

theorem Siblings.nil : Siblings A ([] : List (Node H N V)) :=
  ⟨List.Pairwise.nil, fun _ h => absurd h List.not_mem_nil⟩

theorem Siblings.sublist (h : Siblings A l) (hs : l'.Sublist l) : Siblings A l' :=
  ⟨h.incomparable.sublist hs, fun n hn => h.wf n (hs.subset hn)⟩

theorem Siblings.perm (h : Siblings A l) (hp : l.Perm l') : Siblings A l' :=
  ⟨(hp.pairwise_iff fun hab => hab.symm).1 h.incomparable, fun n hn => h.wf n (hp.mem_iff.2 hn)⟩

theorem Siblings.append (h : Siblings A l) (h' : Siblings A l')
    (hcross : ∀ a ∈ l, ∀ b ∈ l', A.Incomparable a.hash b.hash) : Siblings A (l ++ l') := by
  refine ⟨List.pairwise_append.2 ⟨h.incomparable, h'.incomparable, hcross⟩, fun n hn => ?_⟩
  rcases List.mem_append.1 hn with hn | hn
  · exact h.wf n hn
  · exact h'.wf n hn

theorem Siblings.singleton (h : x.Wf A) : Siblings A [x] :=
  ⟨List.pairwise_singleton _ _, fun n hn => by rw [List.mem_singleton.1 hn]; exact h⟩

/-- Siblings are incomparable by their hashes only: nodes with the same hashes
in the same order, each well formed, are siblings too. -/
theorem Siblings.of_map_hash (h : Siblings A l) (hmap : l'.map Node.hash = l.map Node.hash)
    (hwf : ∀ n ∈ l', n.Wf A) : Siblings A l' := by
  have hpair := h.incomparable
  rw [← List.pairwise_map (R := fun a b => A.Incomparable a b), ← hmap] at hpair
  exact ⟨List.pairwise_map.1 hpair, hwf⟩

/-- A root replaced by its children, as `finalize_with_ancestors` opens an
ancestor of the finalized block: each child descends from the root, so it is
incomparable with the root's siblings. -/
theorem Siblings.eraseIdx_append_children (h : Siblings A l) {i : ℕ} (hi : i < l.length) :
    Siblings A (l.eraseIdx i ++ l[i].children) := by
  have hroot := h.wf _ (List.getElem_mem hi)
  refine (h.sublist (List.eraseIdx_sublist l i)).append hroot.siblings fun a ha b hb => ?_
  obtain ⟨j, hj, hji, rfl⟩ := List.mem_eraseIdx_iff_getElem.1 ha
  have hpair : A.Incomparable l[i].hash l[j].hash := by
    rcases Nat.lt_or_gt_of_ne hji with hlt | hlt
    · exact (List.pairwise_iff_getElem.1 h.incomparable j i hj hi hlt).symm
    · exact List.pairwise_iff_getElem.1 h.incomparable i j hi hj hlt
  exact (hpair.of_desc (hroot.desc_child hb)).symm

/-- The hashes under pairwise incomparable well-formed subtrees are distinct,
when those under each subtree are: incomparable blocks have no common
descendant. -/
theorem nodup_hashes_preorderAll (hpair : l.Pairwise fun a b => A.Incomparable a.hash b.hash)
    (hwf : ∀ x ∈ l, x.Wf A) (hnodup : ∀ x ∈ l, (x.preorder.map Node.hash).Nodup) :
    ((Node.preorderAll l).map Node.hash).Nodup := by
  induction l with
  | nil => simp
  | cons x xs ih =>
      rw [List.pairwise_cons] at hpair
      have hxs := ih hpair.2 (fun y hy => hwf y (List.mem_cons_of_mem _ hy))
        (fun y hy => hnodup y (List.mem_cons_of_mem _ hy))
      simp only [Node.preorderAll_cons, List.map_append]
      refine List.nodup_append.2 ⟨hnodup x List.mem_cons_self, hxs, ?_⟩
      rintro _ ha _ hb rfl
      obtain ⟨m, hm, hmhash⟩ := List.mem_map.1 ha
      obtain ⟨m', hm', hm'hash⟩ := List.mem_map.1 hb
      obtain ⟨y, hy, hm'y⟩ := Node.mem_preorderAll.1 hm'
      have hbelow := ((hwf x List.mem_cons_self).of_mem_preorder hm).2
      have hbelow' := ((hwf y (List.mem_cons_of_mem _ hy)).of_mem_preorder hm'y).2
      rw [hm'hash, ← hmhash] at hbelow'
      exact (hpair.1 y hy).not_below_both hbelow hbelow'

theorem Node.Wf.nodup_hashes (h : x.Wf A) : (x.preorder.map Node.hash).Nodup := by
  induction h with
  | mk hnumber hdesc hpair hwf ih =>
      rw [Node.preorder_eq, List.map_cons]
      refine List.nodup_cons.2 ⟨fun hmem => ?_, nodup_hashes_preorderAll hpair hwf ih⟩
      obtain ⟨m, hm, hmhash⟩ := List.mem_map.1 hmem
      obtain ⟨c, hc, hmc⟩ := Node.mem_preorderAll.1 hm
      have hbelow := ((hwf c hc).of_mem_preorder hmc).2
      have hdescm := Ancestry.desc_of_desc_of_below (hdesc c hc) hbelow
      rw [hmhash] at hdescm
      exact absurd hdescm (by simp [Ancestry.desc_irrefl])

theorem Siblings.nodup_hashes (h : Siblings A l) : ((Node.preorderAll l).map Node.hash).Nodup :=
  nodup_hashes_preorderAll h.incomparable h.wf fun x hx => (h.wf x hx).nodup_hashes

theorem Siblings.wf_of_mem_preorderAll (h : Siblings A l) (hm : m ∈ Node.preorderAll l) :
    m.Wf A := by
  obtain ⟨x, hx, hmx⟩ := Node.mem_preorderAll.1 hm
  exact ((h.wf x hx).of_mem_preorder hmx).1

end Shape

section Rebalance

variable {A : Ancestry H N} {x : Node H N V} {l : List (Node H N V)}

omit [LinearOrder N] in
theorem Node.rebalance_eq (x : Node H N V) :
    x.rebalance = ⟨x.hash, x.number, x.data, (byDepth x.children).map Node.rebalance⟩ := by
  obtain ⟨h, n, d, children⟩ := x
  rw [Node.rebalance]
  simp

omit [LinearOrder N] in
@[simp] theorem Node.rebalance_hash (x : Node H N V) : x.rebalance.hash = x.hash := by
  rw [Node.rebalance_eq]

theorem Siblings.byDepth_map (h : Siblings A l) (hwf : ∀ x ∈ l, x.rebalance.Wf A) :
    Siblings A ((byDepth l).map Node.rebalance) := by
  have hperm : (byDepth l).Perm l := List.mergeSort_perm _ _
  refine (h.perm hperm.symm).of_map_hash (by simp [Function.comp_def]) fun n hn => ?_
  obtain ⟨x, hx, rfl⟩ := List.mem_map.1 hn
  exact hwf x (hperm.mem_iff.1 hx)

theorem Node.Wf.rebalance (h : x.Wf A) : x.rebalance.Wf A := by
  induction h with
  | mk hnumber hdesc hpair hwf ih =>
      rw [Node.rebalance_eq]
      refine Node.Wf.intro hnumber (fun c hc => ?_) (Siblings.byDepth_map ⟨hpair, hwf⟩ ih)
      obtain ⟨c₀, hc₀, rfl⟩ := List.mem_map.1 hc
      rw [Node.rebalance_hash]
      exact hdesc c₀ ((List.mergeSort_perm _ _).mem_iff.1 hc₀)

theorem Siblings.rebalance (h : Siblings A l) : Siblings A ((byDepth l).map Node.rebalance) :=
  h.byDepth_map fun x hx => (h.wf x hx).rebalance

theorem wp_rebalance_wf {R : Error E → ForkTree H N V → Prop} {t : ForkTree H N V}
    (ht : t.Wf A) : Wp (rebalance : TreeCall H N V E Unit) (fun _ t' => t'.Wf A) R t :=
  Siblings.rebalance ht

end Rebalance

section Import

/-! `import` with the ancestry's answers, for a block none of whose
descendants is in the tree yet. The number of the block is its height. -/

variable [DecidableEq H] {A : Ancestry H N} (hash : H) (data : V)

/-- A well-formed node that does not take the block is neither the block nor
an ancestor of it. -/
theorem Node.Wf.of_import_not_taken {x : Node H N V} (hwf : x.Wf A)
    (hr : (x.import (ancestryOracle (E := E) A) hash (A.height hash) data).1 = .ok false) :
    x.hash ≠ hash ∧ A.desc x.hash hash = false := by
  obtain ⟨h, n, d, children⟩ := x
  unfold Node.import at hr
  split_ifs at hr with hh hn
  · -- the block is no higher than the node: it cannot descend from it
    refine ⟨hh, Bool.eq_false_iff.2 fun hdesc => ?_⟩
    have := A.height_lt hdesc
    rw [← hwf.number_eq] at this
    exact absurd hn (not_le.2 this)
  · -- otherwise the client said no
    rcases hc : Node.importChildren (ancestryOracle A) hash (A.height hash) data children with
      ⟨r, children'⟩
    rw [hc] at hr
    rcases r with e | _ | _
    · simp at hr
    · cases hdesc : A.desc h hash
      · exact ⟨hh, rfl⟩
      · simp [ancestryOracle, hdesc] at hr
    · simp at hr

theorem Node.Wf.of_importChildren_not_taken {cs : List (Node H N V)} (hwf : ∀ c ∈ cs, c.Wf A)
    (hr : (Node.importChildren (ancestryOracle (E := E) A) hash (A.height hash) data cs).1 =
      .ok false) :
    ∀ c ∈ cs, c.hash ≠ hash ∧ A.desc c.hash hash = false := by
  induction cs with
  | nil => exact fun _ hc => absurd hc List.not_mem_nil
  | cons c cs ih =>
      unfold Node.importChildren at hr
      rcases hi : c.import (ancestryOracle A) hash (A.height hash) data with ⟨r, c'⟩
      rw [hi] at hr
      rcases r with e | _ | _
      · simp at hr
      · -- `c` did not take it, and neither did the rest
        have hc := (hwf c List.mem_cons_self).of_import_not_taken hash data (by rw [hi])
        have hcs := ih (fun y hy => hwf y (List.mem_cons_of_mem _ hy)) hr
        intro y hy
        rcases List.mem_cons.1 hy with rfl | hy
        · exact hc
        · exact hcs y hy
      · simp at hr

omit [DecidableEq H] in
/-- Nodes with the hashes of well-formed children of `h` are children of `h`
too. -/
theorem desc_of_map_hash {h : H} {l l' : List (Node H N V)}
    (hdesc : ∀ c ∈ l, A.desc h c.hash = true) (hmap : l'.map Node.hash = l.map Node.hash)
    {c : Node H N V} (hc : c ∈ l') : A.desc h c.hash = true := by
  have hmem : c.hash ∈ l.map Node.hash := hmap ▸ List.mem_map_of_mem hc
  obtain ⟨c₀, hc₀, hhash⟩ := List.mem_map.1 hmem
  rw [← hhash]
  exact hdesc c₀ hc₀

omit [DecidableEq H] in
theorem Node.Wf.leaf : (Node.mk hash (A.height hash) data []).Wf A :=
  Node.Wf.intro rfl (fun _ h => absurd h List.not_mem_nil) Siblings.nil

mutual
/-- A well-formed node that takes a block with no descendant below it stays
well formed, and keeps its hash. -/
theorem Node.Wf.of_import_taken : ∀ (x : Node H N V), x.Wf A →
    (∀ m ∈ x.preorder, A.desc hash m.hash = false) →
    (x.import (ancestryOracle (E := E) A) hash (A.height hash) data).1 = .ok true →
      (x.import (ancestryOracle (E := E) A) hash (A.height hash) data).2.Wf A ∧
        (x.import (ancestryOracle (E := E) A) hash (A.height hash) data).2.hash = x.hash
  | ⟨h, n, d, children⟩, hwf, hfresh, hr => by
      unfold Node.import at hr ⊢
      split_ifs at hr ⊢ with hh hn
      · simp at hr
      have hsib := hwf.siblings
      have hfreshc : ∀ m ∈ Node.preorderAll children, A.desc hash m.hash = false :=
        fun m hm => hfresh m (by rw [Node.preorder_eq]; exact List.mem_cons_of_mem _ hm)
      have hnotTaken := Node.importChildren_of_not_taken (ancestryOracle (E := E) A) hash
        (A.height hash) data children
      have hnot := Node.Wf.of_importChildren_not_taken (E := E) hash data hsib.wf
      have htaken := Node.Wf.of_importChildren_taken children hsib.wf hfreshc
      generalize Node.importChildren (ancestryOracle A) hash (A.height hash) data children = res
        at hr hnotTaken hnot htaken ⊢
      obtain ⟨r, children'⟩ := res
      rcases r with e | _ | _
      · simp at hr
      · -- no child took it: the node takes it as a new last child
        have hsame : children' = children := hnotTaken (by simp)
        have hchildren := hnot rfl
        subst hsame
        cases hdesc : A.desc h hash
        · simp [ancestryOracle, hdesc] at hr
        · simp only [ancestryOracle, hdesc, and_true]
          refine Node.Wf.intro hwf.number_eq (fun c hc' => ?_) ?_
          · rcases List.mem_append.1 hc' with hc' | hc'
            · exact hwf.desc_child hc'
            · rw [List.mem_singleton.1 hc']
              exact hdesc
          · -- the leaf is incomparable with every child that did not take it
            refine hsib.append (Siblings.singleton (Node.Wf.leaf hash data)) fun a ha b hb => ?_
            rw [List.mem_singleton.1 hb]
            obtain ⟨hne, hnd⟩ := hchildren a ha
            exact ⟨hne, hnd, hfreshc a (Node.mem_preorderAll_of_mem ha)⟩
      · -- a child took it, and kept its hash
        obtain ⟨hwf', hmap⟩ := htaken rfl
        exact ⟨Node.Wf.intro hwf.number_eq (fun c hc' => desc_of_map_hash
          (fun c hc => hwf.desc_child hc) hmap hc') (hsib.of_map_hash hmap hwf'), rfl⟩
termination_by structural x => x

theorem Node.Wf.of_importChildren_taken : ∀ (cs : List (Node H N V)), (∀ c ∈ cs, c.Wf A) →
    (∀ m ∈ Node.preorderAll cs, A.desc hash m.hash = false) →
    (Node.importChildren (ancestryOracle (E := E) A) hash (A.height hash) data cs).1 = .ok true →
      (∀ c ∈ (Node.importChildren (ancestryOracle (E := E) A) hash (A.height hash) data cs).2,
          c.Wf A) ∧
        (Node.importChildren (ancestryOracle (E := E) A) hash (A.height hash) data cs).2.map
          Node.hash = cs.map Node.hash
  | [], _, _, hr => by simp [Node.importChildren] at hr
  | c :: cs, hwf, hfresh, hr => by
      unfold Node.importChildren at hr ⊢
      have hfreshc : ∀ m ∈ c.preorder, A.desc hash m.hash = false :=
        fun m hm => hfresh m (by simp [hm])
      have hfreshcs : ∀ m ∈ Node.preorderAll cs, A.desc hash m.hash = false :=
        fun m hm => hfresh m (by simp [hm])
      have hnotTaken := Node.import_of_not_taken (ancestryOracle (E := E) A) hash
        (A.height hash) data c
      have htaken := Node.Wf.of_import_taken c (hwf c List.mem_cons_self) hfreshc
      generalize c.import (ancestryOracle A) hash (A.height hash) data = res
        at hr hnotTaken htaken ⊢
      obtain ⟨r, c'⟩ := res
      rcases r with e | _ | _
      · simp at hr
      · -- `c` stays as it was, and a later child took the block
        have hsame : c' = c := hnotTaken (by simp)
        subst hsame
        have htakenRest := Node.Wf.of_importChildren_taken cs
          (fun y hy => hwf y (List.mem_cons_of_mem _ hy)) hfreshcs
        generalize Node.importChildren (ancestryOracle A) hash (A.height hash) data cs = rest
          at hr htakenRest ⊢
        obtain ⟨r', cs'⟩ := rest
        obtain ⟨hwf', hmap⟩ := htakenRest hr
        refine ⟨fun y hy => ?_, by simp [hmap]⟩
        rcases List.mem_cons.1 hy with rfl | hy
        · exact hwf y List.mem_cons_self
        · exact hwf' y hy
      · -- `c` took the block
        obtain ⟨hwf', hhash⟩ := htaken rfl
        refine ⟨fun y hy => ?_, by simpa using hhash⟩
        rcases List.mem_cons.1 hy with rfl | hy
        · exact hwf'
        · exact hwf y (List.mem_cons_of_mem _ hy)
termination_by structural cs => cs
end

/-- `ForkTree::import` keeps the tree well formed, however it ends, for a block
of which the tree holds no descendant. -/
theorem wp_import_wf {t : ForkTree H N V} (ht : t.Wf A)
    (hfresh : ∀ m ∈ Node.preorderAll t.roots, A.desc hash m.hash = false) :
    Wp (ForkTree.import (ancestryOracle (E := E) A) hash (A.height hash) data)
      (fun _ t' => t'.Wf A) (fun _ t' => t'.Wf A) t := by
  unfold ForkTree.import
  refine wp_bind_of_keeps keeps_checkRevert (fun _ => ?_) (fun _ => ht)
  simp only [wp_bind, wp_get]
  rw [importRoots_eq_importChildren]
  have hnotTaken := Node.importChildren_of_not_taken (ancestryOracle (E := E) A) hash
    (A.height hash) data t.roots
  have hnot := Node.Wf.of_importChildren_not_taken (E := E) hash data ht.wf
  have htaken := Node.Wf.of_importChildren_taken (E := E) hash data t.roots ht.wf hfresh
  generalize Node.importChildren (ancestryOracle A) hash (A.height hash) data t.roots = res
    at hnotTaken hnot htaken ⊢
  obtain ⟨r, roots'⟩ := res
  rcases r with e | _ | _
  · -- an error leaves the roots as they were
    have hsame : roots' = t.roots := hnotTaken (by simp)
    simp only [wp_set, wp_fail, hsame]
    exact ht
  · -- no root took it: a new root, incomparable with every other
    have hsame : roots' = t.roots := hnotTaken (by simp)
    have hroots := hnot rfl
    subst hsame
    simp only [wp_set, wp_bind, wp_modify]
    refine wp_rebalance_wf (ht.append (Siblings.singleton (Node.Wf.leaf hash data)) fun a ha b hb => ?_)
    rw [List.mem_singleton.1 hb]
    obtain ⟨hne, hnd⟩ := hroots a ha
    exact ⟨hne, hnd, hfresh a (Node.mem_preorderAll_of_mem ha)⟩
  · -- a root took it below, and kept its hash
    obtain ⟨hwf', hmap⟩ := htaken rfl
    simp only [wp_set, wp_bind]
    exact wp_rebalance_wf (ht.of_map_hash hmap hwf')

end Import

section Finalize

/-! The finalizations keep the tree well formed for any client, even one that
fails: they only drop roots, replace the roots by one root's children, or
open a root into its children. -/

variable [DecidableEq H] {A : Ancestry H N} (isDescendentOf : H → H → Except E Bool)
  {hash : H} {number : N} {t : ForkTree H N V}

omit [DecidableEq H] in
theorem wp_finalizeRootAt_wf (ht : t.Wf A) (position : ℕ) :
    Wp (finalizeRootAt position : TreeCall H N V E V) (fun _ t' => t'.Wf A)
      (fun _ t' => t'.Wf A) t := by
  refine Wp.mono (wp_finalizeRootAt position t) ?_ (fun _ _ h => h)
  rintro _ _ ⟨node, hnode, -, rfl⟩
  exact (ht.wf node (List.mem_of_getElem? hnode)).siblings

theorem wp_finalizeRoot_wf (ht : t.Wf A) :
    Wp (finalizeRoot hash : TreeCall H N V E (Option V)) (fun _ t' => t'.Wf A)
      (fun _ t' => t'.Wf A) t := by
  refine Wp.mono (wp_finalizeRoot t) ?_ (fun _ _ h => h)
  rintro _ _ (⟨-, rfl, -⟩ | ⟨node, hnode, -, -, rfl⟩)
  · exact ht
  · exact (ht.wf node hnode).siblings

theorem wp_finalize_wf (ht : t.Wf A) :
    Wp (finalize isDescendentOf hash number) (fun _ t' => t'.Wf A) (fun _ t' => t'.Wf A) t := by
  unfold finalize
  refine wp_bind_of_keeps keeps_checkRevert (fun _ => ?_) (fun _ => ht)
  rw [wp_bind]
  refine Wp.mono (wp_finalizeRoot t) (fun r t₁ h₁ => ?_) (fun _ _ h => h)
  rcases h₁ with ⟨rfl, h₁t, -⟩ | ⟨node, hnode, -, rfl, rfl⟩
  · -- no root is the block: the roots on its branch stay
    rw [h₁t]
    simp only [wp_bind, wp_get]
    refine Keeps.wp_of (keeps_checkRoots _) (fun _ => ?_) (fun _ => ht)
    have hkeep : ∀ root : Node H N V, Keeps id (if root.number > number then
        descends isDescendentOf hash root.hash else (pure false : TreeCall H N V E Bool)) :=
      fun _ => keeps_ite (keeps_descends _ _) (keeps_pure _)
    exact Wp.mono (wp_retainAndFinalize hkeep t) (fun _ _ h => ht.sublist h)
      (fun _ _ h => ht.sublist h)
  · exact (ht.wf node hnode).siblings

theorem wp_finalizeWithAncestors_wf (ht : t.Wf A) :
    Wp (finalizeWithAncestors isDescendentOf hash number) (fun _ t' => t'.Wf A)
      (fun _ t' => t'.Wf A) t := by
  unfold finalizeWithAncestors
  refine wp_bind_of_keeps keeps_checkRevert (fun _ => ?_) (fun _ => ht)
  rw [wp_bind]
  refine Wp.mono (wp_finalizeRoot t) (fun r t₁ h₁ => ?_) (fun _ _ h => h)
  rcases h₁ with ⟨rfl, h₁t, -⟩ | ⟨node, hnode, -, rfl, rfl⟩
  · rw [h₁t]
    -- the loop keeps the roots siblings: it removes roots and opens ancestors
    have hloop : Siblings A (ancestorsLoop isDescendentOf hash number t.roots 0 false).2 :=
      ancestorsLoop_induction (Siblings A)
        (fun _ _ hi h => (h.sublist (List.eraseIdx_sublist _ _)).perm (swapRemove_perm hi).symm)
        (fun _ _ hi h => (h.eraseIdx_append_children hi).perm
          ((swapRemove_perm hi).append_right _).symm) _ _ _ ht
    simp only [wp_bind, wp_get]
    generalize ancestorsLoop isDescendentOf hash number t.roots 0 false = res at hloop ⊢
    obtain ⟨loopEnd, roots⟩ := res
    rcases loopEnd with idx | changed | e
    · simp only [wp_set, wp_bind]
      refine wp_finalizeRootAt_wf ?_ idx
      exact hloop
    · simp only [wp_set, wp_bind, wp_modify, wp_pure]
      exact hloop
    · simp only [wp_set, wp_fail]
      exact hloop
  · exact (ht.wf node hnode).siblings

theorem wp_finalizeWithDescendentIf_wf (predicate : V → Bool) (ht : t.Wf A) :
    Wp (finalizeWithDescendentIf isDescendentOf hash number predicate) (fun _ t' => t'.Wf A)
      (fun _ t' => t'.Wf A) t := by
  unfold finalizeWithDescendentIf
  refine wp_bind_of_keeps keeps_checkRevert (fun _ => ?_) (fun _ => ht)
  rw [wp_bind, wp_get]
  refine wp_bind_of_keeps (keeps_findPassing _ _) (fun position => ?_) (fun _ => ht)
  have hkeep : ∀ root : Node H N V, Keeps id (do
      if root.number > number then
        if ← descends isDescendentOf hash root.hash then return true
      if root.number = number ∧ root.hash = hash then return true
      descends isDescendentOf root.hash hash : TreeCall H N V E Bool) := by
    intro root
    dsimp only
    -- the test shared by both branches, the join point of the block
    have hjp : Keeps id (if root.number = number ∧ root.hash = hash then pure true
        else descends isDescendentOf root.hash hash : TreeCall H N V E Bool) :=
      keeps_ite (keeps_pure _) (keeps_descends _ _)
    exact keeps_ite (keeps_bind (keeps_descends _ _) fun _ => keeps_ite (keeps_pure _) hjp) hjp
  rcases position with _ | ⟨i, _⟩
  · simp only [wp_bind, wp_pure]
    exact Wp.mono (wp_retainAndFinalize hkeep t) (fun _ _ h => ht.sublist h)
      (fun _ _ h => ht.sublist h)
  · simp only [wp_bind, wp_map]
    refine Wp.mono (wp_finalizeRootAt_wf ht i) (fun _ t₁ ht₁ => ?_) (fun _ _ h => h)
    exact Wp.mono (wp_retainAndFinalize hkeep t₁) (fun _ _ h => ht₁.sublist h)
      (fun _ _ h => ht₁.sublist h)

omit [DecidableEq H] in
theorem Node.Wf.of_children_sublist {x : Node H N V} (h : x.Wf A) {l : List (Node H N V)}
    (hs : l.Sublist x.children) : { x with children := l }.Wf A :=
  Node.Wf.intro h.number_eq (fun _ hc => h.desc_child (hs.subset hc)) (h.siblings.sublist hs)

theorem wp_prune_wf (predicate : V → Bool) (ht : t.Wf A) :
    Wp (prune isDescendentOf hash number predicate) (fun _ t' => t'.Wf A)
      (fun _ t' => t'.Wf A) t := by
  unfold prune
  rw [wp_bind, wp_get]
  refine wp_ofExcept_bind (fun newRootIndex _ => ?_) (fun _ _ => ht)
  rcases newRootIndex with _ | rootIndex
  · -- nothing found: the tree is only rebalanced
    simp only [wp_bind, wp_pure]
    exact wp_rebalance_wf ht
  · simp only [wp_bind, wp_set]
    rcases hremove : removeAt rootIndex.reverse t.roots with _ | ⟨root, removed⟩
    · simp
    · -- the node found is a node of the tree, and keeps some of its children
      have hroot : root.Wf A := ht.wf_of_mem_preorderAll (mem_preorderAll_of_removeAt hremove)
      simp only [wp_unwrap_some]
      refine Wp.mono (wp_pruneChildren _ _ _ _ _) ?_ (fun _ _ h => h ▸ Siblings.nil)
      rintro ⟨kept, removed'⟩ _ ⟨rfl, l, hs, hkept⟩
      simp only [List.nil_append] at hkept
      subst hkept
      simp only [wp_modify, wp_pure]
      exact wp_rebalance_wf (Siblings.singleton (hroot.of_children_sublist hs))

end Finalize

section Runs

variable [DecidableEq H] (A : Ancestry H N) (E : Type)

/-- One call on the tree, with the client answering from `A`. Blocks are
imported at their height and ancestor first, so that the tree holds no
descendant of the block imported; the finalizations take any block, number
and predicate. A call that fails is a step too, to the tree it leaves. -/
inductive TreeStep : ForkTree H N V → ForkTree H N V → Prop
  | importBlock {t t' : ForkTree H N V} {hash : H} {data : V} :
      (∀ m ∈ Node.preorderAll t.roots, A.desc hash m.hash = false) →
      Leaves (ForkTree.import (ancestryOracle (E := E) A) hash (A.height hash) data) t t' →
      TreeStep t t'
  | finalizeRoot {t t' : ForkTree H N V} {hash : H} :
      Leaves (finalizeRoot (E := E) hash) t t' → TreeStep t t'
  | finalize {t t' : ForkTree H N V} {hash : H} {number : N} :
      Leaves (finalize (ancestryOracle (E := E) A) hash number) t t' → TreeStep t t'
  | finalizeWithAncestors {t t' : ForkTree H N V} {hash : H} {number : N} :
      Leaves (finalizeWithAncestors (ancestryOracle (E := E) A) hash number) t t' → TreeStep t t'
  | finalizeWithDescendentIf {t t' : ForkTree H N V} {hash : H} {number : N}
      {predicate : V → Bool} :
      Leaves (finalizeWithDescendentIf (ancestryOracle (E := E) A) hash number predicate) t t' →
      TreeStep t t'
  | prune {t t' : ForkTree H N V} {hash : H} {number : N} {predicate : V → Bool} :
      Leaves (prune (ancestryOracle (E := E) A) hash number predicate) t t' → TreeStep t t'

variable {A E}

theorem TreeStep.wf {t t' : ForkTree H N V} (h : TreeStep A E t t') (ht : t.Wf A) : t'.Wf A := by
  cases h with
  | importBlock hfresh hl => exact Leaves.of_wp (wp_import_wf _ _ ht hfresh) hl
  | finalizeRoot hl => exact Leaves.of_wp (wp_finalizeRoot_wf ht) hl
  | finalize hl => exact Leaves.of_wp (wp_finalize_wf _ ht) hl
  | finalizeWithAncestors hl => exact Leaves.of_wp (wp_finalizeWithAncestors_wf _ ht) hl
  | finalizeWithDescendentIf hl => exact Leaves.of_wp (wp_finalizeWithDescendentIf_wf _ _ ht) hl
  | prune hl => exact Leaves.of_wp (wp_prune_wf _ _ ht) hl

theorem wf_of_reachable {t : ForkTree H N V}
    (h : Relation.ReflTransGen (TreeStep A E) ForkTree.new t) : t.Wf A := by
  induction h with
  | refl => exact Siblings.nil
  | tail _ hstep ih => exact hstep.wf ih

/-- For every tree reachable from `ForkTree::new` with the client answering
from an ancestry: every child is a strict descendant of its parent, with a
larger number; no two nodes share a hash; and no root, and no child, is an
ancestor or a descendant of one of its siblings. -/
theorem forkTree_wellFormed {t : ForkTree H N V}
    (h : Relation.ReflTransGen (TreeStep A E) ForkTree.new t) :
    (∀ p ∈ Node.preorderAll t.roots, ∀ c ∈ p.children,
        A.desc p.hash c.hash = true ∧ p.number < c.number) ∧
      ((Node.preorderAll t.roots).map Node.hash).Nodup ∧
      (t.roots.Pairwise fun a b => A.desc a.hash b.hash = false ∧ A.desc b.hash a.hash = false) ∧
      ∀ p ∈ Node.preorderAll t.roots,
        p.children.Pairwise fun a b => A.desc a.hash b.hash = false ∧ A.desc b.hash a.hash = false := by
  have ht := wf_of_reachable h
  refine ⟨fun p hp c hc => ?_, ht.nodup_hashes,
    ht.incomparable.imp fun hab => ⟨hab.not_desc, hab.not_desc'⟩, fun p hp => ?_⟩
  · -- a child descends from its parent, and heights grow along descent
    have hp := ht.wf_of_mem_preorderAll hp
    have hdesc := hp.desc_child hc
    refine ⟨hdesc, ?_⟩
    rw [hp.number_eq, (hp.siblings.wf c hc).number_eq]
    exact A.height_lt hdesc
  · exact (ht.wf_of_mem_preorderAll hp).siblings.incomparable.imp
      fun hab => ⟨hab.not_desc, hab.not_desc'⟩

end Runs

def chainAncestry : Ancestry ℕ ℕ where
  desc a b := decide (a < b)
  height := id
  desc_trans := by
    intro a b c hab hbc
    simp only [decide_eq_true_eq] at *
    omega
  ancestors_chain := by
    intro a b c _ _
    simp only [decide_eq_true_eq]
    omega
  height_lt := by
    intro a b hab
    simpa using hab

/-- The tree after blocks `0` and `1` of one chain are imported, parent
first. -/
def chainTree : ForkTree ℕ ℕ Unit := ⟨[⟨0, 0, (), [⟨1, 1, (), []⟩]⟩], none⟩

theorem forkTree_wellFormed_chain :
    (∀ p ∈ Node.preorderAll chainTree.roots, ∀ c ∈ p.children,
        chainAncestry.desc p.hash c.hash = true ∧ p.number < c.number) ∧
      ((Node.preorderAll chainTree.roots).map Node.hash).Nodup ∧
      (chainTree.roots.Pairwise fun a b =>
        chainAncestry.desc a.hash b.hash = false ∧ chainAncestry.desc b.hash a.hash = false) ∧
      ∀ p ∈ Node.preorderAll chainTree.roots, p.children.Pairwise fun a b =>
        chainAncestry.desc a.hash b.hash = false ∧ chainAncestry.desc b.hash a.hash = false := by
  have hfirst : (ForkTree.import (ancestryOracle (E := Unit) chainAncestry) 0
      (chainAncestry.height 0) ()).run ForkTree.new = .ok true ⟨[⟨0, 0, (), []⟩], none⟩ := by
    simp [ForkTree.import, checkRevert, importRoots, rebalance, byDepth, Node.rebalance_eq,
      ForkTree.new, chainAncestry]
  have hsecond : (ForkTree.import (ancestryOracle (E := Unit) chainAncestry) 1
      (chainAncestry.height 1) ()).run ⟨[⟨0, 0, (), []⟩], none⟩ = .ok false chainTree := by
    simp [ForkTree.import, checkRevert, importRoots, Node.import, Node.importChildren,
      ancestryOracle, chainAncestry, rebalance, byDepth, Node.rebalance_eq, chainTree]
  have hstep₁ : TreeStep chainAncestry Unit ForkTree.new ⟨[⟨0, 0, (), []⟩], none⟩ :=
    .importBlock (by simp [ForkTree.new]) (.inl ⟨true, hfirst⟩)
  have hstep₂ : TreeStep chainAncestry Unit ⟨[⟨0, 0, (), []⟩], none⟩ chainTree :=
    .importBlock (by simp [chainAncestry, Node.preorder_eq]) (.inl ⟨false, hsecond⟩)
  exact forkTree_wellFormed (.tail (.single hstep₁) hstep₂)

end SocialNetwork.Fork
