import SocialNetwork.Utils.ForkTree.Import
import SocialNetwork.Utils.ForkTree.Prune

/-!
# The branch of a block in a fork tree

The items of a well-formed tree that are a block or one of its ancestors lie
on one path from a root: at most one root is among them, below it at most
one child, and so on (`Siblings.branch_of_mem`). Read in pre-order they come
root side first, each an ancestor of the next (`Siblings.pairwise_branch`),
so the branch is fixed by which items the tree holds, whatever the order of
siblings (`branch_eq_of_perm`).

`import` of a block that no node descends from adds its item at the end of
the branch of each block it is an ancestor of (`branch_of_placed`).
`finalize_with_descendent_if` of a block keeps, of the roots, those its test
`retains`, and the branch of the block, or of a block above it, loses no item
to that test (`Siblings.branch_filter_retains`).
-/

namespace SocialNetwork.Fork

open LinearSearch

variable {H N V : Type} [DecidableEq H] [LinearOrder N]

section Branch

variable (A : Ancestry H N)

/-- Whether an item, a block with its number and data, is block `head` or one
of its ancestors. -/
def onPath (head : H) (e : H × N × V) : Bool := decide (e.1 = head) || A.desc e.1 head

/-- The items of a forest on the branch of `head`, in pre-order. -/
def branch (head : H) (l : List (Node H N V)) : List (H × N × V) :=
  (nodeItems l).filter (onPath A head)

variable {A} {head : H} {x r : Node H N V} {l l' : List (Node H N V)}

theorem onPath_iff {e : H × N × V} : onPath A head e = true ↔ A.Below e.1 head := by
  simp [onPath, Ancestry.Below]

theorem branch_cons (x : Node H N V) (l : List (Node H N V)) :
    branch A head (x :: l) = (nodeItems [x]).filter (onPath A head) ++ branch A head l := by
  rw [branch, branch, ← List.filter_append, ← nodeItems_append, List.singleton_append]

omit [DecidableEq H] in
/-- Every item under a node is its block or a descendant of it. -/
theorem Node.Wf.below_of_mem_nodeItems (hx : x.Wf A) {e : H × N × V} (he : e ∈ nodeItems [x]) :
    A.Below x.hash e.1 := by
  obtain ⟨m, hm, rfl⟩ := List.mem_map.1 he
  rw [Node.preorderAll_cons, Node.preorderAll_nil, List.append_nil] at hm
  exact (hx.of_mem_preorder hm).2

omit [DecidableEq H] in
theorem Node.Wf.mem_nodeItems_children (hx : x.Wf A) {e : H × N × V} (he : e ∈ nodeItems x.children) :
    A.desc x.hash e.1 = true := by
  obtain ⟨m, hm, rfl⟩ := List.mem_map.1 he
  obtain ⟨c, hc, hmc⟩ := Node.mem_preorderAll.1 hm
  exact Ancestry.desc_of_desc_of_below (hx.desc_child hc) ((hx.siblings.wf c hc).of_mem_preorder hmc).2

/-- Nothing under a node off the branch is on it. -/
theorem Node.Wf.filter_onPath_of_off (hx : x.Wf A) (hoff : ¬ A.Below x.hash head) :
    (nodeItems [x]).filter (onPath A head) = [] := by
  rw [List.filter_eq_nil_iff]
  intro e he hon
  exact hoff ((hx.below_of_mem_nodeItems he).trans (onPath_iff.1 hon))

theorem Node.filter_onPath_of_on (hon : A.Below x.hash head) :
    (nodeItems [x]).filter (onPath A head) = (x.hash, x.number, x.data) :: branch A head x.children := by
  rw [nodeItems_singleton, List.filter_cons_of_pos (onPath_iff.2 hon)]
  rfl

theorem Siblings.branch_eq_nil (hl : Siblings A l) (hoff : ∀ r ∈ l, ¬ A.Below r.hash head) :
    branch A head l = [] := by
  induction l with
  | nil => rfl
  | cons y ys ih =>
      rw [branch_cons, (hl.wf y List.mem_cons_self).filter_onPath_of_off (hoff y List.mem_cons_self),
        ih (hl.sublist (List.sublist_cons_self y ys)) fun r hr => hoff r (List.mem_cons_of_mem _ hr)]
      rfl

/-- The one root on the branch heads it, with its children's branch after. -/
theorem Siblings.branch_of_mem (hl : Siblings A l) (hr : r ∈ l) (hon : A.Below r.hash head) :
    branch A head l = (r.hash, r.number, r.data) :: branch A head r.children := by
  induction l with
  | nil => simp at hr
  | cons y ys ih =>
      have hpair := List.pairwise_cons.1 hl.incomparable
      have hys : Siblings A ys := hl.sublist (List.sublist_cons_self y ys)
      rw [branch_cons]
      rcases List.mem_cons.1 hr with rfl | hr
      · -- the other roots are incomparable with it, so off the branch
        rw [Node.filter_onPath_of_on hon,
          hys.branch_eq_nil fun z hz => (hpair.1 z hz).not_below_both hon, List.cons_append,
          List.append_nil]
      · rw [(hl.wf y List.mem_cons_self).filter_onPath_of_off fun hy =>
          (hpair.1 r hr).not_below_both hy hon, List.nil_append]
        exact ih hys hr

/-- Dropping roots off the branch keeps it. -/
theorem Siblings.branch_filter (hl : Siblings A l) {p : Node H N V → Bool}
    (hp : ∀ r ∈ l, A.Below r.hash head → p r = true) : branch A head (l.filter p) = branch A head l := by
  induction l with
  | nil => rfl
  | cons y ys ih =>
      have hys : Siblings A ys := hl.sublist (List.sublist_cons_self y ys)
      have ih' := ih hys fun r hr => hp r (List.mem_cons_of_mem _ hr)
      by_cases hy : p y = true
      · rw [List.filter_cons_of_pos hy, branch_cons, branch_cons, ih']
      · have hoff : ¬ A.Below y.hash head := fun hon => hy (hp y List.mem_cons_self hon)
        rw [List.filter_cons_of_neg hy, ih', branch_cons,
          (hl.wf y List.mem_cons_self).filter_onPath_of_off hoff, List.nil_append]

mutual
/-- Down the branch each item is an ancestor of the next. -/
theorem Node.Wf.pairwise_branch : ∀ (x : Node H N V), x.Wf A →
    ((nodeItems [x]).filter (onPath A head)).Pairwise fun a b => A.desc a.1 b.1 = true
  | ⟨h, n, d, children⟩, hx => by
      by_cases hon : A.Below h head
      · rw [Node.filter_onPath_of_on hon, List.pairwise_cons]
        exact ⟨fun b hb => hx.mem_nodeItems_children (List.mem_of_mem_filter hb),
          Siblings.pairwise_branch children hx.siblings⟩
      · rw [hx.filter_onPath_of_off hon]
        exact List.Pairwise.nil
termination_by structural x => x

theorem Siblings.pairwise_branch : ∀ (l : List (Node H N V)), Siblings A l →
    (branch A head l).Pairwise fun a b => A.desc a.1 b.1 = true
  | [], _ => List.Pairwise.nil
  | y :: ys, hl => by
      have hpair := List.pairwise_cons.1 hl.incomparable
      have hys : Siblings A ys := hl.sublist (List.sublist_cons_self y ys)
      have hy := hl.wf y List.mem_cons_self
      rw [branch_cons, List.pairwise_append]
      refine ⟨Node.Wf.pairwise_branch y hy, Siblings.pairwise_branch ys hys, fun a ha b hb => ?_⟩
      -- items on the branch under two roots would put both roots on it
      obtain ⟨m, hm, rfl⟩ := List.mem_map.1 (List.mem_of_mem_filter hb)
      obtain ⟨z, hz, hmz⟩ := Node.mem_preorderAll.1 hm
      have hya := (hy.below_of_mem_nodeItems (List.mem_of_mem_filter ha)).trans
        (onPath_iff.1 (List.of_mem_filter ha))
      have hzb := ((hys.wf z hz).of_mem_preorder hmz).2.trans (onPath_iff.1 (List.of_mem_filter hb))
      exact absurd hzb ((hpair.1 z hz).not_below_both hya)
termination_by structural l => l
end

omit [DecidableEq H] [LinearOrder N] in
theorem mem_nodeItems_of_mem_filter {p : Node H N V → Bool} {e : H × N × V}
    (he : e ∈ nodeItems (l.filter p)) : e ∈ nodeItems l := by
  obtain ⟨m, hm, rfl⟩ := List.mem_map.1 he
  obtain ⟨y, hy, hmy⟩ := Node.mem_preorderAll.1 hm
  exact List.mem_map.2 ⟨m, Node.mem_preorderAll.2 ⟨y, List.mem_of_mem_filter hy, hmy⟩, rfl⟩

omit [DecidableEq H] [LinearOrder N] in
theorem mem_nodeItems_of_mem_children (hr : r ∈ l) {e : H × N × V} (he : e ∈ nodeItems r.children) :
    e ∈ nodeItems l := by
  obtain ⟨m, hm, rfl⟩ := List.mem_map.1 he
  obtain ⟨c, hc, hmc⟩ := Node.mem_preorderAll.1 hm
  exact List.mem_map.2 ⟨m, Node.mem_preorderAll.2 ⟨r, hr, Node.mem_preorder_of_mem_children hc hmc⟩, rfl⟩

/-- Two well-formed forests holding the same items have the same branches. -/
theorem branch_eq_of_perm (hl : Siblings A l) (hl' : Siblings A l')
    (hperm : (nodeItems l).Perm (nodeItems l')) : branch A head l = branch A head l' := by
  refine List.Perm.eq_of_pairwise (fun a _ b _ hab hba => ?_) (Siblings.pairwise_branch l hl)
    (Siblings.pairwise_branch l' hl') (hperm.filter _)
  rw [Ancestry.desc_asymm hab] at hba
  cases hba

end Branch

section Import

variable {A : Ancestry H N} {hash head : H} {data : V} {t t' : ForkTree H N V} {isRoot : Bool}

omit [DecidableEq H] in
theorem nodeItems_roots_perm_of_placed (h : Placed A hash data t isRoot t') :
    (nodeItems t'.roots).Perm ((hash, A.height hash, data) :: nodeItems t.roots) := by
  obtain ⟨-, parent, -, -, -, hperm⟩ := h
  have hmap := hperm.map Prod.snd
  rwa [ForkTree.links, ForkTree.links, List.map_cons, Node.map_snd_linksAll,
    Node.map_snd_linksAll] at hmap

/-- `import` of a block that is not in the tree and that no node descends from
puts its item last on the branch of each block it is at or below. -/
theorem branch_of_placed (ht : t.Wf A) (ht' : t'.Wf A) (h : Placed A hash data t isRoot t')
    (hnew : hash ∉ (Node.preorderAll t.roots).map Node.hash)
    (hfresh : ∀ m ∈ Node.preorderAll t.roots, A.desc hash m.hash = false) :
    branch A head t'.roots =
      branch A head t.roots ++ if A.Below hash head then [(hash, A.height hash, data)] else [] := by
  -- every item on the old branch is a strict ancestor of the block
  have hanc : ∀ a ∈ branch A head t.roots, A.Below hash head → A.desc a.1 hash = true := by
    intro a ha hbelow
    obtain ⟨m, hm, rfl⟩ := List.mem_map.1 (List.mem_of_mem_filter ha)
    rcases Ancestry.Below.comparable (onPath_iff.1 (List.of_mem_filter ha)) hbelow with heq | hdesc | hdesc
    · exact absurd (List.mem_map.2 ⟨m, hm, heq⟩) hnew
    · exact hdesc
    · rw [hfresh m hm] at hdesc
      cases hdesc
  refine List.Perm.eq_of_pairwise (fun a _ b _ hab hba => ?_) (Siblings.pairwise_branch _ ht') ?_ ?_
  · rw [Ancestry.desc_asymm hab] at hba
    cases hba
  · by_cases hbelow : A.Below hash head
    · rw [if_pos hbelow]
      exact List.pairwise_append.2 ⟨Siblings.pairwise_branch _ ht, List.pairwise_singleton _ _,
        fun a ha b hb => List.mem_singleton.1 hb ▸ hanc a ha hbelow⟩
    · rw [if_neg hbelow, List.append_nil]
      exact Siblings.pairwise_branch _ ht
  · refine ((nodeItems_roots_perm_of_placed h).filter (onPath A head)).trans ?_
    by_cases hbelow : A.Below hash head
    · rw [List.filter_cons_of_pos (onPath_iff.2 hbelow), if_pos hbelow]
      exact (List.perm_append_singleton _ _).symm
    · rw [List.filter_cons_of_neg (mt onPath_iff.1 hbelow), if_neg hbelow, List.append_nil]
      exact List.Perm.refl _

end Import

section Finalize

variable {A : Ancestry H N} {hash : H} {number : N} {predicate : V → Bool}

/-- A root on the block's branch, or above the block on its branch, passes the
test when the block's number is its height. -/
theorem retains_of_below {head : H} {r : Node H N V} (hr : r.Wf A) (hhead : A.Below hash head)
    (hon : A.Below r.hash head) : retains A hash (A.height hash) r = true := by
  simp only [retains, hr.number_eq, Bool.or_eq_true, Bool.and_eq_true, decide_eq_true_eq]
  rcases Ancestry.Below.comparable hon hhead with heq | hdesc | hdesc
  · exact .inl (.inr ⟨by rw [heq], heq⟩)
  · exact .inr hdesc
  · exact .inl (.inl ⟨A.height_lt hdesc, hdesc⟩)

/-- So dropping the roots the test rejects keeps those branches. -/
theorem Siblings.branch_filter_retains {head : H} {l : List (Node H N V)} (hl : Siblings A l)
    (hhead : A.Below hash head) :
    branch A head (l.filter (retains A hash (A.height hash))) = branch A head l :=
  hl.branch_filter fun r hr hon => retains_of_below (hl.wf r hr) hhead hon

/-- No root passes when none on the block's branch passes `predicate`. -/
theorem firstWith_passes_eq_none {l : List (Node H N V)}
    (h : ∀ r ∈ l, A.Below r.hash hash → predicate r.data = false) :
    firstWith (Passes A hash predicate) l = none := by
  refine firstWith_eq_none fun r hr => ?_
  cases hpass : Passes A hash predicate r
  · rfl
  · have hp : predicate r.data = true := by
      simp only [Passes, Bool.and_eq_true] at hpass
      exact hpass.1
    rw [h r hr (below_of_passes hpass)] at hp
    cases hp

omit [DecidableEq H] in
/-- Only a strict ancestor of the block can block its finalization. -/
theorem any_blocks_eq_false {cs : List (Node H N V)} (h : ∀ c ∈ cs, A.desc c.hash hash = false) :
    cs.any (Blocks A hash number) = false := by
  rw [List.any_eq_false]
  intro c hc hblocks
  simp [Blocks, h c hc] at hblocks

end Finalize

end SocialNetwork.Fork
