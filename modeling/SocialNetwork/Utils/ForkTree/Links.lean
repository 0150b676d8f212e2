import SocialNetwork.Utils.ForkTree.Search

/-!
# The tree as parent links

What the methods of the fork tree promise about the nodes they keep is best
said without the order of siblings, which `rebalance` changes after each
`import` and `prune`. `ForkTree.links` lists each node with the hash of its
parent, `none` for a root. Two trees whose links are equal up to order hold
the same nodes under the same parents, and `rebalance` keeps the links
(`links_rebalance`).

`linksBelow` is what finalizing a block keeps of the links: the nodes
strictly below the block, each under its parent when the parent is below the
block too, and as a root otherwise. A subtree strictly below the block keeps
all of its links (`Node.Wf.linksBelow_of_desc`); one with no node below the
block keeps none (`linksBelow_links_of_not_desc`); and an ancestor of the
block, opened into its children, keeps what it kept
(`Node.linksBelow_links_eq_children`).
-/

namespace SocialNetwork.Fork

open Dispatch

variable {H N V : Type}

section Links

mutual
/-- The nodes of a subtree, each with the hash of its parent; `parent` is the
subtree's own. -/
def Node.links (parent : Option H) : Node H N V → List (Option H × H × N × V)
  | ⟨h, n, d, children⟩ => (parent, h, n, d) :: Node.linksAll (some h) children

def Node.linksAll (parent : Option H) : List (Node H N V) → List (Option H × H × N × V)
  | [] => []
  | c :: cs => c.links parent ++ Node.linksAll parent cs
end

/-- The nodes of the tree, each with the hash of its parent, `none` for a
root. -/
def ForkTree.links (t : ForkTree H N V) : List (Option H × H × N × V) :=
  Node.linksAll none t.roots

theorem Node.links_eq (parent : Option H) (x : Node H N V) :
    x.links parent =
      (parent, x.hash, x.number, x.data) :: Node.linksAll (some x.hash) x.children := by
  obtain ⟨h, n, d, children⟩ := x
  rfl

@[simp] theorem Node.linksAll_nil (parent : Option H) :
    Node.linksAll parent ([] : List (Node H N V)) = [] := rfl

@[simp] theorem Node.linksAll_cons (parent : Option H) (c : Node H N V) (cs : List (Node H N V)) :
    Node.linksAll parent (c :: cs) = c.links parent ++ Node.linksAll parent cs := rfl

@[simp] theorem Node.linksAll_append (parent : Option H) (l l' : List (Node H N V)) :
    Node.linksAll parent (l ++ l') = Node.linksAll parent l ++ Node.linksAll parent l' := by
  induction l with
  | nil => rfl
  | cons c cs ih => simp [ih]

theorem Node.linksAll_perm {parent : Option H} {l l' : List (Node H N V)} (h : l.Perm l') :
    (Node.linksAll parent l).Perm (Node.linksAll parent l') := by
  induction h with
  | nil => exact .nil
  | cons c _ ih => exact ih.append_left _
  | swap c c' l =>
      simp only [Node.linksAll_cons, ← List.append_assoc]
      exact List.perm_append_comm.append_right _
  | trans _ _ ih₁ ih₂ => exact ih₁.trans ih₂

mutual
theorem Node.mem_links : ∀ (x : Node H N V) {parent : Option H} {l : Option H × H × N × V},
    l ∈ x.links parent → ∃ m ∈ x.preorder, l.2 = (m.hash, m.number, m.data)
  | ⟨h, n, d, children⟩, parent, l, hl => by
      rw [Node.links_eq] at hl
      rcases List.mem_cons.1 hl with rfl | hl
      · exact ⟨_, Node.mem_preorder_self _, rfl⟩
      · obtain ⟨m, hm, hml⟩ := Node.mem_linksAll children hl
        exact ⟨m, by rw [Node.preorder_eq]; exact List.mem_cons_of_mem _ hm, hml⟩
termination_by structural x => x

theorem Node.mem_linksAll : ∀ (cs : List (Node H N V)) {parent : Option H}
    {l : Option H × H × N × V},
    l ∈ Node.linksAll parent cs → ∃ m ∈ Node.preorderAll cs, l.2 = (m.hash, m.number, m.data)
  | [], _, _, hl => absurd hl List.not_mem_nil
  | c :: cs, _, _, hl => by
      rcases List.mem_append.1 hl with hl | hl
      · obtain ⟨m, hm, hml⟩ := Node.mem_links c hl
        exact ⟨m, by simp [hm], hml⟩
      · obtain ⟨m, hm, hml⟩ := Node.mem_linksAll cs hl
        exact ⟨m, by simp [hm], hml⟩
termination_by structural cs => cs
end

end Links

section Rebalance

mutual
theorem Node.links_rebalance : ∀ (x : Node H N V) (parent : Option H),
    (x.rebalance.links parent).Perm (x.links parent)
  | ⟨h, n, d, children⟩, parent => by
      rw [Node.rebalance_eq, Node.links_eq, Node.links_eq]
      exact ((Node.linksAll_perm ((List.mergeSort_perm _ _).map _)).trans
        (Node.linksAll_map_rebalance children (some h))).cons _
termination_by structural x => x

theorem Node.linksAll_map_rebalance : ∀ (cs : List (Node H N V)) (parent : Option H),
    (Node.linksAll parent (cs.map Node.rebalance)).Perm (Node.linksAll parent cs)
  | [], _ => .nil
  | c :: cs, parent => (Node.links_rebalance c parent).append (Node.linksAll_map_rebalance cs parent)
termination_by structural cs => cs
end

/-- Sorting some siblings deepest first and rebalancing each keeps their
links. -/
theorem Node.linksAll_byDepth_rebalance (parent : Option H) (l : List (Node H N V)) :
    (Node.linksAll parent ((byDepth l).map Node.rebalance)).Perm (Node.linksAll parent l) :=
  (Node.linksAll_perm ((List.mergeSort_perm _ _).map _)).trans (Node.linksAll_map_rebalance l parent)

theorem wp_rebalance_links {E : Type} {R : Error E → ForkTree H N V → Prop} {t : ForkTree H N V} :
    Wp (rebalance : TreeCall H N V E Unit) (fun _ t' => t'.links.Perm t.links ∧
      t'.bestFinalizedNumber = t.bestFinalizedNumber) R t :=
  ⟨Node.linksAll_byDepth_rebalance none t.roots, rfl⟩

end Rebalance

section Below

variable [LinearOrder N] (A : Ancestry H N) (hash : H)

/-- What finalizing `hash` keeps of some parent links: the nodes strictly
below `hash`, each under its parent when the parent is strictly below
`hash` too, and as a root otherwise. -/
def linksBelow (links : List (Option H × H × N × V)) : List (Option H × H × N × V) :=
  (links.filter fun l => A.desc hash l.2.1).map fun l => (l.1.filter (A.desc hash), l.2)

@[simp] theorem linksBelow_nil : linksBelow A hash ([] : List (Option H × H × N × V)) = [] := rfl

@[simp] theorem linksBelow_append (l l' : List (Option H × H × N × V)) :
    linksBelow A hash (l ++ l') = linksBelow A hash l ++ linksBelow A hash l' := by
  simp [linksBelow]

theorem linksBelow_perm {l l' : List (Option H × H × N × V)} (h : l.Perm l') :
    (linksBelow A hash l).Perm (linksBelow A hash l') :=
  (h.filter _).map _

variable {A hash}

theorem linksBelow_cons_of_desc {l : Option H × H × N × V} (links : List (Option H × H × N × V))
    (h : A.desc hash l.2.1 = true) :
    linksBelow A hash (l :: links) = (l.1.filter (A.desc hash), l.2) :: linksBelow A hash links := by
  simp [linksBelow, h]

theorem linksBelow_linksAll_of_desc {cs : List (Node H N V)} {parent : Option H}
    (h : ∀ c ∈ cs, linksBelow A hash (c.links parent) = c.links parent) :
    linksBelow A hash (Node.linksAll parent cs) = Node.linksAll parent cs := by
  induction cs with
  | nil => rfl
  | cons c cs ih =>
      rw [Node.linksAll_cons, linksBelow_append, h c List.mem_cons_self,
        ih fun c hc => h c (List.mem_cons_of_mem _ hc)]

/-- A subtree strictly below `hash` keeps every link, its root's parent as
far as that is below `hash`. -/
theorem Node.Wf.linksBelow_of_desc {x : Node H N V} (hx : x.Wf A) :
    A.desc hash x.hash = true → ∀ parent : Option H,
      linksBelow A hash (x.links parent) = x.links (parent.filter (A.desc hash)) := by
  induction hx with
  | @mk h n d children hnumber hchild hpair hwf ih =>
      intro hdesc parent
      have hfilter : (some h).filter (A.desc hash) = some h := by simp [Option.filter, hdesc]
      have hchildren : linksBelow A hash (Node.linksAll (some h) children) =
          Node.linksAll (some h) children :=
        linksBelow_linksAll_of_desc fun c hc => by
          rw [ih c hc (A.desc_trans hdesc (hchild c hc)) (some h), hfilter]
      rw [Node.links_eq, Node.links_eq, linksBelow_cons_of_desc _ hdesc]
      exact congrArg _ hchildren

theorem linksBelow_links_of_not_desc {x : Node H N V} (parent : Option H)
    (h : ∀ m ∈ x.preorder, A.desc hash m.hash = false) :
    linksBelow A hash (x.links parent) = [] := by
  simp only [linksBelow, List.map_eq_nil_iff, List.filter_eq_nil_iff]
  intro l hl
  obtain ⟨m, hm, hml⟩ := Node.mem_links _ hl
  rw [hml, h m hm]
  simp

/-- The links a subtree keeps depend on its root's parent only as far as
that is below `hash`. -/
theorem Node.linksBelow_links_congr {x : Node H N V} {parent parent' : Option H}
    (h : parent.filter (A.desc hash) = parent'.filter (A.desc hash)) :
    linksBelow A hash (x.links parent) = linksBelow A hash (x.links parent') := by
  rw [Node.links_eq, Node.links_eq]
  simp only [linksBelow, List.filter_cons]
  split_ifs <;> simp [h]

theorem linksBelow_linksAll_congr {cs : List (Node H N V)} {parent parent' : Option H}
    (h : parent.filter (A.desc hash) = parent'.filter (A.desc hash)) :
    linksBelow A hash (Node.linksAll parent cs) = linksBelow A hash (Node.linksAll parent' cs) := by
  induction cs with
  | nil => rfl
  | cons c cs ih => rw [Node.linksAll_cons, Node.linksAll_cons, linksBelow_append, linksBelow_append,
      Node.linksBelow_links_congr h, ih]

/-- A node that is not strictly below `hash`, opened into its children as
roots, keeps the links it kept. -/
theorem Node.linksBelow_links_eq_children {x : Node H N V} (parent : Option H)
    (hx : A.desc hash x.hash = false) :
    linksBelow A hash (x.links parent) = linksBelow A hash (Node.linksAll none x.children) := by
  have hfilter : (some x.hash).filter (A.desc hash) = (none : Option H).filter (A.desc hash) := by
    simp [Option.filter, hx]
  rw [Node.links_eq, ← linksBelow_linksAll_congr hfilter]
  simp [linksBelow, hx]

end Below

end SocialNetwork.Fork
