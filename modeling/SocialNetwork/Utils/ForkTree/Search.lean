import SocialNetwork.Utils.ForkTree.Wf

/-!
# The search of `find_node_where`

`find_node_index_where` walks the tree depth first for a node that is a
strict ancestor of a block, is at most a given number, and passes a
predicate (a `Candidate`). It cuts a branch at a node above the number, stops
the walk over a node's children at the first child the block descends from,
and falls back to the nearest passing ancestor when no node below passes.

With a client that answers from an ancestry, and a well-formed tree, the
candidates are ancestors of one block and lie on one path, and a branch the
search skips holds none of them. So the search finds exactly the deepest
candidate (`IsDeepest`), and `find_node_where` and `find_node_where_mut`
walk the path it returns to that node (`find_node_where_deepest`).
-/

namespace SocialNetwork.Fork

open Dispatch

variable {H N V E : Type} [LinearOrder N]

section Outcomes

variable (A : Ancestry H N) (hash : H) (number : N) (predicate : V → Bool)

/-- A node the search may stop at: a strict ancestor of the block, at most
`number`, whose data passes the predicate. -/
def Candidate (m : Node H N V) : Prop :=
  A.desc m.hash hash = true ∧ m.number ≤ number ∧ predicate m.data = true

/-- The deepest candidate among `nodes`: every other candidate is on its way
to the root. -/
def IsDeepest (nodes : List (Node H N V)) (m : Node H N V) : Prop :=
  m ∈ nodes ∧ Candidate A hash number predicate m ∧
    ∀ m' ∈ nodes, Candidate A hash number predicate m' → A.Below m'.hash m.hash

/-- The node a path of `find_node_index_where` leads to; its last index is
the root's. -/
def nodeAt (roots : List (Node H N V)) (path : List ℕ) : Option (Node H N V) :=
  match path.reverse with
  | [] => none
  | i :: rest => roots[i]?.bind fun root => root.walk rest

/-- What the search under a node returns: the path to the deepest candidate
below it, or a failure that says whether the block descends from the node
when the node is at most `number`. -/
def NodeOutcome (x : Node H N V) : FindOutcome (List ℕ) → Prop
  | .found path =>
      ∃ m, x.walk path.reverse = some m ∧ IsDeepest A hash number predicate x.preorder m
  | .failure b => (∀ m ∈ x.preorder, ¬ Candidate A hash number predicate m) ∧
      (b = true ↔ x.number ≤ number ∧ A.desc x.hash hash = true)
  | .abort => False

def ChildrenOutcome (cs : List (Node H N V)) (i : ℕ) : FindOutcome (List ℕ) → Prop
  | .found path => ∃ j js c m, path = js ++ [i + j] ∧ cs[j]? = some c ∧
      c.walk js.reverse = some m ∧ IsDeepest A hash number predicate (Node.preorderAll cs) m
  | .failure b => (∀ m ∈ Node.preorderAll cs, ¬ Candidate A hash number predicate m) ∧
      (b = true ↔ ∃ c ∈ cs, c.number ≤ number ∧ A.desc c.hash hash = true)
  | .abort => False

end Outcomes

section Siblings

variable {A : Ancestry H N} {hash : H} {number : N} {predicate : V → Bool}

theorem Node.Wf.not_candidate_of_lt {x m : Node H N V} (hx : x.Wf A) (hm : m ∈ x.preorder)
    (hlt : number < x.number) : ¬ Candidate A hash number predicate m := by
  rintro ⟨-, hle, -⟩
  obtain ⟨hmwf, hbelow⟩ := hx.of_mem_preorder hm
  have hnumber : x.number ≤ m.number := by
    rw [hx.number_eq, hmwf.number_eq]
    exact hbelow.height_le
  exact absurd (lt_of_lt_of_le hlt hnumber) (not_lt.2 hle)

/-- Under a sibling of a node on the block's way to the root, no node is a
strict ancestor of the block. -/
theorem Node.Wf.not_desc_of_incomparable {y m : Node H N V} {a : H} (hy : y.Wf A)
    (hm : m ∈ y.preorder) (hinc : A.Incomparable a y.hash) (ha : A.Below a hash) :
    A.desc m.hash hash = false := by
  refine Bool.eq_false_iff.2 fun hdesc => ?_
  have hbelow : A.Below y.hash hash := (hy.of_mem_preorder hm).2.trans (Ancestry.below_of_desc hdesc)
  exact hinc.not_below_both ha hbelow

theorem Siblings.no_candidate_of_below {c : Node H N V} {cs : List (Node H N V)}
    (h : Siblings A (c :: cs)) (hbelow : A.Below c.hash hash) :
    ∀ m ∈ Node.preorderAll cs, ¬ Candidate A hash number predicate m := by
  intro m hm hcand
  obtain ⟨y, hy, hmy⟩ := Node.mem_preorderAll.1 hm
  have hinc := (List.pairwise_cons.1 h.incomparable).1 y hy
  have hnot := (h.wf y (List.mem_cons_of_mem _ hy)).not_desc_of_incomparable hmy hinc hbelow
  rw [hcand.1] at hnot
  cases hnot

/-- The deepest candidate under the first of some siblings is the deepest
under all of them. -/
theorem Siblings.isDeepest_cons {c m : Node H N V} {cs : List (Node H N V)}
    (h : Siblings A (c :: cs)) (hdeep : IsDeepest A hash number predicate c.preorder m) :
    IsDeepest A hash number predicate (Node.preorderAll (c :: cs)) m := by
  obtain ⟨hm, hcand, hbelow⟩ := hdeep
  have hc : A.Below c.hash hash :=
    ((h.wf c List.mem_cons_self).of_mem_preorder hm).2.trans (Ancestry.below_of_desc hcand.1)
  refine ⟨by simp [hm], hcand, fun m' hm' hcand' => ?_⟩
  rcases List.mem_append.1 hm' with hm' | hm'
  · exact hbelow m' hm' hcand'
  · exact absurd hcand' (h.no_candidate_of_below hc m' hm')

theorem isDeepest_cons_of_none {c m : Node H N V} {cs : List (Node H N V)}
    (hnone : ∀ m ∈ c.preorder, ¬ Candidate A hash number predicate m)
    (hdeep : IsDeepest A hash number predicate (Node.preorderAll cs) m) :
    IsDeepest A hash number predicate (Node.preorderAll (c :: cs)) m := by
  obtain ⟨hm, hcand, hbelow⟩ := hdeep
  refine ⟨by simp [hm], hcand, fun m' hm' hcand' => ?_⟩
  rcases List.mem_append.1 hm' with hm' | hm'
  · exact absurd hcand' (hnone m' hm')
  · exact hbelow m' hm' hcand'

end Siblings

section Search

variable {A : Ancestry H N} {hash : H} {number : N} {predicate : V → Bool}

mutual
theorem Node.findNodeIndexWhere_spec : ∀ (x : Node H N V), x.Wf A →
    ∃ out, x.findNodeIndexWhere (ancestryOracle (E := E) A) hash number predicate = .ok out ∧
      NodeOutcome A hash number predicate x out
  | ⟨h, n, d, children⟩, hx => by
      unfold Node.findNodeIndexWhere
      split_ifs with hlt
      · -- above `number`: the branch is cut, and holds no candidate
        refine ⟨_, rfl, fun m hm => hx.not_candidate_of_lt hm hlt, ?_⟩
        simp only [Bool.false_eq_true, false_iff, not_and]
        exact fun hle => absurd hlt (not_lt.2 hle)
      · obtain ⟨out, hout, hspec⟩ := findIndexInChildren_spec children 0 hx.siblings
        rw [hout]
        rcases out with path | b | _
        · -- found below a child: the node itself is on the way to it
          obtain ⟨j, js, c, m, rfl, hc, hwalk, hm, hcand, hbelow⟩ := hspec
          refine ⟨_, rfl, m, by simp [Node.walk, hc, hwalk], ?_, hcand, fun m' hm' hcand' => ?_⟩
          · rw [Node.preorder_eq]
            exact List.mem_cons_of_mem _ hm
          · rw [Node.preorder_eq] at hm'
            rcases List.mem_cons.1 hm' with rfl | hm'
            · exact (hx.of_mem_preorder (by rw [Node.preorder_eq]; exact List.mem_cons_of_mem _ hm)).2
            · exact hbelow m' hm' hcand'
        · -- no candidate below: the node is one if the block descends from it
          obtain ⟨hnone, hb⟩ := hspec
          have hknown : (if b = true then (.ok true : Except (Error E) Bool)
              else (ancestryOracle A h hash).mapError Error.client) = .ok (A.desc h hash) := by
            cases b with
            | true =>
                obtain ⟨c, hc, -, hdesc⟩ := hb.1 rfl
                rw [A.desc_trans (hx.desc_child hc) hdesc]
                rfl
            | false => rfl
          simp only [hknown]
          have hle : n ≤ number := not_lt.1 hlt
          have hnone' : ∀ m ∈ Node.preorderAll children, ¬ Candidate A hash number predicate m :=
            hnone
          split_ifs with hpass
          · obtain ⟨hdesc, hpred⟩ := Bool.and_eq_true_iff.1 hpass
            refine ⟨_, rfl, _, rfl, by simp [Node.preorder_eq], ⟨hdesc, hle, hpred⟩,
              fun m' hm' hcand' => ?_⟩
            rw [Node.preorder_eq] at hm'
            rcases List.mem_cons.1 hm' with rfl | hm'
            · exact Ancestry.below_refl _
            · exact absurd hcand' (hnone' m' hm')
          · refine ⟨_, rfl, fun m' hm' hcand' => ?_, ?_⟩
            · rw [Node.preorder_eq] at hm'
              rcases List.mem_cons.1 hm' with rfl | hm'
              · exact hpass (Bool.and_eq_true_iff.2 ⟨hcand'.1, hcand'.2.2⟩)
              · exact hnone' m' hm' hcand'
            · exact ⟨fun hdesc => ⟨hle, hdesc⟩, fun h' => h'.2⟩
        · exact hspec.elim
termination_by structural x => x

theorem findIndexInChildren_spec : ∀ (cs : List (Node H N V)) (i : ℕ), Siblings A cs →
    ∃ out, Node.findIndexInChildren (ancestryOracle (E := E) A) hash number predicate cs i =
      .ok out ∧ ChildrenOutcome A hash number predicate cs i out
  | [], _, _ => ⟨_, rfl, by simp, by simp⟩
  | c :: cs, i, hcs => by
      have hc := hcs.wf c List.mem_cons_self
      have hrest : Siblings A cs := hcs.sublist (List.sublist_cons_self c cs)
      obtain ⟨out, hout, hspec⟩ := Node.findNodeIndexWhere_spec c hc
      unfold Node.findIndexInChildren
      rw [hout]
      rcases out with path | b | _
      · -- found under `c`
        obtain ⟨m, hwalk, hdeep⟩ := hspec
        exact ⟨_, rfl, 0, path, c, m, rfl, rfl, hwalk, hcs.isDeepest_cons hdeep⟩
      · obtain ⟨hnone, hb⟩ := hspec
        cases b with
        | true =>
            -- the block descends from `c`: the later children are skipped, and hold
            -- no candidate
            obtain ⟨hle, hdesc⟩ := hb.1 rfl
            refine ⟨_, rfl, fun m hm => ?_, ⟨fun _ => ⟨c, List.mem_cons_self, hle, hdesc⟩,
              fun _ => rfl⟩⟩
            rcases List.mem_append.1 hm with hm | hm
            · exact hnone m hm
            · exact hcs.no_candidate_of_below (Ancestry.below_of_desc hdesc) m hm
        | false =>
            obtain ⟨out', hout', hspec'⟩ := findIndexInChildren_spec cs (i + 1) hrest
            refine ⟨out', hout', ?_⟩
            rcases out' with path | b' | _
            · -- found under a later child, one index further
              obtain ⟨j, js, c', m, rfl, hc', hwalk, hdeep⟩ := hspec'
              exact ⟨j + 1, js, c', m, by rw [Nat.add_right_comm, Nat.add_assoc], hc', hwalk,
                isDeepest_cons_of_none hnone hdeep⟩
            · obtain ⟨hnone', hb'⟩ := hspec'
              refine ⟨fun m hm => ?_, ?_⟩
              · rcases List.mem_append.1 hm with hm | hm
                · exact hnone m hm
                · exact hnone' m hm
              · -- `c` is no ancestor of the block below `number`
                rw [hb']
                constructor
                · rintro ⟨c', hc', h'⟩
                  exact ⟨c', List.mem_cons_of_mem _ hc', h'⟩
                · rintro ⟨c', hc', h'⟩
                  rcases List.mem_cons.1 hc' with rfl | hc'
                  · exact absurd (hb.2 h') (by decide)
                  · exact ⟨c', hc', h'⟩
            · exact hspec'.elim
      · exact hspec.elim
termination_by structural cs => cs
end

theorem Node.run_findNodeWhere_found {isDescendentOf : H → H → Except E Bool}
    {x m : Node H N V} {path : List ℕ}
    (h : x.findNodeIndexWhere isDescendentOf hash number predicate = .ok (.found path))
    (hwalk : x.walk path.reverse = some m) (t : ForkTree H N V) :
    (x.findNodeWhere isDescendentOf hash number predicate).run t = .ok (.found m) t := by
  unfold Node.findNodeWhere
  rw [run_bind_ok (by rw [h]; exact run_ofExcept_ok)]
  simp only [hwalk]
  rfl

theorem Node.run_findNodeWhere_failure {isDescendentOf : H → H → Except E Bool}
    {x : Node H N V} {b : Bool}
    (h : x.findNodeIndexWhere isDescendentOf hash number predicate = .ok (.failure b))
    (t : ForkTree H N V) :
    (x.findNodeWhere isDescendentOf hash number predicate).run t = .ok (.failure b) t := by
  unfold Node.findNodeWhere
  rw [run_bind_ok (by rw [h]; exact run_ofExcept_ok)]
  rfl

variable (hash number predicate) in
/-- The search over the roots from `index`, and the walk of `find_node_where`
over them, with the ancestry's answers: both stop at the deepest candidate,
or both find none. -/
theorem findNodeWhereIn_spec (t : ForkTree H N V) : ∀ (roots : List (Node H N V)) (index : ℕ),
    Siblings A roots →
    (∃ j js c m, findNodeIndexWhere (ancestryOracle (E := E) A) hash number predicate roots index =
          .ok (some (js ++ [index + j])) ∧ roots[j]? = some c ∧ c.walk js.reverse = some m ∧
        (findNodeWhereIn (ancestryOracle (E := E) A) hash number predicate roots).run t =
          .ok (some m) t ∧
        IsDeepest A hash number predicate (Node.preorderAll roots) m) ∨
      (findNodeIndexWhere (ancestryOracle (E := E) A) hash number predicate roots index = .ok none ∧
        (findNodeWhereIn (ancestryOracle (E := E) A) hash number predicate roots).run t =
          .ok none t ∧
        ∀ m ∈ Node.preorderAll roots, ¬ Candidate A hash number predicate m)
  | [], _, _ => .inr ⟨rfl, rfl, by simp⟩
  | root :: roots, index, hr => by
      have hroot := hr.wf root List.mem_cons_self
      have hrest : Siblings A roots := hr.sublist (List.sublist_cons_self root roots)
      obtain ⟨out, hout, hspec⟩ := Node.findNodeIndexWhere_spec (E := E) root hroot
      rcases out with path | b | _
      · -- found under the first root
        obtain ⟨m, hwalk, hdeep⟩ := hspec
        refine .inl ⟨0, path, root, m, by simp [findNodeIndexWhere, hout], rfl, hwalk, ?_,
          hr.isDeepest_cons hdeep⟩
        unfold findNodeWhereIn
        rw [run_bind_ok (Node.run_findNodeWhere_found hout hwalk t)]
        rfl
      · -- nothing under the first root: both go on with the others
        have hidx : findNodeIndexWhere (ancestryOracle (E := E) A) hash number predicate
            (root :: roots) index =
            findNodeIndexWhere (ancestryOracle (E := E) A) hash number predicate roots (index + 1) := by
          simp [findNodeIndexWhere, hout]
        have hrun : (findNodeWhereIn (ancestryOracle (E := E) A) hash number predicate
            (root :: roots)).run t =
            (findNodeWhereIn (ancestryOracle (E := E) A) hash number predicate roots).run t := by
          conv_lhs => unfold findNodeWhereIn
          rw [run_bind_ok (Node.run_findNodeWhere_failure hout t)]
        rw [hidx, hrun]
        rcases findNodeWhereIn_spec t roots (index + 1) hrest with
          ⟨j, js, c, m, hfound, hc, hwalk, hm, hdeep⟩ | ⟨hfound, hm, hnone⟩
        · refine .inl ⟨j + 1, js, c, m, ?_, hc, hwalk, hm, isDeepest_cons_of_none hspec.1 hdeep⟩
          rw [hfound, Nat.add_right_comm, Nat.add_assoc]
        · refine .inr ⟨hfound, hm, fun m hm' => ?_⟩
          rcases List.mem_append.1 hm' with hm' | hm'
          · exact hspec.1 m hm'
          · exact hnone m hm'
      · exact hspec.elim

end Search

variable {A : Ancestry H N}

/-- With a client that answers from an ancestry, over a well-formed tree:
`find_node_where` and `find_node_where_mut` return the same node;
`find_node_index_where` returns a path to it, and nothing exactly when they
do; they return a node exactly when a node of the tree is a strict ancestor of
the block, at most `number`, and passes the predicate; and the node is the
deepest such node. -/
theorem find_node_where_deepest {t : ForkTree H N V} (ht : t.Wf A) (hash : H) (number : N)
    (predicate : V → Bool) :
    ∃ found : Option (Node H N V),
      (findNodeWhere (ancestryOracle (E := E) A) hash number predicate).run t = .ok found t ∧
      (findNodeWhereMut (ancestryOracle (E := E) A) hash number predicate).run t = .ok found t ∧
      (∃ path, findNodeIndexWhere (ancestryOracle (E := E) A) hash number predicate t.roots 0 =
          .ok path ∧ path.map (nodeAt t.roots) = found.map some) ∧
      (found = none ↔ ∀ m ∈ Node.preorderAll t.roots, ¬ Candidate A hash number predicate m) ∧
      ∀ node, found = some node → IsDeepest A hash number predicate (Node.preorderAll t.roots) node := by
  rcases findNodeWhereIn_spec (E := E) hash number predicate t t.roots 0 ht with
    ⟨j, js, c, m, hidx, hc, hwalk, hrun, hdeep⟩ | ⟨hidx, hrun, hnone⟩
  · -- a candidate exists, and the deepest is found
    have hfind : (findNodeWhere (ancestryOracle (E := E) A) hash number predicate).run t =
        .ok (some m) t := by
      unfold findNodeWhere
      rw [run_get_bind]
      exact hrun
    refine ⟨some m, hfind, hfind, ⟨_, hidx, by simp [nodeAt, hc, hwalk]⟩, ?_, ?_⟩
    · simp only [reduceCtorEq, false_iff, not_forall, not_not]
      exact ⟨m, hdeep.1, hdeep.2.1⟩
    · rintro node ⟨⟩
      exact hdeep
  · have hfind : (findNodeWhere (ancestryOracle (E := E) A) hash number predicate).run t =
        .ok none t := by
      unfold findNodeWhere
      rw [run_get_bind]
      exact hrun
    exact ⟨none, hfind, hfind, ⟨_, hidx, rfl⟩, ⟨fun _ => hnone, fun _ => rfl⟩,
      (fun _ hnode => nomatch hnode)⟩

theorem chainTree_wf : chainTree.Wf chainAncestry := by
  have hleaf : (Node.mk 1 1 () [] : Node ℕ ℕ Unit).Wf chainAncestry := Node.Wf.leaf 1 ()
  exact Siblings.singleton (Node.Wf.intro rfl (by simp [chainAncestry]) (Siblings.singleton hleaf))

/-- The search in the chain `0, 1` for block `2`, at most `1`, with every
node passing. -/
theorem find_node_where_deepest_chain :
    chainTree.Wf chainAncestry ∧
    ∃ found : Option (Node ℕ ℕ Unit),
      (findNodeWhere (ancestryOracle (E := Unit) chainAncestry) 2 1 (fun _ => true)).run chainTree =
        .ok found chainTree ∧
      (findNodeWhereMut (ancestryOracle (E := Unit) chainAncestry) 2 1 (fun _ => true)).run
        chainTree = .ok found chainTree ∧
      (∃ path, findNodeIndexWhere (ancestryOracle (E := Unit) chainAncestry) 2 1 (fun _ => true)
          chainTree.roots 0 = .ok path ∧ path.map (nodeAt chainTree.roots) = found.map some) ∧
      (found = none ↔ ∀ m ∈ Node.preorderAll chainTree.roots,
        ¬ Candidate chainAncestry 2 1 (fun _ => true) m) ∧
      ∀ node, found = some node →
        IsDeepest chainAncestry 2 1 (fun _ => true) (Node.preorderAll chainTree.roots) node :=
  ⟨chainTree_wf, find_node_where_deepest chainTree_wf 2 1 fun _ => true⟩

example : (findNodeWhere (ancestryOracle (E := Unit) chainAncestry) 2 1 (fun _ => true)).run
    chainTree = .ok (some ⟨1, 1, (), []⟩) chainTree := rfl

end SocialNetwork.Fork
