import SocialNetwork.Utils.ForkTree.Wf
import SocialNetwork.Lib.LinearSearch

/-!
# The check and the finalization with a descendant agree

`finalizes_any_with_descendent_if` looks, over every node in pre-order, for
the first that passes the predicate and is the block or an ancestor of it;
`finalize_with_descendent_if` looks over the roots only. With a client that
answers from the ancestry, each search is `firstWith` over its nodes followed
by the check of the children of the node found (`run_findPassing`).

On a well-formed tree at most one root is the block or an ancestor of it,
and every node that is lies under that root. The first such node in
pre-order is then that root whenever it passes (`Siblings.firstWith_preorderAll`),
and the search over the roots finds it whenever it passes
(`Siblings.firstWith_roots`): the two calls find the same root and check the
same children.
-/

namespace SocialNetwork.Fork

open Dispatch LinearSearch

variable {H N V E : Type} [DecidableEq H] [LinearOrder N] (A : Ancestry H N)

section Search

variable (hash : H) (number : N) (predicate : V → Bool)

/-- What both searches take: a node that passes `predicate` and is the block
or an ancestor of it. -/
def Passes (node : Node H N V) : Bool :=
  predicate node.data && (decide (node.hash = hash) || A.desc node.hash hash)

/-- A child that finalizing the block would pass over: at or below `number`,
and an ancestor of the block. -/
def Blocks (child : Node H N V) : Bool :=
  decide (child.number ≤ number) && A.desc child.hash hash

/-- The test of `finalize_with_descendent_if` on each root left: a descendant
of the block above `number`, the block at `number`, or an ancestor of it. -/
def retains (node : Node H N V) : Bool :=
  (decide (number < node.number) && A.desc hash node.hash) ||
    decide (node.number = number ∧ node.hash = hash) || A.desc node.hash hash

variable {A hash number predicate} {t : ForkTree H N V}

omit [DecidableEq H] in
theorem run_descends (a b : H) :
    (descends (ancestryOracle A) a b : TreeCall H N V E Bool).run t = .ok (A.desc a b) t := rfl

omit [DecidableEq H] in
theorem run_checkChildren (nodes : List (Node H N V)) :
    (checkChildren (ancestryOracle (E := E) A) hash number nodes).run t =
      if nodes.any (Blocks A hash number) then .error (.error .unfinalizedAncestor) t
      else .ok () t := by
  induction nodes with
  | nil => rfl
  | cons c cs ih =>
      by_cases hle : c.number ≤ number
      · cases hdesc : A.desc c.hash hash
        · simp [checkChildren, Blocks, hle, hdesc, ih, run_descends]
        · simp [checkChildren, Blocks, hle, hdesc, run_descends]
      · simp [checkChildren, Blocks, hle, ih]

/-- With a client that never fails, the search is `firstWith`, then the check
of the children of the node found. -/
theorem run_findPassing (nodes : List (Node H N V)) :
    (findPassing (ancestryOracle (E := E) A) hash number predicate nodes).run t =
      match firstWith (Passes A hash predicate) nodes with
      | some (i, node) =>
          if node.children.any (Blocks A hash number) then .error (.error .unfinalizedAncestor) t
          else .ok (some (i, node)) t
      | none => .ok none t := by
  induction nodes with
  | nil => rfl
  | cons node nodes ih =>
      -- the node taken: its children decide
      have htake : (do
          checkChildren (ancestryOracle (E := E) A) hash number node.children
          pure (some (0, node)) : TreeCall H N V E (Option (ℕ × Node H N V))).run t =
            if node.children.any (Blocks A hash number) then .error (.error .unfinalizedAncestor) t
            else .ok (some (0, node)) t := by
        rw [EStateM.run_bind, run_checkChildren]
        by_cases hb : node.children.any (Blocks A hash number) <;> simp [hb]
      have hrest : (do
          let rest ← findPassing (ancestryOracle (E := E) A) hash number predicate nodes
          pure (rest.map fun (p : ℕ × Node H N V) => (p.1 + 1, p.2))).run t =
            match (firstWith (Passes A hash predicate) nodes).map fun p => (p.1 + 1, p.2) with
            | some (i, node) =>
                if node.children.any (Blocks A hash number) then
                  .error (.error .unfinalizedAncestor) t
                else .ok (some (i, node)) t
            | none => .ok none t := by
        rw [EStateM.run_bind, ih]
        rcases firstWith (Passes A hash predicate) nodes with _ | ⟨i, m⟩
        · rfl
        · by_cases hm : m.children.any (Blocks A hash number) <;> simp [hm]
      cases hpass : Passes A hash predicate node with
      | true =>
          rw [firstWith_cons_pos hpass]
          simp only [Passes, Bool.and_eq_true, Bool.or_eq_true, decide_eq_true_eq] at hpass
          obtain ⟨hpred, hbelow⟩ := hpass
          by_cases heq : node.hash = hash
          · simp only [findPassing, hpred, heq, if_true, pure_bind]
            exact htake
          · have hdesc := hbelow.resolve_left heq
            simp only [findPassing, hpred, heq, if_true, if_false]
            rw [EStateM.run_bind, run_descends, hdesc]
            exact htake
      | false =>
          rw [firstWith_cons_neg hpass]
          simp only [Passes, Bool.and_eq_false_iff, Bool.or_eq_false_iff, decide_eq_false_iff_not] at hpass
          rcases hpass with hpred | ⟨hne, hdesc⟩
          · simp only [findPassing, hpred, Bool.false_eq_true, if_false]
            exact hrest
          · by_cases hpred : predicate node.data
            · simp only [findPassing, hpred, hne, if_true, if_false]
              rw [EStateM.run_bind, run_descends, hdesc]
              exact hrest
            · simp only [findPassing, hpred, Bool.false_eq_true, if_false]
              exact hrest

omit [DecidableEq H] in
/-- The check that opens each finalization passes and writes nothing, or
fails with `Revert`. -/
theorem run_checkRevert (number : N) (t : ForkTree H N V) :
    (checkRevert number : TreeCall H N V E Unit).run t = .ok () t ∨
      (checkRevert number : TreeCall H N V E Unit).run t = .error (.error .revert) t := by
  unfold checkRevert
  rcases hbest : t.bestFinalizedNumber with _ | best
  · simp [hbest]
  · by_cases hle : number ≤ best <;> simp [hbest, hle]

omit [DecidableEq H] in
theorem run_checkRevert_of_lt {number : N} (h : ∀ b, t.bestFinalizedNumber = some b → b < number) :
    (checkRevert number : TreeCall H N V E Unit).run t = .ok () t := by
  unfold checkRevert
  rcases hbest : t.bestFinalizedNumber with _ | b
  · simp [hbest]
  · simp [hbest, not_le.2 (h b hbest)]

theorem run_finalizesAnyWithDescendentIf
    (hrev : (checkRevert number : TreeCall H N V E Unit).run t = .ok () t) :
    (finalizesAnyWithDescendentIf (ancestryOracle (E := E) A) hash number predicate).run t =
      match firstWith (Passes A hash predicate) (Node.preorderAll t.roots) with
      | some (_, node) =>
          if node.children.any (Blocks A hash number) then .error (.error .unfinalizedAncestor) t
          else .ok (some (t.roots.any fun root => decide (root.hash = node.hash))) t
      | none => .ok none t := by
  unfold finalizesAnyWithDescendentIf
  rw [run_bind_ok hrev, run_bind_ok (m := get) rfl, EStateM.run_bind, run_findPassing]
  rcases firstWith (Passes A hash predicate) (Node.preorderAll t.roots) with _ | ⟨j, node⟩
  · rfl
  · by_cases hskip : node.children.any (Blocks A hash number) <;> simp [hskip]

omit [DecidableEq H] [LinearOrder N] in
theorem run_finalizeRootAt {position : ℕ} {node : Node H N V} (h : t.roots[position]? = some node) :
    (finalizeRootAt position : TreeCall H N V E V).run t =
      .ok node.data { t with roots := node.children, bestFinalizedNumber := some node.number } := by
  unfold finalizeRootAt
  rw [run_get_bind, h, run_bind_ok run_unwrap_some, run_set_bind]
  rfl

/-- The `keep` of `finalize_with_descendent_if` answers `retains`, and writes
nothing, when the client answers from the ancestry. -/
theorem run_keep_eq (r : Node H N V) (s : ForkTree H N V) :
    ((do
      if r.number > number then
        if ← descends (ancestryOracle (E := E) A) hash r.hash then return true
      if r.number = number ∧ r.hash = hash then return true
      descends (ancestryOracle (E := E) A) r.hash hash) : TreeCall H N V E Bool).run s =
        .ok (retains A hash number r) s := by
  by_cases hgt : r.number > number <;> by_cases hat : r.number = number ∧ r.hash = hash <;>
    cases hdesc : A.desc hash r.hash <;> simp [retains, hgt, hat, hdesc, run_descends]

omit [DecidableEq H] [LinearOrder N] in
/-- A `keep` that answers `p` of each root and writes nothing puts back the
roots `p` accepts, in order; `true` when it rejected one. -/
theorem run_retainRoots_of_answers {keep : Node H N V → TreeCall H N V E Bool}
    {p : Node H N V → Bool} :
    ∀ (roots : List (Node H N V)), (∀ root ∈ roots, ∀ s, (keep root).run s = .ok (p root) s) →
      ∀ (changed : Bool) (s : ForkTree H N V),
        (retainRoots keep roots changed).run s =
          .ok (changed || roots.any fun r => !p r) { s with roots := s.roots ++ roots.filter p }
  | [], _, changed, s => by simp [retainRoots]
  | root :: roots, hkeep, changed, s => by
      unfold retainRoots
      have hrest := run_retainRoots_of_answers roots fun r hr => hkeep r (List.mem_cons_of_mem _ hr)
      rw [run_bind_ok (hkeep root List.mem_cons_self s)]
      cases hp : p root
      · -- rejected: the loop goes on with `changed` set
        rw [if_neg Bool.false_ne_true, hrest]
        simp [hp]
      · rw [if_pos rfl, run_modify_bind, hrest]
        simp [hp]

omit [DecidableEq H] [LinearOrder N] in
/-- The end of the finalizations with such a `keep`: the roots it accepts,
and `number` as the best finalized number. -/
theorem run_retainAndFinalize_of_answers {keep : Node H N V → TreeCall H N V E Bool}
    {p : Node H N V → Bool} (hkeep : ∀ root ∈ t.roots, ∀ s, (keep root).run s = .ok (p root) s)
    (number : N) :
    (retainAndFinalize number keep).run t =
      .ok (t.roots.any fun r => !p r)
        { t with roots := t.roots.filter p, bestFinalizedNumber := some number } := by
  unfold retainAndFinalize
  rw [run_get_bind, run_set_bind, run_bind_ok (run_retainRoots_of_answers t.roots hkeep false _),
    run_modify_bind]
  simp


/-- When a root passes and no child blocks it, the finalization puts the
children it retains in its place. -/
theorem run_finalizeWithDescendentIf_found_retains
    (hrev : (checkRevert number : TreeCall H N V E Unit).run t = .ok () t) {i : ℕ}
    {root : Node H N V} (hfirst : firstWith (Passes A hash predicate) t.roots = some (i, root))
    (hskip : root.children.any (Blocks A hash number) = false) :
    (finalizeWithDescendentIf (ancestryOracle (E := E) A) hash number predicate).run t =
      .ok (.changed (some root.data)) ⟨root.children.filter (retains A hash number), some number⟩ := by
  unfold finalizeWithDescendentIf
  rw [run_bind_ok hrev, run_get_bind, EStateM.run_bind, run_findPassing, hfirst]
  simp only [hskip, Bool.false_eq_true, if_false]
  rw [EStateM.run_bind, EStateM.run_map, run_finalizeRootAt (firstWith_spec hfirst).1]
  simp only [EStateM.Result.map]
  rw [EStateM.run_bind, run_retainAndFinalize_of_answers (fun r _ s => run_keep_eq r s)]
  rfl

theorem run_finalizeWithDescendentIf_found
    (hrev : (checkRevert number : TreeCall H N V E Unit).run t = .ok () t) {i : ℕ}
    {root : Node H N V} (hfirst : firstWith (Passes A hash predicate) t.roots = some (i, root))
    (hskip : root.children.any (Blocks A hash number) = false) :
    ∃ t', (finalizeWithDescendentIf (ancestryOracle (E := E) A) hash number predicate).run t =
      .ok (.changed (some root.data)) t' :=
  ⟨_, run_finalizeWithDescendentIf_found_retains hrev hfirst hskip⟩

theorem run_finalizeWithDescendentIf_skips
    (hrev : (checkRevert number : TreeCall H N V E Unit).run t = .ok () t) {i : ℕ}
    {root : Node H N V} (hfirst : firstWith (Passes A hash predicate) t.roots = some (i, root))
    (hskip : root.children.any (Blocks A hash number) = true) :
    (finalizeWithDescendentIf (ancestryOracle (E := E) A) hash number predicate).run t =
      .error (.error .unfinalizedAncestor) t := by
  unfold finalizeWithDescendentIf
  rw [run_bind_ok hrev, run_get_bind, EStateM.run_bind, run_findPassing, hfirst]
  simp only [hskip, if_true]

/-- When no root passes, the finalization keeps the roots it retains. -/
theorem run_finalizeWithDescendentIf_none_retains
    (hrev : (checkRevert number : TreeCall H N V E Unit).run t = .ok () t)
    (hnone : firstWith (Passes A hash predicate) t.roots = none) :
    (finalizeWithDescendentIf (ancestryOracle (E := E) A) hash number predicate).run t =
      .ok (if t.roots.any (fun r => !retains A hash number r) then .changed none else .unchanged)
        ⟨t.roots.filter (retains A hash number), some number⟩ := by
  unfold finalizeWithDescendentIf
  rw [run_bind_ok hrev, run_get_bind, EStateM.run_bind, run_findPassing, hnone]
  simp only [pure_bind]
  rw [EStateM.run_bind, run_retainAndFinalize_of_answers (fun r _ s => run_keep_eq r s)]
  cases t.roots.any fun r => !retains A hash number r <;> rfl

theorem run_finalizeWithDescendentIf_none
    (hrev : (checkRevert number : TreeCall H N V E Unit).run t = .ok () t)
    (hnone : firstWith (Passes A hash predicate) t.roots = none) :
    ∃ (changed : Bool) (t' : ForkTree H N V), (finalizeWithDescendentIf (ancestryOracle (E := E) A) hash number predicate).run t =
      .ok (if changed then .changed none else .unchanged) t' :=
  ⟨_, _, run_finalizeWithDescendentIf_none_retains hrev hnone⟩

end Search

section Forest

variable {A} {hash : H} {predicate : V → Bool} {l : List (Node H N V)} {r : Node H N V}

theorem below_of_passes {node : Node H N V} (h : Passes A hash predicate node = true) :
    A.Below node.hash hash := by
  simp only [Passes, Bool.and_eq_true, Bool.or_eq_true, decide_eq_true_eq] at h
  exact h.2

omit [DecidableEq H] in
/-- Of pairwise incomparable blocks, at most one is the block or an ancestor
of it. -/
theorem eq_of_below (hl : l.Pairwise fun a b => A.Incomparable a.hash b.hash) {a b : Node H N V}
    (ha : a ∈ l) (hb : b ∈ l) (ha' : A.Below a.hash hash) (hb' : A.Below b.hash hash) : a = b := by
  induction l with
  | nil => simp at ha
  | cons x xs ih =>
      rw [List.pairwise_cons] at hl
      rcases List.mem_cons.1 ha with rfl | haxs
      · rcases List.mem_cons.1 hb with rfl | hbxs
        · rfl
        · exact absurd hb' ((hl.1 b hbxs).not_below_both ha')
      · rcases List.mem_cons.1 hb with rfl | hbxs
        · exact absurd ha' ((hl.1 a haxs).not_below_both hb')
        · exact ih hl.2 haxs hbxs

theorem Siblings.firstWith_roots (hl : Siblings A l) (hr : r ∈ l)
    (hpass : Passes A hash predicate r = true) :
    ∃ i, firstWith (Passes A hash predicate) l = some (i, r) :=
  firstWith_of_unique hr hpass fun _ hb hbpass =>
    eq_of_below hl.incomparable hb hr (below_of_passes hbpass) (below_of_passes hpass)

/-- So does the search over every node in pre-order: no node under an earlier
root is the block or an ancestor of it, or that root would be too. -/
theorem Siblings.firstWith_preorderAll (hl : Siblings A l) (hr : r ∈ l)
    (hpass : Passes A hash predicate r = true) :
    ∃ j, firstWith (Passes A hash predicate) (Node.preorderAll l) = some (j, r) := by
  induction l with
  | nil => simp at hr
  | cons x xs ih =>
      have hpair := List.pairwise_cons.1 hl.incomparable
      rcases List.mem_cons.1 hr with rfl | hr
      · -- the root heads its own subtree
        refine ⟨0, ?_⟩
        rw [Node.preorderAll_cons, Node.preorder_eq, List.cons_append, firstWith_cons_pos hpass]
      · have hnone : ∀ m ∈ x.preorder, Passes A hash predicate m = false := by
          intro m hm
          by_contra hm'
          rw [Bool.not_eq_false] at hm'
          have hx : A.Below x.hash hash :=
            Ancestry.Below.trans ((hl.wf x List.mem_cons_self).of_mem_preorder hm).2 (below_of_passes hm')
          exact (hpair.1 r hr).not_below_both hx (below_of_passes hpass)
        obtain ⟨j, hj⟩ := ih (hl.sublist (List.sublist_cons_self x xs)) hr
        refine ⟨j + x.preorder.length, ?_⟩
        rw [Node.preorderAll_cons, firstWith_append_of_forall hnone, hj]
        rfl

end Forest

section Agreement

variable {A} {hash : H} {number : N} {predicate : V → Bool} {t : ForkTree H N V}

/-- A root the check reports is found and finalized by the finalization,
under the same predicate or one that accepts more. -/
theorem changed_of_finalizesAny {predicate' : V → Bool} (ht : t.Wf A)
    (hweaker : ∀ v, predicate v = true → predicate' v = true)
    (h : (finalizesAnyWithDescendentIf (ancestryOracle (E := E) A) hash number predicate).run t =
      .ok (some true) t) :
    ∃ d t', (finalizeWithDescendentIf (ancestryOracle (E := E) A) hash number predicate').run t =
      .ok (.changed (some d)) t' := by
  rcases run_checkRevert (E := E) number t with hrev | hrev
  swap
  · unfold finalizesAnyWithDescendentIf at h
    rw [run_bind_error hrev] at h
    cases h
  rw [run_finalizesAnyWithDescendentIf hrev] at h
  rcases hfirst : firstWith (Passes A hash predicate) (Node.preorderAll t.roots) with _ | ⟨j, node⟩
  · rw [hfirst] at h
    cases h
  rw [hfirst] at h
  cases hskip : node.children.any (Blocks A hash number)
  · simp only [hskip, Bool.false_eq_true, if_false, EStateM.Result.ok.injEq, Option.some.injEq,
      List.any_eq_true, decide_eq_true_eq] at h
    obtain ⟨⟨root, hroot, hhash⟩, -⟩ := h
    -- the node found is that root: the hashes of the tree are distinct
    have heq : root = node := List.inj_on_of_nodup_map ht.nodup_hashes
      (Node.mem_preorderAll_of_mem hroot) (mem_of_firstWith hfirst) hhash
    subst heq
    have hpass : Passes A hash predicate' root = true := by
      have h₁ := (firstWith_spec hfirst).2
      simp only [Passes, Bool.and_eq_true] at h₁ ⊢
      exact ⟨hweaker _ h₁.1, h₁.2⟩
    obtain ⟨i, hi⟩ := ht.firstWith_roots hroot hpass
    obtain ⟨t', ht'⟩ := run_finalizeWithDescendentIf_found hrev hi hskip
    exact ⟨root.data, t', ht'⟩
  · simp only [hskip, if_true] at h
    cases h

theorem finalizesAny_of_changed (ht : t.Wf A) {d : V} {t' : ForkTree H N V}
    (h : (finalizeWithDescendentIf (ancestryOracle (E := E) A) hash number predicate).run t =
      .ok (.changed (some d)) t') :
    (finalizesAnyWithDescendentIf (ancestryOracle (E := E) A) hash number predicate).run t =
      .ok (some true) t := by
  rcases run_checkRevert (E := E) number t with hrev | hrev
  swap
  · unfold finalizeWithDescendentIf at h
    rw [run_bind_error hrev] at h
    cases h
  rcases hfirst : firstWith (Passes A hash predicate) t.roots with _ | ⟨i, root⟩
  · obtain ⟨changed, t'', h'⟩ := run_finalizeWithDescendentIf_none hrev hfirst
    rw [h'] at h
    cases changed <;> simp at h
  cases hskip : root.children.any (Blocks A hash number)
  · have hroot := mem_of_firstWith hfirst
    obtain ⟨j, hj⟩ := ht.firstWith_preorderAll hroot (firstWith_spec hfirst).2
    rw [run_finalizesAnyWithDescendentIf hrev, hj]
    simp only [hskip, Bool.false_eq_true, if_false, EStateM.Result.ok.injEq, Option.some.injEq,
      List.any_eq_true, decide_eq_true_eq, and_true]
    exact ⟨root, hroot, rfl⟩
  · rw [run_finalizeWithDescendentIf_skips hrev hfirst hskip] at h
    cases h

/-- A finalization that would pass over an unfinalized ancestor is one the
check reports so too. -/
theorem finalizesAny_unfinalized (ht : t.Wf A) {t' : ForkTree H N V}
    (h : (finalizeWithDescendentIf (ancestryOracle (E := E) A) hash number predicate).run t =
      .error (.error .unfinalizedAncestor) t') :
    (finalizesAnyWithDescendentIf (ancestryOracle (E := E) A) hash number predicate).run t =
      .error (.error .unfinalizedAncestor) t := by
  rcases run_checkRevert (E := E) number t with hrev | hrev
  swap
  · unfold finalizeWithDescendentIf at h
    rw [run_bind_error hrev] at h
    cases h
  rcases hfirst : firstWith (Passes A hash predicate) t.roots with _ | ⟨i, root⟩
  · obtain ⟨changed, t'', h'⟩ := run_finalizeWithDescendentIf_none hrev hfirst
    rw [h'] at h
    cases h
  cases hskip : root.children.any (Blocks A hash number)
  · obtain ⟨t'', h'⟩ := run_finalizeWithDescendentIf_found hrev hfirst hskip
    rw [h'] at h
    cases h
  · obtain ⟨j, hj⟩ := ht.firstWith_preorderAll (mem_of_firstWith hfirst) (firstWith_spec hfirst).2
    rw [run_finalizesAnyWithDescendentIf hrev, hj]
    simp only [hskip, if_true]

end Agreement

end SocialNetwork.Fork
