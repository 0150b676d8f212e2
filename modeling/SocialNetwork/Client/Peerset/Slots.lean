import Mathlib
import SocialNetwork.Client.Peerset.PeersState

/-!
# The slot counters are exact

Each counter of a set is the number of known nodes connected through the
set in its direction that occupy a slot. `Consistent` states it, with the
shape of the nodes that the indices of the methods rely on. Each method,
reached through a handle of its kind, returns and keeps it
(`PeersState.Consistent.apply`): a step changes the nodes at one peer and
the counters of one set, and a counter moves by whether that peer occupies
a slot before and after (`Consistent.step`). A command on a set the state
does not have panics (`Command.run_apply_of_not_inRange`). From `new`
every reachable state is consistent, no counter is taken below zero, and a
node that connects while its counter is below the maximum leaves the
counter within it (`counters_of_reachable`).
-/

namespace SocialNetwork.Peerset

open Dispatch

variable {P : Type} [DecidableEq P]

/-- A count that moves by one element: two sets that agree off `p` differ in
size by whether each holds `p`. -/
theorem card_add_of_erase_eq {A B : Finset P} {p : P} (h : A.erase p = B.erase p) :
    A.card + (if p ∈ B then 1 else 0) = B.card + (if p ∈ A then 1 else 0) := by
  have hA : (A.erase p).card + (if p ∈ A then 1 else 0) = A.card := by
    split_ifs with hp
    · exact Finset.card_erase_add_one hp
    · rw [Finset.erase_eq_of_notMem hp, Nat.add_zero]
  have hB : (B.erase p).card + (if p ∈ B then 1 else 0) = B.card := by
    split_ifs with hp
    · exact Finset.card_erase_add_one hp
    · rw [Finset.erase_eq_of_notMem hp, Nat.add_zero]
  rw [h] at hA
  omega

def SetInfo.counter (info : SetInfo P) : MembershipState → ℕ
  | .ingoing => info.numIn
  | .outgoing => info.numOut
  | _ => 0

def SetInfo.withCounter (info : SetInfo P) (m : MembershipState) (n : ℕ) : SetInfo P :=
  match m with
  | .ingoing => { info with numIn := n }
  | .outgoing => { info with numOut := n }
  | _ => info

omit [DecidableEq P] in
@[simp] theorem SetInfo.counter_withCounter (info : SetInfo P) (m m' : MembershipState) (n : ℕ) :
    (info.withCounter m n).counter m' = if m' = m ∧ m.isConnected then n else info.counter m' := by
  cases m <;> cases m' <;> rfl

omit [DecidableEq P] in
@[simp] theorem SetInfo.noSlotNodes_withCounter (info : SetInfo P) (m : MembershipState) (n : ℕ) :
    (info.withCounter m n).noSlotNodes = info.noSlotNodes := by
  cases m <;> rfl

omit [DecidableEq P] in
@[simp] theorem SetInfo.counter_noSlotNodes (info : SetInfo P) (X : Finset P) (m : MembershipState) :
    ({ info with noSlotNodes := X }).counter m = info.counter m := by
  cases m <;> rfl

omit [DecidableEq P] in
/-- A counter taken up by one for the direction `m` a node comes to
occupy, from none. -/
theorem SetInfo.counter_take (info : SetInfo P) {m m' : MembershipState} {A B : Prop} [Decidable A]
    [Decidable B] (hm' : m'.isConnected) (hA : ¬ A) (hB : B ↔ m' = m) :
    (info.withCounter m (info.counter m + 1)).counter m' + (if A then 1 else 0) =
      info.counter m' + (if B then 1 else 0) := by
  rw [if_neg hA, counter_withCounter]
  by_cases hmm : m' = m
  · subst hmm
    rw [if_pos (hB.2 rfl), if_pos ⟨rfl, hm'⟩]
  · rw [if_neg (fun h => hmm (hB.1 h)), if_neg (fun h => hmm h.1)]

omit [DecidableEq P] in
/-- A counter taken down by one for the direction `m` a node occupied, to
none. -/
theorem SetInfo.counter_release (info : SetInfo P) {m m' : MembershipState} {A B : Prop} [Decidable A]
    [Decidable B] (hm' : m'.isConnected) (hpos : m.isConnected → info.counter m ≠ 0) (hA : A ↔ m' = m)
    (hB : ¬ B) :
    (info.withCounter m (info.counter m - 1)).counter m' + (if A then 1 else 0) =
      info.counter m' + (if B then 1 else 0) := by
  rw [if_neg hB, counter_withCounter]
  by_cases hmm : m' = m
  · subst hmm
    rw [if_pos (hA.2 rfl), if_pos ⟨rfl, hm'⟩]
    have := hpos hm'
    omega
  · rw [if_neg (fun h => hmm (hA.1 h)), if_neg (fun h => hmm h.1)]

theorem MembershipState.ne_notMember {m : MembershipState} (hm : m.isConnected) : m ≠ .notMember := by
  rintro rfl
  exact Bool.false_ne_true hm

namespace PeersState

def stateIn (s : PeersState P) (set : ℕ) (peerId : P) : MembershipState :=
  ((s.nodes.lookup peerId).bind fun node => node.sets[set]?).getD .notMember

def noSlot (s : PeersState P) (set : ℕ) : Finset P := (s.sets[set]?.map (·.noSlotNodes)).getD ∅

def Holds (s : PeersState P) (set : ℕ) (m : MembershipState) (peerId : P) : Prop :=
  s.stateIn set peerId = m ∧ peerId ∉ s.noSlot set

instance (s : PeersState P) (set : ℕ) (m : MembershipState) (peerId : P) :
    Decidable (s.Holds set m peerId) := inferInstanceAs (Decidable (_ ∧ _))

def occupying (s : PeersState P) (set : ℕ) (m : MembershipState) : Finset P :=
  s.nodes.keys.filter (s.Holds set m)

variable {s s' : PeersState P} {set : ℕ} {p : P} {m : MembershipState}

theorem mem_occupying (hm : m ≠ .notMember) : p ∈ s.occupying set m ↔ s.Holds set m p := by
  unfold occupying
  rw [Finset.mem_filter, Finmap.mem_keys, and_iff_right_iff_imp]
  intro h
  by_contra hp
  rw [Holds, stateIn, Finmap.lookup_eq_none.2 hp] at h
  exact hm h.1.symm

theorem stateIn_of_lookup {node : Node} (h : s.nodes.lookup p = some node) (j : ℕ) :
    s.stateIn j p = node.sets[j]?.getD .notMember := by
  rw [stateIn, h, Option.bind_some]

theorem stateIn_of_nodes (h : s'.nodes = s.nodes) : s'.stateIn = s.stateIn := by
  unfold stateIn
  rw [h]

theorem stateIn_insert {node : Node} (h : s'.nodes = s.nodes.insert p node) (j : ℕ) (x : P) :
    s'.stateIn j x = if x = p then node.sets[j]?.getD .notMember else s.stateIn j x := by
  by_cases hx : x = p
  · subst hx
    simp [stateIn, h]
  · simp [stateIn, h, hx, Finmap.lookup_insert_of_ne]

theorem stateIn_erase (h : s'.nodes = s.nodes.erase p) (j : ℕ) (x : P) :
    s'.stateIn j x = if x = p then .notMember else s.stateIn j x := by
  by_cases hx : x = p
  · subst hx
    simp [stateIn, h]
  · simp [stateIn, h, hx, Finmap.lookup_erase_ne]

theorem holds_insert {node : Node} (h : s'.nodes = s.nodes.insert p node) (j : ℕ) :
    s'.Holds j m p ↔ node.sets[j]?.getD .notMember = m ∧ p ∉ s'.noSlot j := by
  rw [Holds, stateIn_insert h, if_pos rfl]

omit [DecidableEq P] in
theorem noSlot_modify {f : SetInfo P → SetInfo P} {info : SetInfo P}
    (h : s'.sets = s.sets.modify set f) (hinfo : s.sets[set]? = some info) :
    s'.noSlot set = (f info).noSlotNodes := by
  rw [noSlot, h, List.getElem?_modify, hinfo]
  simp

theorem not_holds {m' : MembershipState} (h : s.stateIn set p = m') (hm' : m'.isConnected = false)
    (hm : m.isConnected) : ¬ s.Holds set m p := by
  rintro ⟨rfl, -⟩
  rw [h, hm'] at hm
  exact Bool.false_ne_true hm

theorem lookup_insert_length {node : Node} {n : ℕ} (h : s'.nodes = s.nodes.insert p node)
    (hlen : node.sets.length = n) : ∀ node', s'.nodes.lookup p = some node' → node'.sets.length = n := by
  intro node' h'
  rw [h, Finmap.lookup_insert, Option.some.injEq] at h'
  exact h' ▸ hlen

theorem lookup_insert_ne {node : Node} (h : s'.nodes = s.nodes.insert p node) :
    ∀ x, x ≠ p → s'.nodes.lookup x = s.nodes.lookup x := fun x hx => by
  rw [h, Finmap.lookup_insert_of_ne _ hx]

theorem lookup_erase_ne (h : s'.nodes = s.nodes.erase p) :
    ∀ x, x ≠ p → s'.nodes.lookup x = s.nodes.lookup x := fun x hx => by
  rw [h, Finmap.lookup_erase_ne hx]

/-- Writing one membership of a known node: its membership of the other
sets is as before. -/
theorem getD_set_eq {node : Node} (hnode : s.nodes.lookup p = some node) (hlt : set < node.sets.length)
    (m : MembershipState) (j : ℕ) :
    (node.sets.set set m)[j]?.getD .notMember = if j = set then m else s.stateIn j p := by
  rw [List.getElem?_set, stateIn_of_lookup hnode]
  by_cases hj : j = set
  · subst hj
    simp [hlt]
  · simp [Ne.symm hj, hj]

/-- Two states that agree off `p` on the nodes and the no-slot nodes of
`set` agree off `p` on who occupies a slot there. -/
theorem occupying_erase_eq (m : MembershipState)
    (hnodes : ∀ x, x ≠ p → s'.nodes.lookup x = s.nodes.lookup x)
    (hnoSlot : ∀ x, x ≠ p → (x ∈ s'.noSlot set ↔ x ∈ s.noSlot set)) :
    (s'.occupying set m).erase p = (s.occupying set m).erase p := by
  ext x
  simp only [Finset.mem_erase, occupying, Finset.mem_filter, Finmap.mem_keys, Holds, stateIn]
  constructor
  · rintro ⟨hx, hmem, hstate, hslot⟩
    rw [Finmap.mem_iff] at hmem
    rw [hnodes x hx] at hmem hstate
    exact ⟨hx, Finmap.mem_iff.2 hmem, hstate, fun h => hslot ((hnoSlot x hx).2 h)⟩
  · rintro ⟨hx, hmem, hstate, hslot⟩
    rw [Finmap.mem_iff] at hmem
    rw [← hnodes x hx] at hmem hstate
    exact ⟨hx, Finmap.mem_iff.2 hmem, hstate, fun h => hslot ((hnoSlot x hx).1 h)⟩

/-- A counter that moves by `p`'s slot is the count after a step that
changes who occupies a slot at `p` alone. -/
theorem card_occupying_step (hm : m ≠ .notMember)
    (hnodes : ∀ x, x ≠ p → s'.nodes.lookup x = s.nodes.lookup x)
    (hnoSlot : ∀ x, x ≠ p → (x ∈ s'.noSlot set ↔ x ∈ s.noSlot set)) {n n' : ℕ}
    (hn : n = (s.occupying set m).card)
    (h : n' + (if s.Holds set m p then 1 else 0) = n + (if s'.Holds set m p then 1 else 0)) :
    n' = (s'.occupying set m).card := by
  have hcard := card_add_of_erase_eq (occupying_erase_eq m hnodes hnoSlot)
  simp only [mem_occupying hm] at hcard
  split_ifs at hcard h <;> omega

/-- The invariant: every node has a membership for each set, and the
counter of each set and direction counts the nodes connected through it
that occupy a slot. -/
structure Consistent (s : PeersState P) : Prop where
  nodeSets : ∀ p node, s.nodes.lookup p = some node → node.sets.length = s.sets.length
  counters : ∀ set info m, s.sets[set]? = some info → m.isConnected →
    info.counter m = (s.occupying set m).card

/-- **Step at one node and one set.** A step that writes the node of `p`
alone, and the set `set` alone, through `f`, which keeps its no-slot nodes
off `p`, keeps the invariant when `p` keeps its membership of the other
sets and each counter of `set` moves as `p`'s slot in its direction. -/
theorem Consistent.step (hs : s.Consistent) {f : SetInfo P → SetInfo P}
    (hsets : s'.sets = s.sets.modify set f)
    (hnode : ∀ node, s'.nodes.lookup p = some node → node.sets.length = s.sets.length)
    (hnodes : ∀ x, x ≠ p → s'.nodes.lookup x = s.nodes.lookup x)
    (hf : ∀ info x, x ≠ p → (x ∈ (f info).noSlotNodes ↔ x ∈ info.noSlotNodes))
    (hother : ∀ j, j ≠ set → s'.stateIn j p = s.stateIn j p)
    (hcount : ∀ info m, s.sets[set]? = some info → m.isConnected →
      (f info).counter m + (if s.Holds set m p then 1 else 0) =
        info.counter m + (if s'.Holds set m p then 1 else 0)) :
    s'.Consistent := by
  have hlen : s'.sets.length = s.sets.length := by rw [hsets, List.length_modify]
  -- the sets after, index by index
  have hat : ∀ j, s'.sets[j]? = (s.sets[j]?).map fun info => if set = j then f info else info := by
    intro j
    rw [hsets, List.getElem?_modify]
    rfl
  have hsame : ∀ j, set ≠ j → s'.noSlot j = s.noSlot j := by
    intro j hj
    simp only [noSlot, hat, if_neg hj, Option.map_id']
  have hnoSlot : ∀ j x, x ≠ p → (x ∈ s'.noSlot j ↔ x ∈ s.noSlot j) := by
    intro j x hx
    by_cases hj : set = j
    · subst hj
      simp only [noSlot, hat]
      cases s.sets[set]? with
      | none => exact Iff.rfl
      | some info => exact hf info x hx
    · rw [hsame j hj]
  refine ⟨fun x node hx => ?_, fun j info' m h hm => ?_⟩
  · rw [hlen]
    by_cases hxp : x = p
    · subst hxp
      exact hnode node hx
    · rw [hnodes x hxp] at hx
      exact hs.nodeSets x node hx
  · rw [hat] at h
    obtain ⟨info, hinfo, rfl⟩ := Option.map_eq_some_iff.1 h
    refine card_occupying_step (MembershipState.ne_notMember hm) hnodes (hnoSlot j)
      (hs.counters j info m hinfo hm) ?_
    by_cases hj : set = j
    · subst hj
      rw [if_pos rfl]
      exact hcount info m hinfo hm
    · -- off `set`, neither the counter nor `p`'s slot moves
      have hholds : s'.Holds j m p ↔ s.Holds j m p := by
        rw [Holds, Holds, hother j (Ne.symm hj), hsame j hj]
      simp only [if_neg hj, hholds]

/-- **Step at one node.** A step that writes the node of `p` alone keeps
the invariant when `p` keeps its membership of every set but `set`, and
occupies a slot of `set` in a direction after exactly when it did before. -/
theorem Consistent.of_nodes (hs : s.Consistent) (set : ℕ) (hsets : s'.sets = s.sets)
    (hnode : ∀ node, s'.nodes.lookup p = some node → node.sets.length = s.sets.length)
    (hnodes : ∀ x, x ≠ p → s'.nodes.lookup x = s.nodes.lookup x)
    (hother : ∀ j, j ≠ set → s'.stateIn j p = s.stateIn j p)
    (hholds : ∀ m, m.isConnected → (s'.Holds set m p ↔ s.Holds set m p)) : s'.Consistent := by
  refine hs.step (f := id) (by rw [hsets, List.modify_id]) hnode hnodes (fun _ _ _ => Iff.rfl) hother
    (fun info m _ hm => ?_)
  simp only [id, hholds m hm]

/-- A step that writes the node of `p` alone, keeping its membership of
every set, keeps the invariant. -/
theorem Consistent.of_memberships (hs : s.Consistent) (hsets : s'.sets = s.sets)
    (hnode : ∀ node, s'.nodes.lookup p = some node → node.sets.length = s.sets.length)
    (hnodes : ∀ x, x ≠ p → s'.nodes.lookup x = s.nodes.lookup x)
    (hstate : ∀ j, s'.stateIn j p = s.stateIn j p) : s'.Consistent := by
  refine hs.of_nodes 0 hsets hnode hnodes (fun j _ => hstate j) (fun m _ => ?_)
  rw [Holds, Holds, hstate, noSlot, noSlot, hsets]

end PeersState

open PeersState

variable {s : PeersState P} {set : ℕ} {p : P} {m : MembershipState} {info : SetInfo P} {node : Node}

def Peer.ofState : MembershipState → Peer
  | .notMember => .unknown
  | .ingoing | .outgoing => .connected
  | .notConnected => .notConnected

theorem run_peer (hs : s.Consistent) (hset : set < s.sets.length) :
    (peer set p).run s = .ok (Peer.ofState (s.stateIn set p)) s := by
  unfold peer
  simp only [run_get_bind, if_neg (Nat.not_le.2 hset)]
  cases hl : s.nodes.lookup p with
  | none =>
    simp only [stateIn, hl, Option.bind_none, Option.getD_none]
    rfl
  | some node =>
    have hlt : set < node.sets.length := (hs.nodeSets p node hl).symm ▸ hset
    simp only [stateIn, hl, Option.bind_some, List.getElem?_eq_getElem hlt, Option.getD_some]
    simp only [membership, List.getElem?_eq_getElem hlt, run_bind_ok (run_unwrap_some)]
    cases node.sets[set] <;> rfl

theorem run_peer_of_le (hset : s.sets.length ≤ set) : (peer set p).run s = .error .panic s := by
  simp only [peer, run_get_bind, if_pos hset, run_panic]

omit [DecidableEq P] in
theorem run_setInfo (hinfo : s.sets[set]? = some info) : (setInfo set).run s = .ok info s := by
  simp only [setInfo, run_get_bind, hinfo, run_unwrap_some]

omit [DecidableEq P] in
theorem run_setInfo_of_le (hset : s.sets.length ≤ set) : (setInfo set).run s = .error .panic s := by
  simp only [setInfo, run_get_bind, List.getElem?_eq_none hset, run_unwrap_none]

theorem getElem?_sets (hs : s.Consistent) (hnode : s.nodes.lookup p = some node)
    (hset : set < s.sets.length) : node.sets[set]? = some (s.stateIn set p) := by
  have hlt : set < node.sets.length := (hs.nodeSets p node hnode).symm ▸ hset
  rw [stateIn_of_lookup hnode, List.getElem?_eq_getElem hlt, Option.getD_some]

/-! ### `discover` -/

/-- The node of `peerId`, or a new one: what `discover` and
`peer_reputation` start from. -/
def PeersState.nodeOrNew (s : PeersState P) (peerId : P) : Node :=
  (s.nodes.lookup peerId).getD (Node.new s.sets.length)

theorem nodeOrNew_length (hs : s.Consistent) (p : P) : (s.nodeOrNew p).sets.length = s.sets.length := by
  unfold PeersState.nodeOrNew
  cases hl : s.nodes.lookup p with
  | none => simp [Node.new]
  | some node => exact hs.nodeSets p node hl

theorem stateIn_eq_nodeOrNew (s : PeersState P) (j : ℕ) (p : P) :
    s.stateIn j p = ((s.nodeOrNew p).sets[j]?).getD .notMember := by
  unfold PeersState.nodeOrNew stateIn
  cases s.nodes.lookup p with
  | none =>
    simp only [Option.bind_none, Option.getD_none, Node.new, List.getElem?_replicate]
    split_ifs <;> rfl
  | some node => rfl

theorem run_discover (hs : s.Consistent) (hset : set < s.sets.length) :
    (discover set p).run s = .ok () { s with
      nodes := s.nodes.insert p { s.nodeOrNew p with sets := (s.nodeOrNew p).sets.set set .notConnected } } := by
  have hlt : set < ((s.nodes.lookup p).getD (Node.new s.sets.length)).sets.length :=
    (nodeOrNew_length hs p).symm ▸ hset
  simp only [discover, setMembership, if_pos hlt, run_get_bind]
  rfl

/-- `discover` makes an unknown node a member, not connected: it occupies
no slot before or after. -/
theorem PeersState.Consistent.discover (hs : s.Consistent) (hset : set < s.sets.length)
    (hp : s.stateIn set p = .notMember) {s' : PeersState P}
    (hnodes : s'.nodes = s.nodes.insert p { s.nodeOrNew p with sets := (s.nodeOrNew p).sets.set set .notConnected })
    (hsets : s'.sets = s.sets) : s'.Consistent := by
  have hstate : ∀ j, s'.stateIn j p = if j = set then .notConnected else s.stateIn j p := by
    intro j
    rw [stateIn_insert hnodes, if_pos rfl, List.getElem?_set, stateIn_eq_nodeOrNew]
    by_cases hj : j = set
    · subst hj
      simp [nodeOrNew_length hs p, hset]
    · simp [Ne.symm hj, hj]
  refine hs.of_nodes set hsets (fun node h => ?_) (fun x hx => by rw [hnodes, Finmap.lookup_insert_of_ne _ hx])
    (fun j hj => by rw [hstate, if_neg hj]) (fun m hm => ?_)
  · rw [hnodes, Finmap.lookup_insert, Option.some.injEq] at h
    subst h
    rw [List.length_set, nodeOrNew_length hs p]
  · have hafter : s'.stateIn set p = .notConnected := by rw [hstate, if_pos rfl]
    exact iff_of_false (not_holds hafter rfl hm) (not_holds hp rfl hm)

/-! ### `try_outgoing` and `try_accept_incoming` -/

section Connect

variable {num max : SetInfo P → ℕ} {bump : SetInfo P → SetInfo P}

theorem run_tryConnect (hinfo : s.sets[set]? = some info) (hnode : s.nodes.lookup p = some node)
    (hlt : set < node.sets.length) :
    (tryConnect m num max bump set p).run s =
      if max info ≤ num info ∧ p ∉ info.noSlotNodes then .ok false s
      else .ok true
        { nodes := s.nodes.insert p { node with sets := node.sets.set set m },
          sets := if p ∉ info.noSlotNodes then s.sets.modify set bump else s.sets } := by
  simp only [tryConnect, run_bind_ok (run_setInfo hinfo)]
  split_ifs with hfull hslot
  · rfl
  · simp only [run_get_bind, hnode, setMembership, if_pos hlt]
    rfl
  · simp only [run_get_bind, hnode, setMembership, if_pos hlt]
    rfl

/-- A node that connects leaves the set's other counter and the other sets
alone, and moves the counter of its direction when it occupies a slot. -/
theorem PeersState.Consistent.tryConnect (hs : s.Consistent)
    (hbump : ∀ info, bump info = info.withCounter m (info.counter m + 1))
    (hinfo : s.sets[set]? = some info) (hnode : s.nodes.lookup p = some node)
    (hp : s.stateIn set p = .notConnected) {s' : PeersState P}
    (hnodes : s'.nodes = s.nodes.insert p { node with sets := node.sets.set set m })
    (hsets : s'.sets = if p ∉ info.noSlotNodes then s.sets.modify set bump else s.sets) :
    s'.Consistent := by
  have hlt : set < node.sets.length :=
    (hs.nodeSets p node hnode).symm ▸ (List.getElem?_eq_some_iff.1 hinfo).1
  have hstate := getD_set_eq hnode hlt m
  have hlen := lookup_insert_length hnodes ((List.length_set ..).trans (hs.nodeSets p node hnode))
  have hothers := lookup_insert_ne hnodes
  have hother : ∀ j, j ≠ set → s'.stateIn j p = s.stateIn j p := fun j hj => by
    rw [stateIn_insert hnodes, if_pos rfl, hstate, if_neg hj]
  by_cases hslot : p ∈ info.noSlotNodes
  · -- a node that occupies no slot moves no counter
    rw [if_neg (not_not_intro hslot)] at hsets
    refine hs.of_nodes set hsets hlen hothers hother (fun m' hm' => ?_)
    have hin : p ∈ s'.noSlot set := by rw [noSlot, hsets, hinfo]; exact hslot
    exact iff_of_false (fun h => h.2 hin) (not_holds hp rfl hm')
  · rw [if_pos hslot] at hsets
    refine hs.step hsets hlen hothers (fun info x _ => ?_) hother (fun info' m' h hm' => ?_)
    · rw [hbump, SetInfo.noSlotNodes_withCounter]
    · rw [hinfo, Option.some.injEq] at h
      subst h
      -- after, `p` occupies a slot in its direction alone
      have hafter : s'.Holds set m' p ↔ m' = m := by
        rw [holds_insert hnodes, hstate, if_pos rfl, noSlot_modify hsets hinfo, hbump,
          SetInfo.noSlotNodes_withCounter, eq_comm]
        exact and_iff_left hslot
      rw [hbump]
      exact SetInfo.counter_take _ hm' (not_holds hp rfl hm') hafter

end Connect

/-! ### `disconnect` -/

theorem PeersState.Consistent.counter_ne_zero (hs : s.Consistent) (hinfo : s.sets[set]? = some info)
    (hm : m.isConnected) (h : s.Holds set m p) : info.counter m ≠ 0 := by
  rw [hs.counters set info m hinfo hm]
  exact Finset.card_ne_zero_of_mem ((mem_occupying (MembershipState.ne_notMember hm)).2 h)

omit [DecidableEq P] in
theorem run_releaseSlot (hinfo : s.sets[set]? = some info) (hpos : m.isConnected → info.counter m ≠ 0) :
    (releaseSlot set m).run s =
      .ok () { s with sets := s.sets.modify set fun i => i.withCounter m (info.counter m - 1) } := by
  simp only [releaseSlot, run_bind_ok (run_setInfo hinfo)]
  cases m with
  | ingoing =>
    have h : info.numIn ≠ 0 := hpos rfl
    simp only [decrement, if_neg h]
    rfl
  | outgoing =>
    have h : info.numOut ≠ 0 := hpos rfl
    simp only [decrement, if_neg h]
    rfl
  | notMember | notConnected =>
    show EStateM.Result.ok () s = .ok () { s with sets := s.sets.modify set id }
    rw [List.modify_id]

theorem run_disconnect (hs : s.Consistent) (hinfo : s.sets[set]? = some info)
    (hnode : s.nodes.lookup p = some node) (hp : s.stateIn set p = m) (hm : m.isConnected) :
    (disconnect set p).run s = .ok ()
      { nodes := s.nodes.insert p { node with sets := node.sets.set set .notConnected },
        sets := if p ∉ info.noSlotNodes then s.sets.modify set (fun i => i.withCounter m (info.counter m - 1))
          else s.sets } := by
  have hlt : set < node.sets.length :=
    (hs.nodeSets p node hnode).symm ▸ (List.getElem?_eq_some_iff.1 hinfo).1
  have hmem : node.sets[set]? = some m := hp ▸ getElem?_sets hs hnode (List.getElem?_eq_some_iff.1 hinfo).1
  simp only [disconnect, run_bind_ok (run_setInfo hinfo), run_get_bind, hnode]
  split_ifs with hslot
  · simp only [setMembership, if_pos hlt]
    rfl
  · have hpos : info.counter m ≠ 0 := by
      refine hs.counter_ne_zero hinfo hm ⟨hp, ?_⟩
      rw [noSlot, hinfo]
      exact hslot
    simp only [membership, hmem, run_bind_ok run_unwrap_some, hm, if_true]
    rw [run_bind_ok (run_releaseSlot hinfo fun _ => hpos)]
    simp only [setMembership, if_pos hlt]
    rfl

theorem PeersState.Consistent.disconnect (hs : s.Consistent) (hinfo : s.sets[set]? = some info)
    (hnode : s.nodes.lookup p = some node) (hp : s.stateIn set p = m) (hm : m.isConnected)
    {s' : PeersState P} (hnodes : s'.nodes = s.nodes.insert p { node with sets := node.sets.set set .notConnected })
    (hsets : s'.sets = if p ∉ info.noSlotNodes then s.sets.modify set (fun i => i.withCounter m (info.counter m - 1))
      else s.sets) : s'.Consistent := by
  have hlt : set < node.sets.length :=
    (hs.nodeSets p node hnode).symm ▸ (List.getElem?_eq_some_iff.1 hinfo).1
  have hstate := getD_set_eq hnode hlt .notConnected
  have hlen := lookup_insert_length hnodes ((List.length_set ..).trans (hs.nodeSets p node hnode))
  have hother : ∀ j, j ≠ set → s'.stateIn j p = s.stateIn j p := fun j hj => by
    rw [stateIn_insert hnodes, if_pos rfl, hstate, if_neg hj]
  have hafter : s'.stateIn set p = .notConnected := by rw [stateIn_insert hnodes, if_pos rfl, hstate, if_pos rfl]
  by_cases hslot : p ∈ info.noSlotNodes
  · -- a node that occupies no slot moves no counter
    rw [if_neg (not_not_intro hslot)] at hsets
    refine hs.of_nodes set hsets hlen (lookup_insert_ne hnodes) hother (fun m' hm' => ?_)
    have hin : p ∈ s.noSlot set := by rw [noSlot, hinfo]; exact hslot
    exact iff_of_false (not_holds hafter rfl hm') (fun h => h.2 hin)
  · rw [if_pos hslot] at hsets
    refine hs.step hsets hlen (lookup_insert_ne hnodes) (fun info x _ => ?_) hother (fun info' m' h hm' => ?_)
    · rw [SetInfo.noSlotNodes_withCounter]
    · rw [hinfo, Option.some.injEq] at h
      subst h
      have hpos : info.counter m ≠ 0 := by
        refine hs.counter_ne_zero hinfo hm ⟨hp, ?_⟩
        rw [noSlot, hinfo]
        exact hslot
      -- before, `p` occupies a slot in its direction alone
      have hbefore : s.Holds set m' p ↔ m' = m := by
        rw [Holds, hp, noSlot, hinfo, eq_comm]
        exact and_iff_left hslot
      exact SetInfo.counter_release _ hm' (fun _ => hpos) hbefore (not_holds hafter rfl hm')

/-! ### `forget_peer` and the reputation -/

theorem Node.getD_of_forgotten {node : Node} (h : node.forgotten) (j : ℕ) :
    node.sets[j]?.getD .notMember = .notMember := by
  rw [Node.forgotten, Bool.and_eq_true, List.all_eq_true] at h
  cases hj : node.sets[j]? with
  | none => rfl
  | some x => exact of_decide_eq_true (h.2 x (List.mem_of_getElem? hj))

theorem run_forgetPeer (hs : s.Consistent) (hset : set < s.sets.length) (hnode : s.nodes.lookup p = some node)
    (hp : s.stateIn set p ≠ .notMember) :
    (forgetPeer set p).run s = .ok ()
      { s with nodes := if ({ node with sets := node.sets.set set .notMember } : Node).forgotten
          then s.nodes.erase p else s.nodes.insert p { node with sets := node.sets.set set .notMember } } := by
  have hlt : set < node.sets.length := (hs.nodeSets p node hnode).symm ▸ hset
  simp only [forgetPeer, run_get_bind, hnode, membership, getElem?_sets hs hnode hset,
    run_bind_ok run_unwrap_some, if_neg hp, setMembership, if_pos hlt, pure_bind]
  split_ifs <;> rfl

/-- A node forgotten in a set was not connected there: it occupies no
slot before or after. -/
theorem PeersState.Consistent.forgetPeer (hs : s.Consistent) (hset : set < s.sets.length)
    (hnode : s.nodes.lookup p = some node) (hp : s.stateIn set p = .notConnected) {s' : PeersState P}
    (hnodes : s'.nodes = if ({ node with sets := node.sets.set set .notMember } : Node).forgotten
      then s.nodes.erase p else s.nodes.insert p { node with sets := node.sets.set set .notMember })
    (hsets : s'.sets = s.sets) : s'.Consistent := by
  have hlt : set < node.sets.length := (hs.nodeSets p node hnode).symm ▸ hset
  have hstate := getD_set_eq hnode hlt .notMember
  have hbefore : ∀ m', m'.isConnected → ¬ s.Holds set m' p := fun m' hm' => not_holds hp rfl hm'
  split_ifs at hnodes with hgone
  · -- the node is gone: it was a member of no other set
    have hafter : s'.stateIn set p = .notMember := by rw [stateIn_erase hnodes, if_pos rfl]
    refine hs.of_nodes set hsets (fun node' h => ?_) (lookup_erase_ne hnodes) (fun j hj => ?_)
      (fun m' hm' => iff_of_false (not_holds hafter rfl hm') (hbefore m' hm'))
    · rw [hnodes, Finmap.lookup_erase] at h
      exact absurd h (Option.some_ne_none _).symm
    · have hj' := hstate j
      rw [if_neg hj, Node.getD_of_forgotten hgone j] at hj'
      rw [stateIn_erase hnodes, if_pos rfl, hj']
  · have hlen := lookup_insert_length hnodes ((List.length_set ..).trans (hs.nodeSets p node hnode))
    have hafter : s'.stateIn set p = .notMember := by
      rw [stateIn_insert hnodes, if_pos rfl, hstate, if_pos rfl]
    refine hs.of_nodes set hsets hlen (lookup_insert_ne hnodes) (fun j hj => ?_)
      (fun m' hm' => iff_of_false (not_holds hafter rfl hm') (hbefore m' hm'))
    rw [stateIn_insert hnodes, if_pos rfl, hstate, if_neg hj]

theorem run_addReputation (hnode : s.nodes.lookup p = some node) (modifier : ℤ) :
    (addReputation p modifier).run s = .ok ()
      { s with nodes := s.nodes.insert p { node with reputation := saturatingAddI32 node.reputation modifier } } := by
  simp only [addReputation, run_get_bind, hnode]
  rfl

theorem PeersState.Consistent.addReputation (hs : s.Consistent) (hnode : s.nodes.lookup p = some node)
    (modifier : ℤ) :
    ({ s with
      nodes := s.nodes.insert p { node with reputation := saturatingAddI32 node.reputation modifier } } :
        PeersState P).Consistent := by
  refine hs.of_memberships rfl (lookup_insert_length rfl (hs.nodeSets p node hnode)) (lookup_insert_ne rfl)
    (fun j => ?_)
  rw [stateIn_insert rfl, if_pos rfl, stateIn_of_lookup hnode]

@[simp] theorem sets_foldl_apply (ops : List ReputationOp) (node : Node) :
    (ops.foldl ReputationOp.apply node).sets = node.sets := by
  induction ops generalizing node with
  | nil => rfl
  | cons op ops ih =>
    rw [List.foldl_cons, ih]
    cases op <;> rfl

theorem run_peerReputation (p : P) (ops : List ReputationOp) :
    (peerReputation p ops).run s = .ok ()
      { s with nodes := if (ops.foldl ReputationOp.apply (s.nodeOrNew p)).forgotten then s.nodes.erase p
          else s.nodes.insert p (ops.foldl ReputationOp.apply (s.nodeOrNew p)) } := by
  have hnode : (s.nodes.lookup p).getD (Node.new s.sets.length) = s.nodeOrNew p := rfl
  simp only [peerReputation, run_get_bind, hnode]
  split_ifs <;> rfl

theorem PeersState.Consistent.peerReputation (hs : s.Consistent) (p : P) (ops : List ReputationOp) :
    ({ s with nodes := if (ops.foldl ReputationOp.apply (s.nodeOrNew p)).forgotten then s.nodes.erase p
        else s.nodes.insert p (ops.foldl ReputationOp.apply (s.nodeOrNew p)) } : PeersState P).Consistent := by
  split_ifs with hgone
  · refine hs.of_memberships rfl (fun node' h => ?_) (lookup_erase_ne rfl) (fun j => ?_)
    · rw [Finmap.lookup_erase] at h
      exact absurd h (Option.some_ne_none _).symm
    · -- a dropped node was a member of no set
      have := Node.getD_of_forgotten hgone j
      rw [sets_foldl_apply] at this
      rw [stateIn_erase rfl, if_pos rfl, stateIn_eq_nodeOrNew, this]
  · refine hs.of_memberships rfl (lookup_insert_length rfl ?_) (lookup_insert_ne rfl) (fun j => ?_)
    · rw [sets_foldl_apply, nodeOrNew_length hs p]
    · rw [stateIn_insert rfl, if_pos rfl, sets_foldl_apply, stateIn_eq_nodeOrNew]

/-! ### The no-slot nodes -/

omit [DecidableEq P] in
theorem getElem?_modify_self {f : SetInfo P → SetInfo P} (hinfo : s.sets[set]? = some info) :
    (s.sets.modify set f)[set]? = some (f info) := by
  rw [List.getElem?_modify, hinfo]
  simp

theorem run_addNoSlotNode (hs : s.Consistent) (hinfo : s.sets[set]? = some info) :
    (addNoSlotNode set p).run s = .ok () (if p ∈ info.noSlotNodes then s else
      { s with
        sets := (s.sets.modify set fun i => { i with noSlotNodes := insert p i.noSlotNodes }).modify set
          (fun i => i.withCounter (s.stateIn set p) (info.counter (s.stateIn set p) - 1)) }) := by
  have hset : set < s.sets.length := (List.getElem?_eq_some_iff.1 hinfo).1
  simp only [addNoSlotNode, run_bind_ok (run_setInfo hinfo)]
  split_ifs with hslot
  · rfl
  simp only [modifySet, run_modify_bind, run_get_bind]
  cases hl : s.nodes.lookup p with
  | none =>
    have hp : s.stateIn set p = .notMember := by rw [stateIn, hl]; rfl
    show EStateM.Result.ok () _ = _
    rw [hp]
    exact congrArg _ (congrArg _ (List.modify_id _ _).symm)
  | some node =>
    have hpos : (s.stateIn set p).isConnected → info.counter (s.stateIn set p) ≠ 0 := fun hm =>
      hs.counter_ne_zero hinfo hm ⟨rfl, by rw [noSlot, hinfo]; exact hslot⟩
    simp only [membership, getElem?_sets hs hl hset, run_bind_ok run_unwrap_some]
    rw [run_releaseSlot (getElem?_modify_self hinfo) fun hm => by rw [SetInfo.counter_noSlotNodes]; exact hpos hm]
    simp only [SetInfo.counter_noSlotNodes]

theorem run_removeNoSlotNode (hs : s.Consistent) (hinfo : s.sets[set]? = some info) :
    (removeNoSlotNode set p).run s = .ok () (if p ∉ info.noSlotNodes then s else
      { s with
        sets := (s.sets.modify set fun i => { i with noSlotNodes := i.noSlotNodes.erase p }).modify set
          (fun i => i.withCounter (s.stateIn set p) (i.counter (s.stateIn set p) + 1)) }) := by
  have hset : set < s.sets.length := (List.getElem?_eq_some_iff.1 hinfo).1
  simp only [removeNoSlotNode, run_bind_ok (run_setInfo hinfo)]
  by_cases hslot : p ∉ info.noSlotNodes
  · simp only [if_pos hslot]
    rfl
  simp only [if_neg hslot, modifySet, run_modify_bind, run_get_bind]
  -- a node not connected moves no counter
  have hkeep : ∀ m : MembershipState, m.isConnected = false → ∀ l : List (SetInfo P),
      l = l.modify set (fun i => i.withCounter m (i.counter m + 1)) := by
    intro m hm l
    cases m <;> first | exact (List.modify_id _ _).symm | exact absurd hm (by decide)
  cases hl : s.nodes.lookup p with
  | none =>
    have hp : s.stateIn set p = .notMember := by rw [stateIn, hl]; rfl
    show EStateM.Result.ok () _ = _
    rw [hp, ← hkeep .notMember rfl]
  | some node =>
    simp only [membership, getElem?_sets hs hl hset, run_bind_ok run_unwrap_some]
    cases s.stateIn set p with
    | ingoing | outgoing => rfl
    | notMember | notConnected =>
      show EStateM.Result.ok () _ = _
      rw [← hkeep _ rfl]

theorem PeersState.Consistent.addNoSlotNode (hs : s.Consistent) (hinfo : s.sets[set]? = some info)
    (hslot : p ∉ info.noSlotNodes) {s' : PeersState P} (hnodes : s'.nodes = s.nodes)
    (hsets : s'.sets = (s.sets.modify set fun i => { i with noSlotNodes := insert p i.noSlotNodes }).modify set
      (fun i => i.withCounter (s.stateIn set p) (info.counter (s.stateIn set p) - 1))) : s'.Consistent := by
  rw [List.modify_modify_eq] at hsets
  refine hs.step hsets (fun node h => hs.nodeSets p node (hnodes ▸ h)) (fun x _ => by rw [hnodes])
    (fun i x hx => ?_) (fun j _ => by rw [stateIn_of_nodes hnodes]) (fun info' m' h hm' => ?_)
  · simp only [Function.comp_apply, SetInfo.noSlotNodes_withCounter, Finset.mem_insert, hx, false_or]
  · rw [hinfo, Option.some.injEq] at h
    subst h
    have hpos : (s.stateIn set p).isConnected → info.counter (s.stateIn set p) ≠ 0 := fun hm =>
      hs.counter_ne_zero hinfo hm ⟨rfl, by rw [noSlot, hinfo]; exact hslot⟩
    have hbefore : s.Holds set m' p ↔ m' = s.stateIn set p := by
      rw [Holds, noSlot, hinfo, eq_comm]
      exact and_iff_left hslot
    have hafter : ¬ s'.Holds set m' p := fun h =>
      h.2 (by rw [noSlot_modify hsets hinfo]; simp)
    have hcounter := SetInfo.counter_release info (A := s.Holds set m' p) hm' hpos hbefore hafter
    simpa [SetInfo.counter_withCounter] using hcounter

theorem PeersState.Consistent.removeNoSlotNode (hs : s.Consistent) (hinfo : s.sets[set]? = some info)
    (hslot : p ∈ info.noSlotNodes) {s' : PeersState P} (hnodes : s'.nodes = s.nodes)
    (hsets : s'.sets = (s.sets.modify set fun i => { i with noSlotNodes := i.noSlotNodes.erase p }).modify set
      (fun i => i.withCounter (s.stateIn set p) (i.counter (s.stateIn set p) + 1))) : s'.Consistent := by
  rw [List.modify_modify_eq] at hsets
  refine hs.step hsets (fun node h => hs.nodeSets p node (hnodes ▸ h)) (fun x _ => by rw [hnodes])
    (fun i x hx => ?_) (fun j _ => by rw [stateIn_of_nodes hnodes]) (fun info' m' h hm' => ?_)
  · simp only [Function.comp_apply, SetInfo.noSlotNodes_withCounter, Finset.mem_erase, hx, ne_eq,
      not_false_eq_true, true_and]
  · rw [hinfo, Option.some.injEq] at h
    subst h
    have hbefore : ¬ s.Holds set m' p := fun h => h.2 (by rw [noSlot, hinfo]; exact hslot)
    have hafter : s'.Holds set m' p ↔ m' = s.stateIn set p := by
      rw [Holds, stateIn_of_nodes hnodes, noSlot_modify hsets hinfo, eq_comm]
      simp
    have hcounter := SetInfo.counter_take info (B := s'.Holds set m' p) hm' hbefore hafter
    simpa [SetInfo.counter_withCounter] using hcounter

/-! ## Every command -/

def Command.setIndex : Command P → Option ℕ
  | .discover set _ | .tryOutgoing set _ | .tryAcceptIncoming set _ | .disconnect set _
  | .forgetPeer set _ | .addReputation set _ _ | .addNoSlotNode set _ | .removeNoSlotNode set _ => some set
  | .peerReputation _ _ => none

def Command.InRange (n : ℕ) (c : Command P) : Prop := ∀ set, c.setIndex = some set → set < n

theorem exists_lookup_of_stateIn (h : s.stateIn set p ≠ .notMember) : ∃ node, s.nodes.lookup p = some node := by
  cases hl : s.nodes.lookup p with
  | none =>
    rw [stateIn, hl] at h
    exact absurd rfl h
  | some node => exact ⟨node, rfl⟩

/-- A node not connected tries to connect: it returns, and keeps the
invariant. -/
theorem PeersState.Consistent.tryConnect_ok (num max : SetInfo P → ℕ) {bump : SetInfo P → SetInfo P}
    (hs : s.Consistent) (hbump : ∀ info, bump info = info.withCounter m (info.counter m + 1))
    (hset : set < s.sets.length) (hp : s.stateIn set p = .notConnected) :
    ∃ b s', (Peerset.tryConnect m num max bump set p).run s = .ok b s' ∧ s'.Consistent := by
  obtain ⟨node, hnode⟩ := exists_lookup_of_stateIn (hp ▸ (by decide) : s.stateIn set p ≠ .notMember)
  have hinfo : s.sets[set]? = some s.sets[set] := List.getElem?_eq_getElem hset
  have hlt : set < node.sets.length := (hs.nodeSets p node hnode).symm ▸ hset
  rw [Peerset.run_tryConnect hinfo hnode hlt]
  by_cases hfull : max s.sets[set] ≤ num s.sets[set] ∧ p ∉ s.sets[set].noSlotNodes
  · exact ⟨false, s, by rw [if_pos hfull], hs⟩
  · exact ⟨true, _, by rw [if_neg hfull], hs.tryConnect hbump hinfo hnode hp rfl rfl⟩

theorem PeersState.Consistent.tryOutgoing_ok (hs : s.Consistent) (hset : set < s.sets.length)
    (hp : s.stateIn set p = .notConnected) :
    ∃ b s', (tryOutgoing set p).run s = .ok b s' ∧ s'.Consistent :=
  hs.tryConnect_ok _ _ (fun _ => rfl) hset hp

theorem PeersState.Consistent.tryAcceptIncoming_ok (hs : s.Consistent) (hset : set < s.sets.length)
    (hp : s.stateIn set p = .notConnected) :
    ∃ b s', (tryAcceptIncoming set p).run s = .ok b s' ∧ s'.Consistent :=
  hs.tryConnect_ok _ _ (fun _ => rfl) hset hp

/-- **Step.** From a consistent state, every command on a set of the state
returns `Ok` (no counter goes below zero, no assertion fails) and keeps the
invariant. -/
theorem PeersState.Consistent.apply (hs : s.Consistent) (c : Command P) (hc : c.InRange s.sets.length) :
    ∃ s', c.apply.run s = .ok () s' ∧ s'.Consistent := by
  cases c with
  | discover set p =>
    have hset := hc set rfl
    simp only [Command.apply, run_bind_ok (run_peer hs hset)]
    cases hp : s.stateIn set p with
    | notMember => exact ⟨_, run_discover hs hset, hs.discover hset hp rfl rfl⟩
    | ingoing | outgoing | notConnected => exact ⟨s, rfl, hs⟩
  | tryOutgoing set p =>
    have hset := hc set rfl
    simp only [Command.apply, run_bind_ok (run_peer hs hset)]
    cases hp : s.stateIn set p with
    | notConnected =>
      obtain ⟨b, s', hrun, hs'⟩ := hs.tryOutgoing_ok hset hp
      exact ⟨s', by simp only [Peer.ofState, if_true, run_bind_ok hrun]; rfl, hs'⟩
    | notMember | ingoing | outgoing => exact ⟨s, rfl, hs⟩
  | tryAcceptIncoming set p =>
    have hset := hc set rfl
    simp only [Command.apply, run_bind_ok (run_peer hs hset)]
    cases hp : s.stateIn set p with
    | notConnected =>
      obtain ⟨b, s', hrun, hs'⟩ := hs.tryAcceptIncoming_ok hset hp
      exact ⟨s', by simp only [Peer.ofState, if_true, run_bind_ok hrun]; rfl, hs'⟩
    | notMember | ingoing | outgoing => exact ⟨s, rfl, hs⟩
  | disconnect set p =>
    have hset := hc set rfl
    have hinfo : s.sets[set]? = some s.sets[set] := List.getElem?_eq_getElem hset
    simp only [Command.apply, run_bind_ok (run_peer hs hset)]
    cases hp : s.stateIn set p with
    | ingoing | outgoing =>
      obtain ⟨node, hnode⟩ := exists_lookup_of_stateIn (hp ▸ (by decide) : s.stateIn set p ≠ .notMember)
      exact ⟨_, run_disconnect hs hinfo hnode hp rfl, hs.disconnect hinfo hnode hp rfl rfl rfl⟩
    | notMember | notConnected => exact ⟨s, rfl, hs⟩
  | forgetPeer set p =>
    have hset := hc set rfl
    simp only [Command.apply, run_bind_ok (run_peer hs hset)]
    cases hp : s.stateIn set p with
    | notConnected =>
      obtain ⟨node, hnode⟩ := exists_lookup_of_stateIn (hp ▸ (by decide) : s.stateIn set p ≠ .notMember)
      exact ⟨_, run_forgetPeer hs hset hnode (hp ▸ (by decide)), hs.forgetPeer hset hnode hp rfl rfl⟩
    | notMember | ingoing | outgoing => exact ⟨s, rfl, hs⟩
  | addReputation set p modifier =>
    have hset := hc set rfl
    simp only [Command.apply, run_bind_ok (run_peer hs hset)]
    cases hp : s.stateIn set p with
    | ingoing | outgoing =>
      obtain ⟨node, hnode⟩ := exists_lookup_of_stateIn (hp ▸ (by decide) : s.stateIn set p ≠ .notMember)
      exact ⟨_, run_addReputation hnode modifier, hs.addReputation hnode modifier⟩
    | notMember | notConnected => exact ⟨s, rfl, hs⟩
  | peerReputation p ops => exact ⟨_, run_peerReputation p ops, hs.peerReputation p ops⟩
  | addNoSlotNode set p =>
    have hset := hc set rfl
    have hinfo : s.sets[set]? = some s.sets[set] := List.getElem?_eq_getElem hset
    refine ⟨_, run_addNoSlotNode hs hinfo, ?_⟩
    split_ifs with hslot
    · exact hs
    · exact hs.addNoSlotNode hinfo hslot rfl rfl
  | removeNoSlotNode set p =>
    have hset := hc set rfl
    have hinfo : s.sets[set]? = some s.sets[set] := List.getElem?_eq_getElem hset
    refine ⟨_, run_removeNoSlotNode hs hinfo, ?_⟩
    by_cases hslot : p ∈ s.sets[set].noSlotNodes
    · rw [if_neg (not_not_intro hslot)]
      exact hs.removeNoSlotNode hinfo hslot rfl rfl
    · rw [if_pos hslot]
      exact hs

/-- A command on a set the state does not have panics, at `peer`'s
assertion or at the index of `self.sets`. -/
theorem Command.run_apply_of_not_inRange {c : Command P} (hc : ¬ c.InRange s.sets.length) :
    c.apply.run s = .error .panic s := by
  obtain ⟨set, hidx, hset⟩ : ∃ set, c.setIndex = some set ∧ s.sets.length ≤ set := by
    simp only [Command.InRange, not_forall, not_lt] at hc
    obtain ⟨set, hidx, hset⟩ := hc
    exact ⟨set, hidx, hset⟩
  cases c with
  | peerReputation => cases hidx
  | addNoSlotNode | removeNoSlotNode =>
    cases hidx
    simp only [Command.apply, Peerset.addNoSlotNode, Peerset.removeNoSlotNode,
      run_bind_error (run_setInfo_of_le hset)]
  | _ =>
    cases hidx
    simp only [Command.apply, run_bind_error (run_peer_of_le hset)]

/-- Every command keeps the invariant: those on a set of the state return
and keep it, the others panic and leave nothing. -/
theorem preserves_consistent (c : Command P) : Preserves PeersState.Consistent c.apply := by
  intro s s' hs hl
  by_cases hc : c.InRange s.sets.length
  · obtain ⟨s'', hrun, hs''⟩ := hs.apply c hc
    rcases hl with ⟨_, h⟩ | ⟨e, _⟩
    · rw [hrun] at h
      cases h
      exact hs''
    · exact e.elim
  · rcases hl with ⟨_, h⟩ | ⟨_, h⟩ <;> rw [Command.run_apply_of_not_inRange hc] at h <;> cases h

theorem consistent_new (configs : List SetConfig) : (PeersState.new configs : PeersState P).Consistent := by
  refine ⟨fun p node h => ?_, fun set info m h hm => ?_⟩
  · exact absurd h (by simp [PeersState.new])
  · -- no node is known, and every counter starts at zero
    have hempty : (PeersState.new configs : PeersState P).occupying set m = ∅ := by
      rfl
    rw [hempty, Finset.card_empty]
    simp only [PeersState.new, List.getElem?_map, Option.map_eq_some_iff] at h
    obtain ⟨config, _, rfl⟩ := h
    cases m <;> rfl

theorem consistent_of_reachable {configs : List SetConfig} {s : PeersState P}
    (hs : Reachable Command.apply (· = PeersState.new configs) s) : s.Consistent :=
  Reachable.invariant (fun _ h => h ▸ consistent_new configs) preserves_consistent hs

/-- A node that occupies a slot connects while the counter of its
direction is below the maximum, and the counter stays within it. -/
theorem tryConnect_within {num max : SetInfo P → ℕ} {bump : SetInfo P → SetInfo P}
    (hnum : ∀ i, num (bump i) = num i + 1) (hmax : ∀ i, max (bump i) = max i)
    (hinfo : s.sets[set]? = some info) (hnode : s.nodes.lookup p = some node) (hlt : set < node.sets.length)
    (hslot : p ∉ info.noSlotNodes) (hbelow : num info < max info) :
    ∃ s' info', (tryConnect m num max bump set p).run s = .ok true s' ∧
      s'.sets[set]? = some info' ∧ num info' ≤ max info' := by
  have hfree : ¬ (max info ≤ num info ∧ p ∉ info.noSlotNodes) := fun h => absurd h.1 (Nat.not_le.2 hbelow)
  refine ⟨_, bump info, by rw [run_tryConnect hinfo hnode hlt, if_neg hfree], ?_, ?_⟩
  · rw [if_pos hslot]
    exact getElem?_modify_self hinfo
  · rw [hnum, hmax]
    omega

theorem occupying_eq_filter (hinfo : s.sets[set]? = some info) :
    s.occupying set m = s.nodes.keys.filter fun p => s.stateIn set p = m ∧ p ∉ info.noSlotNodes := by
  unfold occupying Holds noSlot
  simp only [hinfo, Option.map_some, Option.getD_some]

theorem counters_of_reachable {configs : List SetConfig} {s : PeersState P}
    (hs : Reachable Command.apply (· = PeersState.new configs) s) :
    (∀ set info, s.sets[set]? = some info →
      info.numIn = (s.nodes.keys.filter fun p => s.stateIn set p = .ingoing ∧ p ∉ info.noSlotNodes).card ∧
      info.numOut = (s.nodes.keys.filter fun p => s.stateIn set p = .outgoing ∧ p ∉ info.noSlotNodes).card) ∧
    (∀ c : Command P, c.InRange s.sets.length → ∃ s', c.apply.run s = .ok () s') ∧
    (∀ set info p, s.sets[set]? = some info → s.stateIn set p = .notConnected → p ∉ info.noSlotNodes →
      (info.numOut < info.maxOut → ∃ s' info', (tryOutgoing set p).run s = .ok true s' ∧
        s'.sets[set]? = some info' ∧ info'.numOut ≤ info'.maxOut) ∧
      (info.numIn < info.maxIn → ∃ s' info', (tryAcceptIncoming set p).run s = .ok true s' ∧
        s'.sets[set]? = some info' ∧ info'.numIn ≤ info'.maxIn)) := by
  have hcons := consistent_of_reachable hs
  refine ⟨fun set info h => ⟨?_, ?_⟩, fun c hc => ?_, fun set info p h hp hslot => ⟨fun hb => ?_, fun hb => ?_⟩⟩
  · rw [← occupying_eq_filter h]
    exact hcons.counters set info .ingoing h rfl
  · rw [← occupying_eq_filter h]
    exact hcons.counters set info .outgoing h rfl
  · obtain ⟨s', hrun, -⟩ := hcons.apply c hc
    exact ⟨s', hrun⟩
  all_goals
    obtain ⟨node, hnode⟩ := exists_lookup_of_stateIn (hp ▸ (by decide) : s.stateIn set p ≠ .notMember)
    have hlt : set < node.sets.length :=
      (hcons.nodeSets p node hnode).symm ▸ (List.getElem?_eq_some_iff.1 h).1
    exact tryConnect_within (fun _ => rfl) (fun _ => rfl) h hnode hlt hslot hb

/-- One set with one slot in and two out, after node 5 has been discovered
and connected out and node 6 discovered. -/
def peersConnected : PeersState ℕ :=
  (Dispatch.execute Command.apply [Command.discover 0 5, Command.tryOutgoing 0 5, Command.discover 0 6]
    (PeersState.new [⟨1, 2⟩])).getD (PeersState.new [])

theorem counters_of_connected :
    peersConnected.stateIn 0 5 = .outgoing ∧ peersConnected.stateIn 0 6 = .notConnected ∧
    (peersConnected.sets[0]?.map (·.numOut)) = some 1 ∧
    Reachable Command.apply (· = PeersState.new [⟨1, 2⟩]) peersConnected ∧
    (∀ set info, peersConnected.sets[set]? = some info →
      info.numIn = (peersConnected.nodes.keys.filter fun p =>
        peersConnected.stateIn set p = .ingoing ∧ p ∉ info.noSlotNodes).card ∧
      info.numOut = (peersConnected.nodes.keys.filter fun p =>
        peersConnected.stateIn set p = .outgoing ∧ p ∉ info.noSlotNodes).card) ∧
    (∀ c : Command ℕ, c.InRange peersConnected.sets.length → ∃ s', c.apply.run peersConnected = .ok () s') ∧
    (∀ set info p, peersConnected.sets[set]? = some info → peersConnected.stateIn set p = .notConnected →
      p ∉ info.noSlotNodes →
      (info.numOut < info.maxOut → ∃ s' info', (tryOutgoing set p).run peersConnected = .ok true s' ∧
        s'.sets[set]? = some info' ∧ info'.numOut ≤ info'.maxOut) ∧
      (info.numIn < info.maxIn → ∃ s' info', (tryAcceptIncoming set p).run peersConnected = .ok true s' ∧
        s'.sets[set]? = some info' ∧ info'.numIn ≤ info'.maxIn)) :=
  have hrun : Dispatch.execute Command.apply [Command.discover 0 5, Command.tryOutgoing 0 5, Command.discover 0 6]
      (PeersState.new [⟨1, 2⟩]) = some peersConnected := rfl
  have h0 : Reachable Command.apply (· = PeersState.new [⟨1, 2⟩]) (PeersState.new [⟨1, 2⟩] : PeersState ℕ) :=
    Reachable.start rfl
  have hs : Reachable Command.apply (· = PeersState.new [⟨1, 2⟩]) peersConnected := h0.execute hrun
  ⟨by decide, by decide, rfl, hs, counters_of_reachable hs⟩

end SocialNetwork.Peerset
