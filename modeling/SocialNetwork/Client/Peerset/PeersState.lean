import SocialNetwork.Lib.Dispatch
import SocialNetwork.Lib.StorageMap

/-!
# Peer slots

`PeersState` knows a set of nodes, each with a reputation and, for each
set of peers, whether it is a member of the set and whether we are
connected to it, in or out. Beside the nodes, each set counts the nodes it
is connected to that occupy a slot, `num_in` and `num_out`: the counters
are kept by hand, by the methods of the typed handles that `peer` returns
(a `NotConnectedPeer` connects, a `ConnectedPeer` disconnects) and by the
two methods that take a node off the slots and put it back.

The model runs as a debug build: `debug_assert!(false)` and a counter
taken below zero panic. The commands reach each method through `peer`,
on a handle of the method's kind, as the typed handles of the source
allow alone.
-/

namespace SocialNetwork.Peerset

open Dispatch

/-- `MembershipState`; `NotConnected`'s `Instant` is not kept. `In` and
`Out` are `ingoing` and `outgoing`. -/
inductive MembershipState where
  | notMember
  | ingoing
  | outgoing
  | notConnected
  deriving DecidableEq, Repr

/-- `MembershipState::is_connected`. -/
def MembershipState.isConnected : MembershipState → Bool
  | .ingoing | .outgoing => true
  | .notMember | .notConnected => false

/-- `SetConfig`. -/
structure SetConfig where
  inPeers : ℕ
  outPeers : ℕ

/-- `SetInfo`; `no_slot_nodes` is a `HashSet`. -/
structure SetInfo (P : Type) where
  numIn : ℕ
  numOut : ℕ
  maxIn : ℕ
  maxOut : ℕ
  noSlotNodes : Finset P

/-- `Node`: its membership in each set, and its reputation, an `i32`. -/
structure Node where
  sets : List MembershipState
  reputation : ℤ
  deriving DecidableEq, Repr

/-- `Node::new`: a member of no set, of reputation zero. -/
def Node.new (numSets : ℕ) : Node := ⟨List.replicate numSets .notMember, 0⟩

/-- `PeersState`; `nodes` is a `HashMap`. -/
structure PeersState (P : Type) where
  nodes : StorageMap P Node
  sets : List (SetInfo P)

abbrev PeersCall (P α : Type) := Call Empty (PeersState P) α

variable {P : Type} [DecidableEq P]

/-- `PeersState::new`. -/
def PeersState.new (sets : List SetConfig) : PeersState P :=
  ⟨∅, sets.map fun config => ⟨0, 0, config.inPeers, config.outPeers, ∅⟩⟩

/-! ## Helpers -/

/-- `self.sets[set]`, an index. -/
def setInfo (set : ℕ) : PeersCall P (SetInfo P) := do unwrap (← get).sets[set]?

def modifySet (set : ℕ) (f : SetInfo P → SetInfo P) : PeersCall P Unit :=
  modify fun s => { s with sets := s.sets.modify set f }

/-- `node.sets[set]`, an index. -/
def membership (node : Node) (set : ℕ) : PeersCall P MembershipState := unwrap node.sets[set]?

/-- `node.sets[set] = m`, an index. -/
def setMembership (node : Node) (set : ℕ) (m : MembershipState) : PeersCall P Node :=
  if set < node.sets.length then pure { node with sets := node.sets.set set m } else panic

def writeNode (peerId : P) (node : Node) : PeersCall P Unit :=
  modify fun s => { s with nodes := s.nodes.insert peerId node }

/-- `n -= 1` on a `u32`, which panics below zero. -/
def decrement (n : ℕ) : PeersCall P ℕ := if n = 0 then panic else pure (n - 1)

/-- `saturating_add` on `i32`. -/
def saturatingAddI32 (a b : ℤ) : ℤ := max (-2 ^ 31) (min (2 ^ 31 - 1) (a + b))

/-! ## The handles -/

/-- The variants of `Peer`, the handle `peer` returns. -/
inductive Peer where
  | connected
  | notConnected
  | unknown
  deriving DecidableEq, Repr

/-- `PeersState::peer`: the kind of handle on `peerId` in set `set`. -/
def peer (set : ℕ) (peerId : P) : PeersCall P Peer := do
  let s ← get
  if s.sets.length ≤ set then panic else
  match s.nodes.lookup peerId with
  | none => pure .unknown
  | some node =>
    match ← membership node set with
    | .notMember => pure .unknown
    | .ingoing | .outgoing => pure .connected
    | .notConnected => pure .notConnected

/-- `UnknownPeer::discover`: a node, new or known, becomes a member of the
set, not connected. -/
def discover (set : ℕ) (peerId : P) : PeersCall P Unit := do
  let s ← get
  let node := (s.nodes.lookup peerId).getD (Node.new s.sets.length)
  writeNode peerId (← setMembership node set .notConnected)

/-- `try_outgoing` and `try_accept_incoming`: connected in the direction
`m`, whose counter is `num` and maximum `max`, unless the slots are full
for a node that occupies one. `true` when it connects. -/
def tryConnect (m : MembershipState) (num max : SetInfo P → ℕ)
    (bump : SetInfo P → SetInfo P) (set : ℕ) (peerId : P) : PeersCall P Bool := do
  let info ← setInfo set
  let isNoSlotOccupy := peerId ∈ info.noSlotNodes
  -- the counter may be above the maximum: reserved nodes made not reserved
  if max info ≤ num info ∧ ¬ isNoSlotOccupy then pure false else
  match (← get).nodes.lookup peerId with
  | some node =>
    writeNode peerId (← setMembership node set m)
    if ¬ isNoSlotOccupy then modifySet set bump
    pure true
  | none => panic

/-- `NotConnectedPeer::try_outgoing`. -/
def tryOutgoing (set : ℕ) (peerId : P) : PeersCall P Bool :=
  tryConnect .outgoing (·.numOut) (·.maxOut) (fun info => { info with numOut := info.numOut + 1 }) set peerId

/-- `NotConnectedPeer::try_accept_incoming`. -/
def tryAcceptIncoming (set : ℕ) (peerId : P) : PeersCall P Bool :=
  tryConnect .ingoing (·.numIn) (·.maxIn) (fun info => { info with numIn := info.numIn + 1 }) set peerId

/-- The counter of a connected node that occupies a slot, taken down: by
`disconnect` and `add_no_slot_node`. -/
def releaseSlot (set : ℕ) (m : MembershipState) : PeersCall P Unit := do
  let info ← setInfo set
  match m with
  | .ingoing => do
    let numIn ← decrement info.numIn
    modifySet set fun info => { info with numIn := numIn }
  | .outgoing => do
    let numOut ← decrement info.numOut
    modifySet set fun info => { info with numOut := numOut }
  | _ => pure ()

/-- `ConnectedPeer::disconnect`. -/
def disconnect (set : ℕ) (peerId : P) : PeersCall P Unit := do
  let isNoSlotOccupy := peerId ∈ (← setInfo set).noSlotNodes
  match (← get).nodes.lookup peerId with
  | some node =>
    if ¬ isNoSlotOccupy then
      let m ← membership node set
      if m.isConnected then releaseSlot set m
      -- "State inconsistency: disconnecting a disconnected node"
      else panic
    writeNode peerId (← setMembership node set .notConnected)
  | none => panic

/-- Whether a node is forgotten: of reputation zero and a member of no
set. -/
def Node.forgotten (node : Node) : Bool :=
  node.reputation = 0 && node.sets.all (· = .notMember)

/-- `NotConnectedPeer::forget_peer`: no longer a member of the set, and
gone when it is a member of none and of reputation zero. -/
def forgetPeer (set : ℕ) (peerId : P) : PeersCall P Unit := do
  match (← get).nodes.lookup peerId with
  | some node =>
    if (← membership node set) = .notMember then panic else
    let node ← setMembership node set .notMember
    if node.forgotten then modify fun s => { s with nodes := s.nodes.erase peerId }
    else writeNode peerId node
  | none => panic

/-- `ConnectedPeer::add_reputation`. -/
def addReputation (peerId : P) (modifier : ℤ) : PeersCall P Unit := do
  match (← get).nodes.lookup peerId with
  | some node => writeNode peerId { node with reputation := saturatingAddI32 node.reputation modifier }
  | none => panic

/-- What a `Reputation` handle does to its node. -/
inductive ReputationOp where
  | set (value : ℤ)
  | add (modifier : ℤ)
  deriving DecidableEq, Repr

/-- `Reputation::set_reputation` and `Reputation::add_reputation`. -/
def ReputationOp.apply (node : Node) : ReputationOp → Node
  | .set value => { node with reputation := value }
  | .add modifier => { node with reputation := saturatingAddI32 node.reputation modifier }

/-- `peer_reputation`, the handle's operations, and its `Drop`, which
removes a forgotten node. -/
def peerReputation (peerId : P) (ops : List ReputationOp) : PeersCall P Unit := do
  let s ← get
  let node := (s.nodes.lookup peerId).getD (Node.new s.sets.length)
  let node := ops.foldl ReputationOp.apply node
  if node.forgotten then modify fun s => { s with nodes := s.nodes.erase peerId }
  else writeNode peerId node

/-- `add_no_slot_node`: a connected node leaves its slot. -/
def addNoSlotNode (set : ℕ) (peerId : P) : PeersCall P Unit := do
  -- `HashSet::insert` returns false if the node was already in the set
  if peerId ∈ (← setInfo set).noSlotNodes then pure () else
  modifySet set fun info => { info with noSlotNodes := insert peerId info.noSlotNodes }
  match (← get).nodes.lookup peerId with
  | some node => releaseSlot set (← membership node set)
  | none => pure ()

/-- `remove_no_slot_node`: a connected node takes a slot again. -/
def removeNoSlotNode (set : ℕ) (peerId : P) : PeersCall P Unit := do
  -- `HashSet::remove` returns false if the node was not in the set
  if peerId ∉ (← setInfo set).noSlotNodes then pure () else
  modifySet set fun info => { info with noSlotNodes := info.noSlotNodes.erase peerId }
  match (← get).nodes.lookup peerId with
  | some node =>
    match ← membership node set with
    | .ingoing => modifySet set fun info => { info with numIn := info.numIn + 1 }
    | .outgoing => modifySet set fun info => { info with numOut := info.numOut + 1 }
    | _ => pure ()
  | none => pure ()

/-- The calls on the state: each method of a handle is reached through
`peer` and runs on a handle of its kind. -/
inductive Command (P : Type) where
  | discover (set : ℕ) (peerId : P)
  | tryOutgoing (set : ℕ) (peerId : P)
  | tryAcceptIncoming (set : ℕ) (peerId : P)
  | disconnect (set : ℕ) (peerId : P)
  | forgetPeer (set : ℕ) (peerId : P)
  | addReputation (set : ℕ) (peerId : P) (modifier : ℤ)
  | peerReputation (peerId : P) (ops : List ReputationOp)
  | addNoSlotNode (set : ℕ) (peerId : P)
  | removeNoSlotNode (set : ℕ) (peerId : P)

/-- One command: the handle is taken, and the method runs when it is of
the method's kind. -/
def Command.apply : Command P → PeersCall P Unit
  | .discover set peerId => do
    if (← peer set peerId) = .unknown then Peerset.discover set peerId
  | .tryOutgoing set peerId => do
    if (← peer set peerId) = .notConnected then
      let _ ← Peerset.tryOutgoing set peerId
  | .tryAcceptIncoming set peerId => do
    if (← peer set peerId) = .notConnected then
      let _ ← Peerset.tryAcceptIncoming set peerId
  | .disconnect set peerId => do
    if (← peer set peerId) = .connected then Peerset.disconnect set peerId
  | .forgetPeer set peerId => do
    if (← peer set peerId) = .notConnected then Peerset.forgetPeer set peerId
  | .addReputation set peerId modifier => do
    if (← peer set peerId) = .connected then Peerset.addReputation peerId modifier
  | .peerReputation peerId ops => Peerset.peerReputation peerId ops
  | .addNoSlotNode set peerId => Peerset.addNoSlotNode set peerId
  | .removeNoSlotNode set peerId => Peerset.removeNoSlotNode set peerId

end SocialNetwork.Peerset
