import SocialNetwork.Lib.Dispatch
import SocialNetwork.Lib.StorageMap
import SocialNetwork.Lib.OrderedMap

/-!
# Block download ranges

`BlockCollection` keeps, by the number of their first block, the ranges
being downloaded and those downloaded (`blocks`, a `BTreeMap`), and the
start of each peer's request (`peer_requests`). `needed_blocks` walks the
ranges for the first one it can hand out: one still downloading by fewer
than `max_parallel` peers, the gap after a range, or the first blocks. Every
range it stores is non-empty, so from `new()` it never reaches its
`panic!` while `count as u32` is not zero (`neededBlocks_ok_of_reachable`).

A peer that joins a download crops the range to its own best block, and
the stored length shrinks with it, while the peer the range was first
handed to still answers with all of it. The next range handed out starts
where the cropped one ends, its answer overlaps the first, and `drain`
returns the blocks of the overlap twice.
-/

namespace SocialNetwork.Sync

open Dispatch

/-- `BlockData`: a block from the wire and the peer it came from. -/
structure BlockData (B P : Type) where
  block : B
  origin : Option P
  deriving DecidableEq, Repr

/-- `BlockRangeState`. -/
inductive BlockRangeState (B P : Type) where
  | downloading (len downloading : ℕ)
  | complete (blocks : List (BlockData B P))
  deriving DecidableEq, Repr

/-- `BlockRangeState::len`. -/
def BlockRangeState.len {B P : Type} : BlockRangeState B P → ℕ
  | .downloading len _ => len
  | .complete blocks => blocks.length

/-- `BlockCollection`: `peer_requests` is a `HashMap`. -/
structure BlockCollection (B P : Type) where
  blocks : OrderedMap ℕ (BlockRangeState B P)
  peerRequests : StorageMap P ℕ

/-- `BlockCollection::new`. -/
def BlockCollection.new {B P : Type} : BlockCollection B P := ⟨.empty, ∅⟩

abbrev BlocksCall (B P α : Type) := Call Empty (BlockCollection B P) α

variable {B P : Type}

/-! ## The methods -/

/-- `insert`: the blocks from `start` replace what is there, unless it is a
complete range at least as long. -/
def insert (start : ℕ) (blocks : List B) (who : P) : BlocksCall B P Unit := do
  if blocks.isEmpty then pure () else
  -- a range still marked as downloading is replaced all the same
  let ignored : Bool := match (← get).blocks.get? start with
    | some (.complete existing) => decide (blocks.length ≤ existing.length)
    | _ => false
  if ignored then pure () else
  modify fun s => { s with
    blocks := s.blocks.insert start (.complete (blocks.map fun b => ⟨b, some who⟩)) }

/-- The arms of the `match` in the loop of `needed_blocks`, on the range
before and the next one; `none` is the last arm, which goes on. -/
def neededRound (firstDifferent count maxParallel : ℕ) :
    Option (ℕ × BlockRangeState B P) → Option (ℕ × BlockRangeState B P) → Option ((ℕ × ℕ) × ℕ)
  | some (start, .downloading len downloading), next =>
    -- a range downloading by fewer than `max_parallel` peers is joined
    if downloading < maxParallel then some ((start, start + len), downloading)
    else afterRange start len next
  | some (start, .complete blocks), next => afterRange start blocks.length next
  | none, none => some ((firstDifferent, firstDifferent + count), 0)
  | none, some (start, _) =>
    -- the gap at the start
    if firstDifferent < start then some ((firstDifferent, min (firstDifferent + count) start), 0)
    else none
where
  /-- The gap after the range of `start` and `len`, or the range after the
  last one. -/
  afterRange (start len : ℕ) : Option (ℕ × BlockRangeState B P) → Option ((ℕ × ℕ) × ℕ)
    | some (nextStart, _) =>
      if start + len < nextStart then some ((start + len, min nextStart (start + len + count)), 0)
      else none
    | none => some ((start + len, start + len + count), 0)

/-- The loop of `needed_blocks` over the ranges in order, `prev` the one
before `rest`. -/
def neededLoop (firstDifferent count maxParallel : ℕ) :
    Option (ℕ × BlockRangeState B P) → List (ℕ × BlockRangeState B P) → Option ((ℕ × ℕ) × ℕ)
  | prev, [] => neededRound firstDifferent count maxParallel prev none
  | prev, next :: rest =>
    match neededRound firstDifferent count maxParallel prev (some next) with
    | some range => some range
    | none => neededLoop firstDifferent count maxParallel (some next) rest

/-- The loop of `drain`: the complete ranges in order, each starting at
most where the ones before end, their blocks and their starts. -/
def drainLoop : ℕ → List (ℕ × BlockRangeState B P) → List (BlockData B P) × List ℕ
  | prev, (start, .complete blocks) :: rest =>
    if start ≤ prev then
      let (drained, ranges) := drainLoop (start + blocks.length) rest
      (blocks ++ drained, start :: ranges)
    else ([], [])
  | _, _ => ([], [])

/-- `drain`: the blocks of the ranges it walks, which it removes. -/
def drain (fromBlock : ℕ) : BlocksCall B P (List (BlockData B P)) := do
  let (drained, ranges) := drainLoop fromBlock (← get).blocks.entries
  modify fun s => { s with blocks := ranges.foldl OrderedMap.erase s.blocks }
  pure drained

section Peers

variable [DecidableEq P]

/-- `needed_blocks`: the range handed to `who`, marked as downloading by one
more peer. The loop always breaks with a range (`neededLoop_spec`). -/
def neededBlocks (who : P) (count peerBest common maxParallel maxAhead : ℕ) :
    BlocksCall B P (Option (ℕ × ℕ)) := do
  if peerBest ≤ common then pure none else
  -- the first block we need; `count as u32`
  let firstDifferent := common + 1
  let count := count % 2 ^ 32
  let (range, downloading) ← unwrap (neededLoop firstDifferent count maxParallel none (← get).blocks.entries)
  if peerBest < range.1 then pure none else
  -- crop to the peer's best
  let range := (range.1, min (peerBest + 1) range.2)
  if ((← get).blocks.entries.head?.map fun first => decide (first.1 + maxAhead < range.1)).getD false then
    pure none
  else
  modify fun s => { s with
    peerRequests := s.peerRequests.insert who range.1
    blocks := s.blocks.insert range.1 (.downloading (range.2 - range.1) (downloading + 1)) }
  if range.2 ≤ range.1 then panic else
  pure (some range)

/-- `clear_peer_download`: one peer fewer on `who`'s range, which goes with
the last one. -/
def clearPeerDownload (who : P) : BlocksCall B P Unit := do
  match (← get).peerRequests.lookup who with
  | none => pure ()
  | some start =>
    modify fun s => { s with peerRequests := s.peerRequests.erase who }
    match (← get).blocks.get? start with
    | some (.downloading len downloading) =>
      if 1 < downloading then
        modify fun s => { s with blocks := s.blocks.insert start (.downloading len (downloading - 1)) }
      else modify fun s => { s with blocks := s.blocks.erase start }
    | _ => pure ()

/-- `clear`. -/
def clear : BlocksCall B P Unit := set (BlockCollection.new : BlockCollection B P)

/-- The methods, with what they return dropped. -/
inductive Command (B P : Type) where
  | neededBlocks (who : P) (count peerBest common maxParallel maxAhead : ℕ)
  | insert (start : ℕ) (blocks : List B) (who : P)
  | drain (fromBlock : ℕ)
  | clearPeerDownload (who : P)
  | clear

/-- One command. -/
def Command.apply : Command B P → BlocksCall B P Unit
  | .neededBlocks who count peerBest common maxParallel maxAhead => do
    let _ ← Sync.neededBlocks who count peerBest common maxParallel maxAhead
  | .insert start blocks who => Sync.insert start blocks who
  | .drain fromBlock => do
    let _ ← Sync.drain fromBlock
  | .clearPeerDownload who => Sync.clearPeerDownload who
  | .clear => Sync.clear

end Peers


/-! ## `needed_blocks` never panics -/



def RangeOk : ℕ × BlockRangeState B P → Prop
  | (_, .downloading len _) => 0 < len
  | (_, .complete _) => True

def DownloadsNonempty (s : BlockCollection B P) : Prop :=
  ∀ e ∈ s.blocks.entries, RangeOk e

section Loop

variable {firstDifferent count maxParallel : ℕ}

theorem afterRange_lt (hcount : 0 < count) {start len : ℕ} {next : Option (ℕ × BlockRangeState B P)}
    {range : (ℕ × ℕ) × ℕ} (h : neededRound.afterRange count start len next = some range) :
    range.1.1 < range.1.2 := by
  cases next with
  | none =>
    simp only [neededRound.afterRange, Option.some.injEq] at h
    subst h
    show start + len < start + len + count
    omega
  | some next =>
    simp only [neededRound.afterRange] at h
    split_ifs at h with hlt
    · simp only [Option.some.injEq] at h
      subst h
      simp only [lt_min_iff]
      omega

theorem neededRound_lt (hcount : 0 < count) {prev next : Option (ℕ × BlockRangeState B P)}
    (hprev : ∀ e, prev = some e → RangeOk e) {range : (ℕ × ℕ) × ℕ}
    (h : neededRound firstDifferent count maxParallel prev next = some range) : range.1.1 < range.1.2 := by
  match prev, next with
  | some (start, .downloading len downloading), next =>
    have hlen : 0 < len := hprev _ rfl
    simp only [neededRound] at h
    split_ifs at h
    · simp only [Option.some.injEq] at h
      subst h
      simpa using hlen
    · exact afterRange_lt hcount h
  | some (start, .complete blocks), next => exact afterRange_lt hcount h
  | none, none =>
    simp only [neededRound, Option.some.injEq] at h
    subst h
    simpa using hcount
  | none, some (start, _) =>
    simp only [neededRound] at h
    split_ifs at h with hlt
    · simp only [Option.some.injEq] at h
      subst h
      simp only [lt_min_iff]
      omega

theorem neededRound_none_isSome (firstDifferent count maxParallel : ℕ)
    (prev : Option (ℕ × BlockRangeState B P)) :
    (neededRound firstDifferent count maxParallel prev none).isSome := by
  match prev with
  | some (start, .downloading len downloading) =>
    simp only [neededRound]
    split_ifs <;> rfl
  | some (start, .complete blocks) => rfl
  | none => rfl

theorem neededLoop_spec (firstDifferent maxParallel : ℕ) (hcount : 0 < count) :
    ∀ (l : List (ℕ × BlockRangeState B P)) (prev : Option (ℕ × BlockRangeState B P)),
      (∀ e, prev = some e → RangeOk e) → (∀ e ∈ l, RangeOk e) →
      ∃ range, neededLoop firstDifferent count maxParallel prev l = some range ∧ range.1.1 < range.1.2
  | [], prev, hprev, _ => by
    obtain ⟨range, h⟩ := Option.isSome_iff_exists.1
      (neededRound_none_isSome firstDifferent count maxParallel prev)
    exact ⟨range, h, neededRound_lt hcount hprev h⟩
  | next :: rest, prev, hprev, hl => by
    rw [neededLoop]
    cases h : neededRound firstDifferent count maxParallel prev (some next) with
    | some range => exact ⟨range, rfl, neededRound_lt hcount hprev h⟩
    | none =>
      exact neededLoop_spec firstDifferent maxParallel hcount rest (some next)
        (fun e he => Option.some.inj he ▸ hl next List.mem_cons_self)
        (fun e he => hl e (List.mem_cons_of_mem _ he))

end Loop

theorem DownloadsNonempty.insert {s : BlockCollection B P} (hs : DownloadsNonempty s) (start : ℕ)
    (r : BlockRangeState B P) (hr : RangeOk (start, r)) (peerRequests : StorageMap P ℕ) :
    DownloadsNonempty ⟨s.blocks.insert start r, peerRequests⟩ := by
  intro e he
  rcases OrderedMap.mem_insert he with rfl | he
  · exact hr
  · exact hs e he

theorem mem_foldl_erase {e : ℕ × BlockRangeState B P} (ranges : List ℕ) :
    ∀ {m : OrderedMap ℕ (BlockRangeState B P)}, e ∈ (ranges.foldl OrderedMap.erase m).entries → e ∈ m.entries := by
  induction ranges with
  | nil => exact fun h => h
  | cons r ranges ih => exact fun h => OrderedMap.mem_erase (ih h)

theorem wp_insert_nonempty (start : ℕ) (blocks : List B) (who : P) {s : BlockCollection B P}
    (hs : DownloadsNonempty s) :
    Wp (insert start blocks who) (fun _ s' => DownloadsNonempty s') (fun _ s' => DownloadsNonempty s') s := by
  unfold insert
  split_ifs
  · exact hs
  simp only [wp_bind, wp_get]
  split_ifs
  · exact hs
  · exact hs.insert start (.complete (blocks.map fun b => ⟨b, some who⟩)) trivial _

theorem wp_drain_nonempty (fromBlock : ℕ) {s : BlockCollection B P} (hs : DownloadsNonempty s) :
    Wp (drain fromBlock) (fun _ s' => DownloadsNonempty s') (fun _ s' => DownloadsNonempty s') s := by
  simp only [drain, wp_bind, wp_get, wp_modify, wp_pure]
  exact fun e he => hs e (mem_foldl_erase _ he)

section Peers

variable [DecidableEq P]

/-- From a state whose downloads are non-empty, `needed_blocks` returns,
and what it stores keeps them so. -/
theorem neededBlocks_ok (who : P) {count : ℕ} (hcount : 0 < count % 2 ^ 32)
    (peerBest common maxParallel maxAhead : ℕ) {s : BlockCollection B P} (hs : DownloadsNonempty s) :
    ∃ r s', (neededBlocks who count peerBest common maxParallel maxAhead).run s = .ok r s' ∧
      DownloadsNonempty s' := by
  by_cases hb : peerBest ≤ common
  · exact ⟨none, s, by simp [neededBlocks, hb], hs⟩
  obtain ⟨⟨⟨a, b⟩, d⟩, hloop, hab⟩ := neededLoop_spec (common + 1) maxParallel hcount
    s.blocks.entries none (by simp) hs
  simp only [Nat.reducePow] at hloop
  dsimp only at hab
  by_cases hbest : peerBest < a
  · exact ⟨none, s, by simp [neededBlocks, hb, hloop, hbest], hs⟩
  by_cases hahead : ((s.blocks.entries.head?.map fun first => decide (first.1 + maxAhead < a)).getD false) = true
  · exact ⟨none, s, by simp [neededBlocks, hb, hloop, hbest, hahead], hs⟩
  have hcrop : a < min (peerBest + 1) b := lt_min (by omega) hab
  refine ⟨some (a, min (peerBest + 1) b), _, ?_, hs.insert a (.downloading (min (peerBest + 1) b - a) (d + 1))
    (show 0 < min (peerBest + 1) b - a by omega) (s.peerRequests.insert who a)⟩
  simp [neededBlocks, hb, hloop, hbest, hahead]
  split
  · -- the emptiness check: the cropped range is not empty
    omega
  · rfl

theorem wp_neededBlocks_nonempty (who : P) (count peerBest common maxParallel maxAhead : ℕ)
    {s : BlockCollection B P} (hs : DownloadsNonempty s) :
    Wp (neededBlocks who count peerBest common maxParallel maxAhead) (fun _ s' => DownloadsNonempty s')
      (fun _ s' => DownloadsNonempty s') s := by
  unfold neededBlocks
  split_ifs with hb
  · exact hs
  simp only [wp_bind, wp_get]
  cases neededLoop (common + 1) (count % 2 ^ 32) maxParallel none s.blocks.entries with
  | none => trivial
  | some r =>
    obtain ⟨⟨a, b⟩, d⟩ := r
    simp only [wp_unwrap_some, wp_ite, wp_bind, wp_get, wp_modify, wp_pure, wp_panic]
    split_ifs with h1 h2 h3
    · exact hs
    · exact hs
    · -- the download stored is the range handed out, non-empty
      exact hs.insert a (.downloading (min (peerBest + 1) b - a) (d + 1))
        (show 0 < min (peerBest + 1) b - a by omega) _

theorem wp_clearPeerDownload_nonempty (who : P) {s : BlockCollection B P} (hs : DownloadsNonempty s) :
    Wp (clearPeerDownload who) (fun _ s' => DownloadsNonempty s') (fun _ s' => DownloadsNonempty s') s := by
  unfold clearPeerDownload
  simp only [wp_bind, wp_get]
  cases s.peerRequests.lookup who with
  | none => exact hs
  | some start =>
    simp only [wp_bind, wp_modify, wp_get]
    cases hget : s.blocks.get? start with
    | none => exact hs
    | some r =>
      cases r with
      | downloading len downloading =>
        have hlen : 0 < len := hs _ (OrderedMap.mem_of_get? hget)
        simp only [wp_ite, wp_modify]
        split_ifs
        · exact hs.insert start (.downloading len (downloading - 1)) hlen _
        · exact fun e he => hs e (OrderedMap.mem_erase he)
      | complete blocks => exact hs

theorem preserves_downloadsNonempty (c : Command B P) : Preserves DownloadsNonempty c.apply := by
  refine preserves_of_wp fun s hs => ?_
  cases c with
  | neededBlocks who count peerBest common maxParallel maxAhead =>
    simp only [Command.apply, wp_bind]
    exact Wp.mono (wp_neededBlocks_nonempty who count peerBest common maxParallel maxAhead hs)
      (fun _ _ h => h) (fun _ _ h => h)
  | insert start blocks who => exact wp_insert_nonempty start blocks who hs
  | drain fromBlock =>
    simp only [Command.apply, wp_bind]
    exact Wp.mono (wp_drain_nonempty fromBlock hs) (fun _ _ h => h) (fun _ _ h => h)
  | clearPeerDownload who => exact wp_clearPeerDownload_nonempty who hs
  | clear => exact fun e he => by simp [BlockCollection.new, OrderedMap.empty] at he

/-- **Run.** From `new()`, `needed_blocks` never panics while `count as u32`
is not zero. -/
theorem neededBlocks_ok_of_reachable {s : BlockCollection B P}
    (hs : Reachable Command.apply (· = BlockCollection.new) s) (who : P) {count : ℕ}
    (hcount : 0 < count % 2 ^ 32) (peerBest common maxParallel maxAhead : ℕ) :
    ∃ r s', (neededBlocks who count peerBest common maxParallel maxAhead).run s = .ok r s' :=
  have hinv : DownloadsNonempty s := Reachable.invariant
    (fun s h e he => by subst h; simp [BlockCollection.new, OrderedMap.empty] at he)
    preserves_downloadsNonempty hs
  let ⟨r, s', h, _⟩ := neededBlocks_ok who hcount peerBest common maxParallel maxAhead hinv
  ⟨r, s', h⟩

end Peers

/-! ## Two downloads of one block -/

/-- Peer 0 is handed blocks 1 to 10. Peer 1, whose best block is 5, joins
that download, which is cropped to blocks 1 to 5; peer 2 is then handed
blocks 6 to 15. Peers 0 and 2 answer in full: the complete ranges from 1
and from 6 overlap, and `drain(1)` returns blocks 6 to 10 twice. A `count`
of `2 ^ 32` is a count of zero blocks, and `needed_blocks` panics on it. -/
theorem joined_download_overlaps :
    (∃ s₁ s₂ s₃ s₄ s₅ s₆ drained,
      (neededBlocks 0 10 100 0 2 128).run (BlockCollection.new : BlockCollection ℕ ℕ) =
        .ok (some (1, 11)) s₁ ∧
      (neededBlocks 1 10 5 0 2 128).run s₁ = .ok (some (1, 6)) s₂ ∧
      (neededBlocks 2 10 100 0 2 128).run s₂ = .ok (some (6, 16)) s₃ ∧
      (insert 1 (List.range' 1 10) 0).run s₃ = .ok () s₄ ∧
      (insert 6 (List.range' 6 10) 2).run s₄ = .ok () s₅ ∧
      s₅.blocks.get? 1 = some (.complete ((List.range' 1 10).map fun b => ⟨b, some 0⟩)) ∧
      s₅.blocks.get? 6 = some (.complete ((List.range' 6 10).map fun b => ⟨b, some 2⟩)) ∧
      (drain 1).run s₅ = .ok drained s₆ ∧
      drained.map (·.block) = List.range' 1 10 ++ List.range' 6 10) ∧
    ∃ s, (neededBlocks 0 (2 ^ 32) 100 0 2 128).run (BlockCollection.new : BlockCollection ℕ ℕ) =
      .error .panic s :=
  ⟨⟨_, _, _, _, _, _, _, rfl, rfl, rfl, rfl, rfl, by decide, by decide, rfl, by decide⟩, _, rfl⟩

end SocialNetwork.Sync
