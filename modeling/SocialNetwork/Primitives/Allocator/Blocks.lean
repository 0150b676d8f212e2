import SocialNetwork.Primitives.Allocator.Calls
import SocialNetwork.Lib.Tiling

/-!
# The blocks of the heap

What the allocator and its memory say of the heap (`Layout`). The blocks it
made tile the range from the aligned heap base up to the bumper. Each block
is either live, with an occupied header of its order in the memory, or on the
free list of its order. The free lists are threaded through the blocks' free
headers (`FreeChain`). `total_size` is the size of the live blocks.

The ghost state is the list of blocks in address order and the blocks on each
free list. `live` lists the pointers handed out and not yet freed.
-/

namespace SocialNetwork.Allocator

open Dispatch Unsigned Tiling

/-- The heap base and memory size up to which no `u32` sum of the allocator
wraps: a block of `2^24` bytes and its header laid at the bumper still end
below `2^32`. -/
def heapLimit : ℕ := 2 ^ 32 - 2 ^ 24 - 16

def blockSize (b : ℕ × Order) : ℕ := b.2.size + headerSize

/-- The free list from `link` on threads through the free headers at `ps`. -/
inductive FreeChain (m : Memory) : Link → List ℕ → Prop
  | nil : FreeChain m .nil []
  | cons {p : ℕ} {next : Link} {ps : List ℕ} (hp : Header.readFrom m p = .ok (.free next))
      (hnext : FreeChain m next ps) : FreeChain m (.ptr p) (p :: ps)

def orders : List Order := (List.finRange nOrders).map fun i : Fin nOrders => ⟨i.val, i.isLt⟩

def freeBlocks (free : Order → List ℕ) : List (ℕ × Order) :=
  orders.flatMap fun o => (free o).map (·, o)

def liveBlocks (live : List (ℕ × Order)) : List (ℕ × Order) :=
  live.map fun a => (a.1 - headerSize, a.2)

/-- The heap laid out from `heapStart`: the blocks in address order and the
blocks on each free list, for the live allocations `live`. -/
structure Layout (heapStart : ℕ) (live : List (ℕ × Order)) (h : Heap) (blocks : List (ℕ × Order))
    (free : Order → List ℕ) : Prop where
  aligned : 8 ∣ heapStart
  startBound : heapStart ≤ heapLimit + 7
  tiles : Tiles Prod.fst blockSize heapStart blocks h.allocator.bumper
  perm : blocks.Perm (liveBlocks live ++ freeBlocks free)
  inMemory : blocks = [] ∨ h.allocator.bumper ≤ h.memory.bytes.length
  memoryBound : h.memory.bytes.length ≤ heapLimit
  chains : ∀ o, FreeChain h.memory (h.allocator.freeLists o) (free o)
  occupied : ∀ a ∈ live, headerSize ≤ a.1 ∧ Header.readFrom h.memory (a.1 - headerSize) = .ok (.occupied a.2)
  totalSize : h.allocator.totalSize = ((liveBlocks live).map blockSize).sum

/-! ## Orders and free blocks -/

theorem mem_orders (o : Order) : o ∈ orders := by
  simp only [orders, List.mem_map]
  exact ⟨⟨o.raw, o.lt⟩, List.mem_finRange _, rfl⟩

theorem nodup_orders : orders.Nodup :=
  (List.nodup_finRange nOrders).map (fun _ _ h => Fin.ext (congrArg Order.raw h))

@[simp] theorem mem_freeBlocks {free : Order → List ℕ} {b : ℕ × Order} :
    b ∈ freeBlocks free ↔ b.1 ∈ free b.2 := by
  obtain ⟨p, o⟩ := b
  simp [freeBlocks, mem_orders]

def otherFreeBlocks (free : Order → List ℕ) (o : Order) : List (ℕ × Order) :=
  (orders.erase o).flatMap fun o' => (free o').map (·, o')

theorem freeBlocks_perm (free : Order → List ℕ) (o : Order) :
    (freeBlocks free).Perm ((free o).map (·, o) ++ otherFreeBlocks free o) := by
  have hperm : orders.Perm (o :: orders.erase o) := List.perm_cons_erase (mem_orders o)
  simpa [freeBlocks, otherFreeBlocks] using hperm.flatMap_right fun o' => (free o').map (·, o')

theorem otherFreeBlocks_update (free : Order → List ℕ) (o : Order) (l : List ℕ) :
    otherFreeBlocks (Function.update free o l) o = otherFreeBlocks free o := by
  refine List.flatMap_congr fun o' ho' => ?_
  have hne : o' ≠ o := fun heq => nodup_orders.not_mem_erase (heq ▸ ho')
  rw [Function.update_of_ne hne]

theorem freeBlocks_pop {free : Order → List ℕ} {o : Order} {p : ℕ} {ps : List ℕ}
    (hfree : free o = p :: ps) :
    (freeBlocks free).Perm ((p, o) :: freeBlocks (Function.update free o ps)) := by
  have hrest := freeBlocks_perm (Function.update free o ps) o
  rw [Function.update_self, otherFreeBlocks_update] at hrest
  refine (freeBlocks_perm free o).trans ?_
  rw [hfree, List.map_cons, List.cons_append]
  exact (hrest.symm.cons _)

theorem freeBlocks_push (free : Order → List ℕ) (o : Order) (p : ℕ) :
    (freeBlocks (Function.update free o (p :: free o))).Perm ((p, o) :: freeBlocks free) := by
  have hrest := freeBlocks_perm (Function.update free o (p :: free o)) o
  rw [Function.update_self, otherFreeBlocks_update, List.map_cons, List.cons_append] at hrest
  exact hrest.trans ((freeBlocks_perm free o).symm.cons _)

theorem liveBlocks_append (live : List (ℕ × Order)) (a : ℕ × Order) :
    liveBlocks (live ++ [a]) = liveBlocks live ++ [(a.1 - headerSize, a.2)] := by
  simp [liveBlocks]

theorem liveBlocks_erase {live : List (ℕ × Order)} {a : ℕ × Order} (ha : a ∈ live) :
    (liveBlocks live).Perm ((a.1 - headerSize, a.2) :: liveBlocks (live.erase a)) :=
  (List.perm_cons_erase ha).map _

theorem mem_liveBlocks {live : List (ℕ × Order)} {a : ℕ × Order} (ha : a ∈ live) :
    (a.1 - headerSize, a.2) ∈ liveBlocks live :=
  List.mem_map_of_mem ha

theorem sum_liveBlocks_append (live : List (ℕ × Order)) (p : ℕ) (o : Order) :
    ((liveBlocks (live ++ [(p + headerSize, o)])).map blockSize).sum =
      ((liveBlocks live).map blockSize).sum + (o.size + headerSize) := by
  simp [liveBlocks_append, blockSize]

/-! ## The free chains -/

theorem FreeChain.frame {m m' : Memory} : ∀ {link : Link} {ps : List ℕ}, FreeChain m link ps →
    (∀ p ∈ ps, m'.readLeU64 p = m.readLeU64 p) → FreeChain m' link ps
  | _, _, .nil, _ => .nil
  | _, _, .cons hp hnext, hw =>
    .cons ((Header.readFrom_congr (hw _ List.mem_cons_self)).trans hp)
      (hnext.frame fun q hq => hw q (List.mem_cons_of_mem _ hq))

theorem FreeChain.ptr_inv {m : Memory} {q : ℕ} {ps : List ℕ} (h : FreeChain m (.ptr q) ps) :
    ∃ next rest, ps = q :: rest ∧ Header.readFrom m q = .ok (.free next) ∧ FreeChain m next rest := by
  cases h with
  | cons hp hnext => exact ⟨_, _, rfl, hp, hnext⟩

/-! ## What a layout gives -/

theorem headerSize_lt_blockSize (b : ℕ × Order) : headerSize + 8 ≤ blockSize b := by
  have := b.2.eight_le_size
  unfold blockSize
  omega

theorem header_outside {x b : ℕ × Order} (hxb : Apart Prod.fst blockSize x b) {lo hi : ℕ}
    (hlo : x.1 ≤ lo) (hhi : hi ≤ x.1 + blockSize x) : b.1 + 8 ≤ lo ∨ hi ≤ b.1 := by
  have hb := headerSize_lt_blockSize b
  unfold Apart headerSize at *
  omega

section Layout

variable {heapStart : ℕ} {live : List (ℕ × Order)} {h : Heap} {blocks : List (ℕ × Order)}
  {free : Order → List ℕ}

namespace Layout

variable (hL : Layout heapStart live h blocks free)
include hL

theorem live_mem_blocks {a : ℕ × Order} (ha : a ∈ live) : (a.1 - headerSize, a.2) ∈ blocks :=
  hL.perm.mem_iff.mpr (List.mem_append_left _ (mem_liveBlocks ha))

theorem free_mem_blocks {o : Order} {p : ℕ} (hp : p ∈ free o) : (p, o) ∈ blocks :=
  hL.perm.mem_iff.mpr (List.mem_append_right _ (mem_freeBlocks.mpr hp))

theorem pairwise : blocks.Pairwise (Apart Prod.fst blockSize) :=
  hL.tiles.pairwise_apart (.refl blocks)

theorem apart_of_mem {x y : ℕ × Order} (hx : x ∈ blocks) (hy : y ∈ blocks) (hne : x ≠ y) :
    Apart Prod.fst blockSize x y :=
  hL.pairwise.forall hx hy hne

theorem nodup : blocks.Nodup :=
  nodup_of_pairwise_apart (fun b _ => lt_of_lt_of_le (by decide) (headerSize_lt_blockSize b)) hL.pairwise

/-- With the ghost lists rearranged around one block `x`, the others are
blocks other than `x`. -/
theorem mem_ne_of_perm_cons {x : ℕ × Order} {rest : List (ℕ × Order)} (hperm : blocks.Perm (x :: rest))
    {b : ℕ × Order} (hb : b ∈ rest) : b ∈ blocks ∧ b ≠ x := by
  have hx : x ∉ rest := (List.nodup_cons.mp (hperm.nodup_iff.mp hL.nodup)).1
  exact ⟨hperm.mem_iff.mpr (List.mem_cons_of_mem x hb), fun heq => hx (heq ▸ hb)⟩

theorem bumper_le_length {b : ℕ × Order} (hb : b ∈ blocks) : h.allocator.bumper ≤ h.memory.bytes.length := by
  rcases hL.inMemory with hnil | hle
  · exact absurd (hnil ▸ hb) List.not_mem_nil
  · exact hle

theorem bounds {b : ℕ × Order} (hb : b ∈ blocks) :
    heapStart ≤ b.1 ∧ b.1 + blockSize b ≤ h.allocator.bumper ∧ b.1 + blockSize b ≤ h.memory.bytes.length := by
  obtain ⟨hlo, hhi⟩ := hL.tiles.bounds b hb
  exact ⟨hlo, hhi, hhi.trans (hL.bumper_le_length hb)⟩

theorem eight_dvd_start {b : ℕ × Order} (hb : b ∈ blocks) : 8 ∣ b.1 := by
  have hsizes : ∀ x ∈ blocks, 8 ∣ blockSize x := fun x _ =>
    dvd_add x.2.eight_dvd_size (dvd_refl 8)
  exact (hL.tiles.dvd hsizes hL.aligned).1 b hb

theorem bumper_le : h.allocator.bumper ≤ heapLimit + 7 := by
  rcases hL.inMemory with hnil | hle
  · have htiles := hL.tiles
    rw [hnil] at htiles
    exact htiles ▸ hL.startBound
  · exact hle.trans (hL.memoryBound.trans (Nat.le_add_right _ _))

theorem totalSize_le : h.allocator.totalSize + heapStart ≤ h.allocator.bumper := by
  have hsum := hL.tiles.add_sum_size
  have hperm : (blocks.map blockSize).sum =
      ((liveBlocks live).map blockSize).sum + ((freeBlocks free).map blockSize).sum := by
    rw [(hL.perm.map blockSize).sum_eq, List.map_append, List.sum_append]
  rw [hL.totalSize]
  omega

theorem blockSize_le_totalSize {a : ℕ × Order} (ha : a ∈ live) :
    a.2.size + headerSize ≤ h.allocator.totalSize := by
  have hmem : blockSize (a.1 - headerSize, a.2) ∈ (liveBlocks live).map blockSize :=
    List.mem_map_of_mem (mem_liveBlocks ha)
  rw [hL.totalSize]
  exact List.le_sum_of_mem hmem

theorem link_lt (o : Order) : ∀ q, h.allocator.freeLists o = .ptr q → q < nilMarker := by
  intro q hq
  have hchain := hL.chains o
  rw [hq] at hchain
  obtain ⟨-, rest, hfree, -, -⟩ := hchain.ptr_inv
  obtain ⟨-, hend, -⟩ := hL.bounds (hL.free_mem_blocks (hfree ▸ List.mem_cons_self))
  have hbumper := hL.bumper_le
  have hsize := headerSize_lt_blockSize (q, o)
  unfold heapLimit nilMarker at *
  omega

/-! ## The live allocations -/

/-- A live pointer is aligned, above the heap start by its header, and its
payload lies within the memory. -/
theorem live_bounds {a : ℕ × Order} (ha : a ∈ live) :
    a.1 % alignment = 0 ∧ heapStart + headerSize ≤ a.1 ∧ a.1 + a.2.size ≤ h.memory.bytes.length := by
  have hptr := (hL.occupied a ha).1
  have hx := hL.live_mem_blocks ha
  obtain ⟨hlo, -, hend⟩ := hL.bounds hx
  have hdvd := hL.eight_dvd_start hx
  simp only [blockSize] at hend
  unfold alignment headerSize at *
  omega

theorem live_pairwise :
    live.Pairwise fun a b => a.1 + a.2.size ≤ b.1 - headerSize ∨ b.1 + b.2.size ≤ a.1 - headerSize := by
  have hall : (liveBlocks live ++ freeBlocks free).Pairwise (Apart Prod.fst blockSize) :=
    hL.tiles.pairwise_apart hL.perm
  have hlive := (List.pairwise_append.mp hall).1
  rw [liveBlocks, List.pairwise_map] at hlive
  refine hlive.imp_of_mem fun {a b} ha hb hab => ?_
  have hpa := (hL.occupied a ha).1
  have hpb := (hL.occupied b hb).1
  simp only [Apart, blockSize] at hab
  unfold headerSize at *
  omega

theorem totalSize_eq : h.allocator.totalSize = (live.map fun a => a.2.size + headerSize).sum := by
  rw [hL.totalSize, liveBlocks, List.map_map]
  rfl

/-! ## What each step keeps -/

theorem poison : Layout heapStart live h.poison blocks free :=
  ⟨hL.aligned, hL.startBound, hL.tiles, hL.perm, hL.inMemory, hL.memoryBound, hL.chains, hL.occupied,
    hL.totalSize⟩

/-- A memory that keeps every header, and grows at most to `heapLimit`, keeps
the layout: the runtime's writes and the growth of the memory. -/
theorem frame {memory : Memory} (hlen : h.memory.bytes.length ≤ memory.bytes.length)
    (hbound : memory.bytes.length ≤ heapLimit)
    (hheaders : ∀ b ∈ blocks, memory.readLeU64 b.1 = h.memory.readLeU64 b.1) :
    Layout heapStart live { h with memory } blocks free where
  aligned := hL.aligned
  startBound := hL.startBound
  tiles := hL.tiles
  perm := hL.perm
  inMemory := hL.inMemory.imp_right fun hle => hle.trans hlen
  memoryBound := hbound
  chains o := (hL.chains o).frame fun p hp => hheaders _ (hL.free_mem_blocks hp)
  occupied a ha := by
    obtain ⟨hptr, hread⟩ := hL.occupied a ha
    exact ⟨hptr, (Header.readFrom_congr (hheaders _ (hL.live_mem_blocks ha))).trans hread⟩
  totalSize := hL.totalSize

/-- A write of the runtime within the payload of a live allocation keeps every
header: its own lies before the payload, the others outside its block. -/
theorem headers_write {a : ℕ × Order} (ha : a ∈ live) {ptr : ℕ} {bytes : List UInt8} (hlo : a.1 ≤ ptr)
    (hhi : ptr + bytes.length ≤ a.1 + a.2.size) :
    ∀ b ∈ blocks, (h.memory.write ptr bytes).readLeU64 b.1 = h.memory.readLeU64 b.1 := by
  intro b hb
  have hptr := (hL.occupied a ha).1
  apply Memory.readLeU64_write_of_disjoint
  by_cases hba : b = (a.1 - headerSize, a.2)
  · -- the allocation's own header, just before the payload
    subst hba
    unfold headerSize at *
    omega
  · -- another block: the write lies within the allocation's block
    have hend : ptr + bytes.length ≤ (a.1 - headerSize, a.2).1 + blockSize (a.1 - headerSize, a.2) := by
      show ptr + bytes.length ≤ a.1 - headerSize + (a.2.size + headerSize)
      omega
    exact header_outside (hL.apart_of_mem (hL.live_mem_blocks ha) hb (Ne.symm hba))
      (show a.1 - headerSize ≤ ptr by omega) hend

theorem headers_grow (r : List UInt8) :
    ∀ b ∈ blocks, (⟨h.memory.bytes ++ r⟩ : Memory).readLeU64 b.1 = h.memory.readLeU64 b.1 := by
  intro b hb
  obtain ⟨-, -, hend⟩ := hL.bounds hb
  have hsize := headerSize_lt_blockSize b
  exact Memory.readLeU64_grow r (by unfold headerSize at *; omega)

/-- **Pop.** The head `p` of the free list of `o` becomes a live allocation at
`p + 8`, its header now occupied, and the list goes on from `next`. -/
theorem pop {o : Order} {p : ℕ} {next : Link} {rest : List ℕ} {memory : Memory}
    (hfree : free o = p :: rest) (hnext : FreeChain h.memory next rest)
    (hwrite : (Header.occupied o).writeInto h.memory p = .ok memory) :
    Layout heapStart (live ++ [(p + headerSize, o)])
      ⟨{ h.allocator with
          freeLists := Function.update h.allocator.freeLists o next
          totalSize := h.allocator.totalSize + (o.size + headerSize) }, memory⟩
      blocks (Function.update free o rest) := by
  -- the block popped, and the others
  have hperm : blocks.Perm ((p, o) :: (liveBlocks live ++ freeBlocks (Function.update free o rest))) :=
    hL.perm.trans (((freeBlocks_pop hfree).append_left _).trans List.perm_middle)
  have hp : (p, o) ∈ blocks := hperm.mem_iff.mpr List.mem_cons_self
  have hsize := headerSize_lt_blockSize (p, o)
  have hkeep : ∀ b ∈ liveBlocks live ++ freeBlocks (Function.update free o rest),
      memory.readLeU64 b.1 = h.memory.readLeU64 b.1 := by
    intro b hb
    obtain ⟨hb, hne⟩ := hL.mem_ne_of_perm_cons hperm hb
    exact Header.readLeU64_writeInto_of_disjoint hwrite
      (header_outside (hL.apart_of_mem hp hb (Ne.symm hne)) le_rfl (by unfold headerSize at *; omega))
  have hlen := Header.length_writeInto hwrite
  have hchains : ∀ o', FreeChain h.memory (Function.update h.allocator.freeLists o next o')
      (Function.update free o rest o') := by
    intro o'
    by_cases ho : o' = o
    · subst ho
      simpa only [Function.update_self] using hnext
    · simpa only [Function.update_of_ne ho] using hL.chains o'
  refine
    { aligned := hL.aligned, startBound := hL.startBound, tiles := hL.tiles, perm := ?_,
      inMemory := .inr (hlen ▸ hL.bumper_le_length hp), memoryBound := hlen ▸ hL.memoryBound,
      chains := fun o' => (hchains o').frame fun q hq =>
        hkeep (q, o') (List.mem_append_right _ (mem_freeBlocks.mpr hq)),
      occupied := ?_, totalSize := ?_ }
  · rw [liveBlocks_append, Nat.add_sub_cancel, List.append_assoc, List.singleton_append]
    exact hperm.trans List.perm_middle.symm
  · intro a ha
    rcases List.mem_append.mp ha with ha | ha
    · obtain ⟨hptr, hread⟩ := hL.occupied a ha
      exact ⟨hptr, (Header.readFrom_congr (hkeep _ (List.mem_append_left _ (mem_liveBlocks ha)))).trans hread⟩
    · rw [List.mem_singleton] at ha
      subst ha
      exact ⟨Nat.le_add_left _ _, by simpa only [Nat.add_sub_cancel] using readFrom_writeInto_occupied hwrite⟩
  · show h.allocator.totalSize + (o.size + headerSize) = _
    rw [sum_liveBlocks_append, hL.totalSize]

/-- **Bump.** A new block of `o` at the bumper becomes a live allocation at
`bumper + 8`, and the bumper moves past it. -/
theorem bump {o : Order} {memory : Memory}
    (hfit : h.allocator.bumper + (o.size + headerSize) ≤ h.memory.bytes.length)
    (hwrite : (Header.occupied o).writeInto h.memory h.allocator.bumper = .ok memory) :
    Layout heapStart (live ++ [(h.allocator.bumper + headerSize, o)])
      ⟨{ h.allocator with
          bumper := h.allocator.bumper + (o.size + headerSize)
          totalSize := h.allocator.totalSize + (o.size + headerSize) }, memory⟩
      (blocks ++ [(h.allocator.bumper, o)]) free := by
  -- every block ends at or before the bumper, where the header is written
  have hkeep : ∀ b ∈ blocks, memory.readLeU64 b.1 = h.memory.readLeU64 b.1 := by
    intro b hb
    obtain ⟨-, hend, -⟩ := hL.bounds hb
    have hsize := headerSize_lt_blockSize b
    exact Header.readLeU64_writeInto_of_disjoint hwrite (.inl (by unfold headerSize at *; omega))
  have hlen := Header.length_writeInto hwrite
  refine
    { aligned := hL.aligned, startBound := hL.startBound, tiles := hL.tiles.append rfl, perm := ?_,
      inMemory := .inr (hlen ▸ hfit), memoryBound := hlen ▸ hL.memoryBound,
      chains := fun o' => (hL.chains o').frame fun q hq => hkeep _ (hL.free_mem_blocks hq),
      occupied := ?_, totalSize := ?_ }
  · rw [liveBlocks_append, Nat.add_sub_cancel, List.append_assoc]
    exact (hL.perm.append_right _).trans (by rw [List.append_assoc]; exact List.perm_append_comm.append_left _)
  · intro a ha
    rcases List.mem_append.mp ha with ha | ha
    · obtain ⟨hptr, hread⟩ := hL.occupied a ha
      exact ⟨hptr, (Header.readFrom_congr (hkeep _ (hL.live_mem_blocks ha))).trans hread⟩
    · rw [List.mem_singleton] at ha
      subst ha
      exact ⟨Nat.le_add_left _ _, by simpa only [Nat.add_sub_cancel] using readFrom_writeInto_occupied hwrite⟩
  · show h.allocator.totalSize + (o.size + headerSize) = _
    rw [sum_liveBlocks_append, hL.totalSize]

/-- **Push.** The block of a live allocation `a` goes to the head of the free
list of its order, its header now free and linked to the old head. -/
theorem push {a : ℕ × Order} (ha : a ∈ live) {memory : Memory}
    (hwrite : (Header.free (h.allocator.freeLists a.2)).writeInto h.memory (a.1 - headerSize) = .ok memory) :
    Layout heapStart (live.erase a)
      ⟨{ h.allocator with
          freeLists := Function.update h.allocator.freeLists a.2 (.ptr (a.1 - headerSize))
          totalSize := h.allocator.totalSize - (a.2.size + headerSize) }, memory⟩
      blocks (Function.update free a.2 ((a.1 - headerSize) :: free a.2)) := by
  -- the block freed, and the others
  have hperm : blocks.Perm ((a.1 - headerSize, a.2) :: (liveBlocks (live.erase a) ++ freeBlocks free)) :=
    hL.perm.trans ((liveBlocks_erase ha).append_right _)
  have hx : (a.1 - headerSize, a.2) ∈ blocks := hL.live_mem_blocks ha
  have hsize := headerSize_lt_blockSize (a.1 - headerSize, a.2)
  have hkeep : ∀ b ∈ liveBlocks (live.erase a) ++ freeBlocks free,
      memory.readLeU64 b.1 = h.memory.readLeU64 b.1 := by
    intro b hb
    obtain ⟨hb, hne⟩ := hL.mem_ne_of_perm_cons hperm hb
    exact Header.readLeU64_writeInto_of_disjoint hwrite
      (header_outside (hL.apart_of_mem hx hb (Ne.symm hne)) le_rfl (by unfold headerSize at *; omega))
  have hlen := Header.length_writeInto hwrite
  have hfreed : ∀ q ∈ free a.2, memory.readLeU64 q = h.memory.readLeU64 q := fun q hq =>
    hkeep (q, a.2) (List.mem_append_right _ (mem_freeBlocks.mpr hq))
  have hchains : ∀ o', FreeChain memory (Function.update h.allocator.freeLists a.2 (.ptr (a.1 - headerSize)) o')
      (Function.update free a.2 ((a.1 - headerSize) :: free a.2) o') := by
    intro o'
    by_cases ho : o' = a.2
    · subst ho
      simp only [Function.update_self]
      exact .cons (readFrom_writeInto_free (hL.link_lt a.2) hwrite) ((hL.chains a.2).frame hfreed)
    · simp only [Function.update_of_ne ho]
      exact (hL.chains o').frame fun q hq =>
        hkeep (q, o') (List.mem_append_right _ (mem_freeBlocks.mpr hq))
  refine
    { aligned := hL.aligned, startBound := hL.startBound, tiles := hL.tiles, perm := ?_,
      inMemory := .inr (hlen ▸ hL.bumper_le_length hx), memoryBound := hlen ▸ hL.memoryBound,
      chains := hchains, occupied := ?_, totalSize := ?_ }
  · exact hperm.trans (((freeBlocks_push free a.2 _).append_left _).trans List.perm_middle).symm
  · intro b hb
    have hb' := List.mem_of_mem_erase hb
    obtain ⟨hptr, hread⟩ := hL.occupied b hb'
    exact ⟨hptr, (Header.readFrom_congr (hkeep _ (List.mem_append_left _ (mem_liveBlocks hb)))).trans hread⟩
  · -- the freed block leaves the sum of the live ones
    have hsum := ((liveBlocks_erase ha).map blockSize).sum_eq
    simp only [List.map_cons, List.sum_cons] at hsum
    show h.allocator.totalSize - (a.2.size + headerSize) = _
    rw [hL.totalSize, hsum]
    simp [blockSize]

end Layout

/-- `FreeingBumpHeapAllocator::new` starts an empty layout at the aligned heap
base. -/
theorem Layout.init {heapBase : ℕ} {memory : Memory} (hbase : heapBase ≤ heapLimit)
    (hmemory : memory.bytes.length ≤ heapLimit) :
    Layout (FreeingBumpHeapAllocator.new heapBase).bumper [] (Heap.init heapBase memory) [] fun _ => [] where
  aligned := dvd_mul_left _ _
  startBound := by
    have hwrap : wrappingAdd 32 heapBase (alignment - 1) = heapBase + 7 :=
      wrappingAdd_of_lt (by unfold heapLimit at hbase; unfold alignment; omega)
    show wrappingAdd 32 heapBase (alignment - 1) / alignment * alignment ≤ heapLimit + 7
    rw [hwrap]
    unfold alignment
    omega
  tiles := rfl
  perm := by simp [liveBlocks, freeBlocks]
  inMemory := .inl rfl
  memoryBound := hmemory
  chains _ := .nil
  occupied _ ha := absurd ha List.not_mem_nil
  totalSize := rfl

theorem le_new_bumper {heapBase : ℕ} (hbase : heapBase ≤ heapLimit) :
    heapBase ≤ (FreeingBumpHeapAllocator.new heapBase).bumper := by
  have hwrap : wrappingAdd 32 heapBase (alignment - 1) = heapBase + 7 :=
    wrappingAdd_of_lt (by unfold heapLimit at hbase; unfold alignment; omega)
  show heapBase ≤ wrappingAdd 32 heapBase (alignment - 1) / alignment * alignment
  rw [hwrap]
  unfold alignment
  omega

end Layout

end SocialNetwork.Allocator
