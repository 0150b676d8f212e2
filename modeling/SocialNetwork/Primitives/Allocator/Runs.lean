import SocialNetwork.Primitives.Allocator.Blocks

/-!
# Runs of the allocator

The runs the allocator is made for (`ValidRun`): from `new(heap_base)` over a
memory, the runtime allocates, frees a pointer it holds, writes within the
payload of one, or grows the memory. With the heap base and the memory below
`heapLimit`, every state of such a run is laid out (`ValidRun.layout`), and a
laid-out heap answers each call in one of the ways `Layout.allocate_cases` and
`Layout.deallocate_ok` list: the assertion that trusts the free lists never
fails, and neither does `deallocate` of a live pointer.

A run is a run of the commands of `Heap.apply` (`ValidRun.reachable`).
-/

namespace SocialNetwork.Allocator

open Dispatch Unsigned

theorem wrappingAdd_blockSize (o : Order) : wrappingAdd 32 o.size headerSize = o.size + headerSize := by
  have hsize := o.size_le
  apply wrappingAdd_of_lt
  unfold maxPossibleAllocation at hsize
  unfold headerSize
  omega

section Calls

variable {heapStart : ℕ} {live : List (ℕ × Order)} {h : Heap} {blocks : List (ℕ × Order)}
  {free : Order → List ℕ}

namespace Layout

variable (hL : Layout heapStart live h blocks free)
include hL

/-- **`allocate` on a laid-out heap.** It fails on a size above `2^24`, fails
out of space when the free list of the order is empty and the block does not
fit before the end of the memory, and otherwise pops the head of the free
list or bumps the bumper; never panics. -/
theorem allocate_cases (hp : h.allocator.poisoned = false) (size : ℕ) :
    (∃ e, Order.fromSize size = .error e ∧ (allocate size).run h = .error (.error e) h.poison) ∨
    (∃ o, Order.fromSize size = .ok o ∧ h.allocator.freeLists o = .nil ∧
      h.memory.bytes.length < h.allocator.bumper + (o.size + headerSize) ∧
      (allocate size).run h = .error (.error .allocatorOutOfSpace) h.poison) ∨
    (∃ o p h', Order.fromSize size = .ok o ∧ h.allocator.freeLists o = .ptr p ∧
      (allocate size).run h = .ok (p + headerSize) h' ∧
      ∃ blocks' free', Layout heapStart (live ++ [(p + headerSize, o)]) h' blocks' free') ∨
    (∃ o h', Order.fromSize size = .ok o ∧ h.allocator.freeLists o = .nil ∧
      (allocate size).run h = .ok (h.allocator.bumper + headerSize) h' ∧
      ∃ blocks' free', Layout heapStart (live ++ [(h.allocator.bumper + headerSize, o)]) h' blocks' free') := by
  rw [run_allocate hp]
  cases hsize : Order.fromSize size with
  | error e => exact .inl ⟨e, rfl, run_poisonBomb_error (run_allocateInner_of_fromSize_error hsize)⟩
  | ok o =>
    right
    -- below `heapLimit` no `u32` sum of the allocator wraps
    have hmem : h.memory.bytes.length < 2 ^ 32 := lt_of_le_of_lt hL.memoryBound (by decide)
    have hbound := hL.memoryBound
    have hbumper := hL.bumper_le
    have htotalLe := hL.totalSize_le
    have hsizeLe := o.size_le
    have htotal : wrappingAdd 32 h.allocator.totalSize (o.size + headerSize) =
        h.allocator.totalSize + (o.size + headerSize) := by
      apply wrappingAdd_of_lt
      unfold heapLimit maxPossibleAllocation headerSize at *
      omega
    cases hlist : h.allocator.freeLists o with
    | ptr p =>
      have hchain := hL.chains o
      rw [hlist] at hchain
      obtain ⟨next, rest, hfree, hread, hnext⟩ := hchain.ptr_inv
      obtain ⟨-, -, hend⟩ := hL.bounds (hL.free_mem_blocks (hfree ▸ List.mem_cons_self))
      simp only [blockSize] at hend
      obtain ⟨memory, hwrite⟩ := Header.writeInto_ok_of_le (.occupied o)
        (show p + 8 ≤ maxValue 32 by unfold heapLimit maxValue headerSize at *; omega)
        (show p + 8 ≤ h.memory.bytes.length by unfold headerSize at *; omega)
      have hret : wrappingAdd 32 p headerSize = p + headerSize := by
        apply wrappingAdd_of_lt
        unfold heapLimit headerSize at *
        omega
      refine .inr (.inl ⟨o, p, _, rfl, hlist, run_poisonBomb_ok ?_, _, _, hL.pop hfree hnext hwrite⟩)
      rw [run_allocateInner_pop hsize hmem hlist (by omega) hread hwrite, wrappingAdd_blockSize, htotal, hret]
    | nil =>
      have hend : wrappingAdd 32 h.allocator.bumper (o.size + headerSize) =
          h.allocator.bumper + (o.size + headerSize) := by
        apply wrappingAdd_of_lt
        unfold heapLimit maxPossibleAllocation headerSize at *
        omega
      by_cases hout : h.memory.bytes.length < h.allocator.bumper + (o.size + headerSize)
      · refine .inl ⟨o, rfl, hlist, hout, run_poisonBomb_error ?_⟩
        exact run_allocateInner_outOfSpace hsize hmem hlist (by rw [wrappingAdd_blockSize, hend]; exact hout)
      · have hfit := not_lt.mp hout
        have hsize8 := o.eight_le_size
        obtain ⟨memory, hwrite⟩ := Header.writeInto_ok_of_le (.occupied o)
          (show h.allocator.bumper + 8 ≤ maxValue 32 by unfold heapLimit maxValue headerSize at *; omega)
          (show h.allocator.bumper + 8 ≤ h.memory.bytes.length by unfold headerSize at *; omega)
        have hret : wrappingAdd 32 h.allocator.bumper headerSize = h.allocator.bumper + headerSize := by
          apply wrappingAdd_of_lt
          unfold heapLimit headerSize at *
          omega
        refine .inr (.inr ⟨o, _, rfl, hlist, run_poisonBomb_ok ?_, _, _, hL.bump hfit hwrite⟩)
        rw [run_allocateInner_bump hsize hmem hlist (by rw [wrappingAdd_blockSize, hend]; exact hfit) hwrite,
          wrappingAdd_blockSize, hend, htotal, hret]

/-- **`deallocate` of a live pointer** returns `Ok`, its block now at the head
of the free list of its order. -/
theorem deallocate_ok (hp : h.allocator.poisoned = false) {a : ℕ × Order} (ha : a ∈ live) :
    ∃ memory, (deallocate a.1).run h =
        .ok () ⟨{ h.allocator with
            freeLists := Function.update h.allocator.freeLists a.2 (.ptr (a.1 - headerSize))
            totalSize := h.allocator.totalSize - (a.2.size + headerSize) }, memory⟩ ∧
      Layout heapStart (live.erase a)
        ⟨{ h.allocator with
            freeLists := Function.update h.allocator.freeLists a.2 (.ptr (a.1 - headerSize))
            totalSize := h.allocator.totalSize - (a.2.size + headerSize) }, memory⟩
        blocks (Function.update free a.2 ((a.1 - headerSize) :: free a.2)) := by
  obtain ⟨hptr, hread⟩ := hL.occupied a ha
  obtain ⟨-, -, hend⟩ := hL.bounds (hL.live_mem_blocks ha)
  simp only [blockSize] at hend
  have hbound := hL.memoryBound
  have hsize8 := a.2.eight_le_size
  obtain ⟨memory, hwrite⟩ := Header.writeInto_ok_of_le (.free (h.allocator.freeLists a.2))
    (show a.1 - headerSize + 8 ≤ maxValue 32 by unfold heapLimit maxValue headerSize at *; omega)
    (show a.1 - headerSize + 8 ≤ h.memory.bytes.length by unfold headerSize at *; omega)
  have htotal : wrappingAdd 32 a.2.size headerSize ≤ h.allocator.totalSize := by
    rw [wrappingAdd_blockSize]
    exact hL.blockSize_le_totalSize ha
  refine ⟨memory, ?_, hL.push ha hwrite⟩
  rw [run_deallocate hp, run_poisonBomb_ok (run_deallocateInner hptr hread hwrite htotal), wrappingAdd_blockSize]

/-! ## Where each call leaves a laid-out heap -/

theorem of_allocate_ok {size p : ℕ} {h' : Heap} (hcall : (allocate size).run h = .ok p h') :
    ∃ o, Order.fromSize size = .ok o ∧ ∃ blocks' free', Layout heapStart (live ++ [(p, o)]) h' blocks' free' := by
  cases hp : h.allocator.poisoned with
  | true =>
    rw [allocate_of_poisoned hp] at hcall
    cases hcall
  | false =>
    rcases hL.allocate_cases hp size with ⟨e, -, hrun⟩ | ⟨o, -, -, -, hrun⟩ | ⟨o, q, h'', hsize, -, hrun, hL'⟩ |
        ⟨o, h'', hsize, -, hrun, hL'⟩
    · rw [hrun] at hcall
      cases hcall
    · rw [hrun] at hcall
      cases hcall
    · rw [hrun] at hcall
      cases hcall
      exact ⟨o, hsize, hL'⟩
    · rw [hrun] at hcall
      cases hcall
      exact ⟨o, hsize, hL'⟩

/-- An allocation that fails leaves the layout, and fails out of space only
when the free list of its order is empty and the block does not fit. -/
theorem of_allocate_error {size : ℕ} {e : Error} {h' : Heap} (hcall : (allocate size).run h = .error (.error e) h') :
    Layout heapStart live h' blocks free ∧
      (e = .allocatorOutOfSpace → ∃ o, Order.fromSize size = .ok o ∧ h.allocator.freeLists o = .nil ∧
        h.memory.bytes.length < h.allocator.bumper + (o.size + headerSize)) := by
  cases hp : h.allocator.poisoned with
  | true =>
    rw [allocate_of_poisoned hp] at hcall
    cases hcall
    exact ⟨hL, fun hoos => nomatch hoos⟩
  | false =>
    rcases hL.allocate_cases hp size with ⟨e', hsize, hrun⟩ | ⟨o, hsize, hlist, hout, hrun⟩ | ⟨_, _, _, _, _, hrun, _⟩ |
        ⟨_, _, _, _, hrun, _⟩
    · rw [hrun] at hcall
      cases hcall
      -- `from_size` fails only on a size too large
      obtain ⟨rfl, -⟩ := fromSize_error hsize
      exact ⟨hL.poison, fun hoos => nomatch hoos⟩
    · rw [hrun] at hcall
      cases hcall
      exact ⟨hL.poison, fun _ => ⟨o, hsize, hlist, hout⟩⟩
    · rw [hrun] at hcall
      cases hcall
    · rw [hrun] at hcall
      cases hcall

/-- A deallocation of a live pointer that returns `Ok` is laid out with the
pointer freed. -/
theorem of_deallocate_ok {a : ℕ × Order} (ha : a ∈ live) {h' : Heap} (hcall : (deallocate a.1).run h = .ok () h') :
    ∃ blocks' free', Layout heapStart (live.erase a) h' blocks' free' := by
  cases hp : h.allocator.poisoned with
  | true =>
    rw [deallocate_of_poisoned hp] at hcall
    cases hcall
  | false =>
    obtain ⟨memory, hrun, hL'⟩ := hL.deallocate_ok hp ha
    rw [hrun] at hcall
    cases hcall
    exact ⟨_, _, hL'⟩

/-- `deallocate` of a live pointer fails only on a poisoned allocator, which
it leaves as it is. -/
theorem deallocate_error {a : ℕ × Order} (ha : a ∈ live) {e : Error} {h' : Heap}
    (hcall : (deallocate a.1).run h = .error (.error e) h') : h' = h := by
  cases hp : h.allocator.poisoned with
  | true =>
    rw [deallocate_of_poisoned hp] at hcall
    cases hcall
    rfl
  | false =>
    obtain ⟨memory, hrun, -⟩ := hL.deallocate_ok hp ha
    rw [hrun] at hcall
    cases hcall

end Layout

end Calls

/-! ## Valid runs -/

/-- The runs the allocator is made for, from `new(heap_base)` over `memory`:
the runtime allocates, frees a pointer it holds, writes within the payload of
one, or grows the memory up to `heapLimit`. `live` lists the pointers it
holds, each with its order; a call that fails keeps them. -/
inductive ValidRun (heapBase : ℕ) (memory : Memory) : Heap → List (ℕ × Order) → Prop
  | init : ValidRun heapBase memory (Heap.init heapBase memory) []
  | allocateOk {h h' : Heap} {live : List (ℕ × Order)} {size p : ℕ} {o : Order}
      (hrun : ValidRun heapBase memory h live) (hsize : Order.fromSize size = .ok o)
      (hcall : (allocate size).run h = .ok p h') : ValidRun heapBase memory h' (live ++ [(p, o)])
  | allocateErr {h h' : Heap} {live : List (ℕ × Order)} {size : ℕ} {e : Error}
      (hrun : ValidRun heapBase memory h live) (hcall : (allocate size).run h = .error (.error e) h') :
      ValidRun heapBase memory h' live
  | deallocateOk {h h' : Heap} {live : List (ℕ × Order)} {a : ℕ × Order}
      (hrun : ValidRun heapBase memory h live) (ha : a ∈ live) (hcall : (deallocate a.1).run h = .ok () h') :
      ValidRun heapBase memory h' (live.erase a)
  | deallocateErr {h h' : Heap} {live : List (ℕ × Order)} {a : ℕ × Order} {e : Error}
      (hrun : ValidRun heapBase memory h live) (ha : a ∈ live)
      (hcall : (deallocate a.1).run h = .error (.error e) h') : ValidRun heapBase memory h' live
  | write {h : Heap} {live : List (ℕ × Order)} {a : ℕ × Order} {ptr : ℕ} {bytes : List UInt8}
      (hrun : ValidRun heapBase memory h live) (ha : a ∈ live) (hlo : a.1 ≤ ptr)
      (hhi : ptr + bytes.length ≤ a.1 + a.2.size) :
      ValidRun heapBase memory { h with memory := h.memory.write ptr bytes } live
  | grow {h : Heap} {live : List (ℕ × Order)} {count : ℕ} (hrun : ValidRun heapBase memory h live)
      (hcount : h.memory.bytes.length + count ≤ heapLimit) :
      ValidRun heapBase memory { h with memory := ⟨h.memory.bytes ++ List.replicate count 0⟩ } live

namespace ValidRun

variable {heapBase : ℕ} {memory : Memory} {h : Heap} {live : List (ℕ × Order)}

theorem reachable (hrun : ValidRun heapBase memory h live) :
    Reachable Heap.apply (· = Heap.init heapBase memory) h := by
  induction hrun with
  | init => exact Reachable.start rfl
  | @allocateOk _ _ _ size _ _ _ _ hcall ih =>
    refine ih.step (.allocate size) (.inl ⟨(), ?_⟩)
    simp only [Heap.apply]
    rw [run_bind_ok hcall]
    rfl
  | @allocateErr _ _ _ size e _ hcall ih =>
    refine ih.step (.allocate size) (.inr ⟨e, ?_⟩)
    simp only [Heap.apply]
    rw [run_bind_error hcall]
  | deallocateOk _ _ hcall ih => exact ih.step (.deallocate _) (.inl ⟨(), hcall⟩)
  | deallocateErr _ _ hcall ih => exact ih.step (.deallocate _) (.inr ⟨_, hcall⟩)
  | write _ _ _ _ ih => exact ih.step (.write _ _) (.inl ⟨(), rfl⟩)
  | grow _ _ ih => exact ih.step (.grow _) (.inl ⟨(), rfl⟩)

/-- **The layout over every run.** Each state of a valid run is laid out from
the aligned heap base, for the pointers the runtime holds. The induction is on
the run, one case per step. -/
theorem layout (hbase : heapBase ≤ heapLimit) (hmemory : memory.bytes.length ≤ heapLimit)
    (hrun : ValidRun heapBase memory h live) :
    ∃ blocks free, Layout (FreeingBumpHeapAllocator.new heapBase).bumper live h blocks free := by
  induction hrun with
  | init => exact ⟨_, _, Layout.init hbase hmemory⟩
  | allocateOk _ hsize hcall ih =>
    obtain ⟨blocks, free, hL⟩ := ih
    obtain ⟨o, hsize', hL'⟩ := hL.of_allocate_ok hcall
    rw [hsize] at hsize'
    cases hsize'
    exact hL'
  | allocateErr _ hcall ih =>
    obtain ⟨blocks, free, hL⟩ := ih
    exact ⟨blocks, free, (hL.of_allocate_error hcall).1⟩
  | deallocateOk _ ha hcall ih =>
    obtain ⟨blocks, free, hL⟩ := ih
    exact hL.of_deallocate_ok ha hcall
  | deallocateErr _ ha hcall ih =>
    obtain ⟨blocks, free, hL⟩ := ih
    rw [hL.deallocate_error ha hcall]
    exact ⟨blocks, free, hL⟩
  | write _ ha hlo hhi ih =>
    obtain ⟨blocks, free, hL⟩ := ih
    refine ⟨blocks, free, hL.frame (Memory.length_write _).ge ?_ (hL.headers_write ha hlo hhi)⟩
    rw [Memory.length_write]
    exact hL.memoryBound
  | grow _ hcount ih =>
    obtain ⟨blocks, free, hL⟩ := ih
    refine ⟨blocks, free, hL.frame ?_ ?_ (hL.headers_grow _)⟩
    · simp
    · simpa using hcount

/-- The heap after `allocate(8)` on a fresh allocator at heap base 0 over
`zeroMemory`: one live block of order 0 at 8. -/
def firstAllocation : Heap := after ((allocate 8).run (Heap.init 0 zeroMemory))

theorem validRun_firstAllocation : ValidRun 0 zeroMemory firstAllocation [(8, ⟨0, by decide⟩)] :=
  @ValidRun.allocateOk 0 zeroMemory _ _ _ 8 _ _ .init rfl rfl

/-- **Live allocations over every run.** At every state of a valid run, each
pointer the runtime holds is aligned, has its header at or above `heap_base`
and its payload within the memory; no two of them overlap, headers included;
and `total_size` is the sum of their orders' sizes and headers. -/
theorem live_allocations_sound (hbase : heapBase ≤ heapLimit) (hmemory : memory.bytes.length ≤ heapLimit)
    (hrun : ValidRun heapBase memory h live) :
    (∀ a ∈ live, a.1 % alignment = 0 ∧ heapBase ≤ a.1 - headerSize ∧ a.1 + a.2.size ≤ h.memory.bytes.length) ∧
    live.Pairwise (fun a b => a.1 + a.2.size ≤ b.1 - headerSize ∨ b.1 + b.2.size ≤ a.1 - headerSize) ∧
    h.allocator.totalSize = (live.map fun a => a.2.size + headerSize).sum := by
  obtain ⟨blocks, free, hL⟩ := hrun.layout hbase hmemory
  have hstart := le_new_bumper hbase
  refine ⟨fun a ha => ?_, hL.live_pairwise, hL.totalSize_eq⟩
  obtain ⟨halign, hlo, hend⟩ := hL.live_bounds ha
  exact ⟨halign, by omega, hend⟩

theorem live_allocations_sound_first :
    0 ≤ heapLimit ∧ zeroMemory.bytes.length ≤ heapLimit ∧
      ValidRun 0 zeroMemory firstAllocation [(8, ⟨0, by decide⟩)] ∧
      ((∀ a ∈ [((8 : ℕ), (⟨0, by decide⟩ : Order))], a.1 % alignment = 0 ∧ 0 ≤ a.1 - headerSize ∧
          a.1 + a.2.size ≤ firstAllocation.memory.bytes.length) ∧
        [((8 : ℕ), (⟨0, by decide⟩ : Order))].Pairwise
          (fun a b => a.1 + a.2.size ≤ b.1 - headerSize ∨ b.1 + b.2.size ≤ a.1 - headerSize) ∧
        firstAllocation.allocator.totalSize =
          ([((8 : ℕ), (⟨0, by decide⟩ : Order))].map fun a => a.2.size + headerSize).sum) :=
  ⟨by decide, by decide, validRun_firstAllocation,
    live_allocations_sound (by decide) (by decide) validRun_firstAllocation⟩

/-- **`allocate` on every state of a valid run.** It never panics. An `Ok`
pointer is aligned and has its header at or above `heap_base`; its block is of
the order `from_size` gives, at least the size asked for and 8 bytes, lies
within the memory and apart from every live allocation. `AllocatorOutOfSpace`
comes only with an empty free list of the order and a block that would pass
the end of the memory. -/
theorem allocate_sound (hbase : heapBase ≤ heapLimit) (hmemory : memory.bytes.length ≤ heapLimit)
    (hrun : ValidRun heapBase memory h live) (size : ℕ) :
    (∀ h', (allocate size).run h ≠ .error .panic h') ∧
    (∀ p h', (allocate size).run h = .ok p h' →
      p % alignment = 0 ∧ heapBase ≤ p - headerSize ∧
      ∃ o, Order.fromSize size = .ok o ∧ max size minPossibleAllocation ≤ o.size ∧
        p + o.size ≤ h'.memory.bytes.length ∧
        ∀ a ∈ live, a.1 + a.2.size ≤ p - headerSize ∨ p + o.size ≤ a.1 - headerSize) ∧
    (∀ h', (allocate size).run h = .error (.error .allocatorOutOfSpace) h' →
      ∃ o, Order.fromSize size = .ok o ∧ h.allocator.freeLists o = .nil ∧
        h.memory.bytes.length < h.allocator.bumper + (o.size + headerSize)) := by
  obtain ⟨blocks, free, hL⟩ := hrun.layout hbase hmemory
  have hstart := le_new_bumper hbase
  refine ⟨fun h' hpanic => ?_, fun p h' hcall => ?_, fun h' hcall => (hL.of_allocate_error hcall).2 rfl⟩
  · -- each way `allocate` ends is an `Ok` or an `Err`
    cases hp : h.allocator.poisoned with
    | true =>
      rw [allocate_of_poisoned hp] at hpanic
      cases hpanic
    | false =>
      rcases hL.allocate_cases hp size with ⟨_, _, hrun'⟩ | ⟨_, _, _, _, hrun'⟩ | ⟨_, _, _, _, _, hrun', _⟩ |
          ⟨_, _, _, _, hrun', _⟩ <;>
        rw [hrun'] at hpanic <;> cases hpanic
  · -- the new allocation is the last live one of the next state
    obtain ⟨o, hsize, blocks', free', hL'⟩ := hL.of_allocate_ok hcall
    have hnew : (p, o) ∈ live ++ [(p, o)] := List.mem_append_right _ (List.mem_singleton_self _)
    obtain ⟨halign, hlo, hend⟩ := hL'.live_bounds hnew
    refine ⟨halign, by omega, o, hsize, (fromSize_ok hsize).2, hend, fun a ha => ?_⟩
    exact (List.pairwise_append.mp hL'.live_pairwise).2.2 a ha (p, o) (List.mem_singleton_self _)

theorem allocate_sound_first :
    0 ≤ heapLimit ∧ zeroMemory.bytes.length ≤ heapLimit ∧
      ValidRun 0 zeroMemory firstAllocation [(8, ⟨0, by decide⟩)] ∧
      ((∀ h', (allocate 8).run firstAllocation ≠ .error .panic h') ∧
        (∀ p h', (allocate 8).run firstAllocation = .ok p h' →
          p % alignment = 0 ∧ 0 ≤ p - headerSize ∧
          ∃ o, Order.fromSize 8 = .ok o ∧ max 8 minPossibleAllocation ≤ o.size ∧
            p + o.size ≤ h'.memory.bytes.length ∧
            ∀ a ∈ [((8 : ℕ), (⟨0, by decide⟩ : Order))],
              a.1 + a.2.size ≤ p - headerSize ∨ p + o.size ≤ a.1 - headerSize) ∧
        (∀ h', (allocate 8).run firstAllocation = .error (.error .allocatorOutOfSpace) h' →
          ∃ o, Order.fromSize 8 = .ok o ∧ firstAllocation.allocator.freeLists o = .nil ∧
            firstAllocation.memory.bytes.length < firstAllocation.allocator.bumper + (o.size + headerSize))) :=
  ⟨by decide, by decide, validRun_firstAllocation,
    allocate_sound (by decide) (by decide) validRun_firstAllocation 8⟩

/-- **Freed blocks are reused first.** At every state of a valid run whose
allocator is not poisoned, `deallocate` of a live pointer returns `Ok`, and
an `allocate` right after it, of any size of the same order, returns the same
pointer: the free list of the order is a stack. -/
theorem deallocate_then_allocate (hbase : heapBase ≤ heapLimit) (hmemory : memory.bytes.length ≤ heapLimit)
    (hrun : ValidRun heapBase memory h live) (hp : h.allocator.poisoned = false)
    {a : ℕ × Order} (ha : a ∈ live) :
    ∃ h', (deallocate a.1).run h = .ok () h' ∧
      ∀ size, Order.fromSize size = .ok a.2 → ∃ h'', (allocate size).run h' = .ok a.1 h'' := by
  obtain ⟨blocks, free, hL⟩ := hrun.layout hbase hmemory
  obtain ⟨memory', hcall, hL'⟩ := hL.deallocate_ok hp ha
  refine ⟨_, hcall, fun size hsize => ?_⟩
  have hptr := (hL.occupied a ha).1
  -- the free list of the order now starts at the freed block
  rcases hL'.allocate_cases hp size with ⟨e, he, -⟩ | ⟨o, ho, hnil, -, -⟩ | ⟨o, q, h'', ho, hq, hrun', -⟩ |
      ⟨o, h'', ho, hnil, -, -⟩
  · rw [hsize] at he
    cases he
  · rw [hsize] at ho
    cases ho
    simp at hnil
  · rw [hsize] at ho
    cases ho
    simp only [Function.update_self, Link.ptr.injEq] at hq
    refine ⟨h'', ?_⟩
    rw [hrun', ← hq, Nat.sub_add_cancel hptr]
  · rw [hsize] at ho
    cases ho
    simp at hnil

theorem deallocate_then_allocate_first :
    0 ≤ heapLimit ∧ zeroMemory.bytes.length ≤ heapLimit ∧
      ValidRun 0 zeroMemory firstAllocation [(8, ⟨0, by decide⟩)] ∧ firstAllocation.allocator.poisoned = false ∧
      ((8 : ℕ), (⟨0, by decide⟩ : Order)) ∈ [((8 : ℕ), (⟨0, by decide⟩ : Order))] ∧
      ∃ h', (deallocate 8).run firstAllocation = .ok () h' ∧
        ∀ size, Order.fromSize size = .ok ⟨0, by decide⟩ → ∃ h'', (allocate size).run h' = .ok 8 h'' :=
  ⟨by decide, by decide, validRun_firstAllocation, rfl, List.mem_singleton_self _,
    deallocate_then_allocate (by decide) (by decide) validRun_firstAllocation rfl (List.mem_singleton_self _)⟩

end ValidRun

end SocialNetwork.Allocator
