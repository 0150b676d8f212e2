import Mathlib
import SocialNetwork.Lib.Dispatch
import SocialNetwork.Lib.Unsigned

/-!
# The freeing-bump heap allocator

`src/primitives/allocator/src/freeing_bump.rs` allocates in the linear
memory of a Wasm instance, on behalf of the runtime that runs in it. Every
allocation is a power of two between 8 bytes and 16 MiB, its order the
exponent above 8, and is preceded by an 8-byte header: `Occupied(order)`
while it is in use, `Free(next)` while it is on the free list of its order.
`allocate` pops the free list of the order, or bumps a pointer; `deallocate`
reads the order from the header before the pointer and pushes the block.

The memory is the runtime's, and the runtime may write any byte of it
(`Command.write`) or grow it between calls. `deallocate` trusts any header
that reads as occupied, and `allocate` then asserts that the block it pops
lies within the memory, "qed" for blocks the allocator made itself. A header
forged at the end of the memory passes the first and fails the second: the
allocator panics (`allocate_panics_on_forged_header`).

The allocator guards its two calls with a `PoisonBomb`: every `Err` poisons
it, and a poisoned allocator fails every later call without writing
(`allocate_error_poisons`, `deallocate_error_poisons`, `errors_after_error`).

The memory is the `[u8]` implementation of `Memory`, a list of bytes. The
`u32` arithmetic wraps, as in a release build; `Memory::size` panics on a
memory of `2^32` bytes or more. The wrapping reaches `new` too: a
`heap_base` within 7 of `2^32` puts the heap at 0 (`new_bumper_of_wrap`).
-/

namespace SocialNetwork.Allocator

open Dispatch Unsigned

/-- `sp_allocator::Error`. -/
inductive Error where
  | requestedAllocationTooLarge
  | allocatorOutOfSpace
  | other (msg : String)
  deriving DecidableEq, Repr

/-- `ALIGNMENT`. -/
def alignment : ℕ := 8

/-- `HEADER_SIZE`. -/
def headerSize : ℕ := 8

/-- `N_ORDERS`. -/
def nOrders : ℕ := 22

/-- `MAX_POSSIBLE_ALLOCATION`. -/
def maxPossibleAllocation : ℕ := 16777216

/-- `MIN_POSSIBLE_ALLOCATION`. -/
def minPossibleAllocation : ℕ := 8

/-- `NIL_MARKER`, `u32::max_value()`. -/
def nilMarker : ℕ := 2 ^ 32 - 1

/-- `u32::next_power_of_two` on the sizes it is called with, at most `2^24`:
the least power of two at or above `n`. -/
def nextPowerOfTwo (n : ℕ) : ℕ := 2 ^ ((List.range 32).find? fun k => n ≤ 2 ^ k).getD 32

/-- `u32::trailing_zeros`. -/
def trailingZeros (n : ℕ) : ℕ := ((List.range 32).find? fun k => n.testBit k).getD 32

/-- `Order`: an order below `N_ORDERS`. -/
structure Order where
  raw : ℕ
  lt : raw < nOrders
  deriving DecidableEq

/-- `Order::from_raw`. -/
def Order.fromRaw (order : ℕ) : Except Error Order :=
  if h : order < nOrders then .ok ⟨order, h⟩ else .error (.other "invalid order")

/-- `Order::from_size`. The clamped size is between 8 and `2^24`, so the
order is below `N_ORDERS` and the last check never fails. -/
def Order.fromSize (size : ℕ) : Except Error Order :=
  if maxPossibleAllocation < size then .error .requestedAllocationTooLarge
  else
    let clampedSize := if size < minPossibleAllocation then minPossibleAllocation else size
    let powerOfTwoSize := nextPowerOfTwo clampedSize
    let order := trailingZeros powerOfTwoSize - trailingZeros minPossibleAllocation
    if h : order < nOrders then .ok ⟨order, h⟩ else .error (.other "invalid order")

/-- `Order::size`. -/
def Order.size (o : Order) : ℕ := minPossibleAllocation <<< o.raw

/-- `Link`. -/
inductive Link where
  | nil
  | ptr (headerPtr : ℕ)
  deriving DecidableEq, Repr

/-- `Link::from_raw`. -/
def Link.fromRaw (raw : ℕ) : Link := if raw ≠ nilMarker then .ptr raw else .nil

/-- `Link::into_raw`. -/
def Link.intoRaw : Link → ℕ
  | .nil => nilMarker
  | .ptr headerPtr => headerPtr

/-! ## The memory -/

/-- The linear memory, as the `[u8]` implementation of `Memory` sees it. -/
structure Memory where
  bytes : List UInt8
  deriving DecidableEq

/-- `u64::from_le_bytes`. -/
def fromLeBytes (bytes : List UInt8) : ℕ := bytes.foldr (fun b acc => b.toNat + 256 * acc) 0

/-- `u64::to_le_bytes`. -/
def toLeBytes (val : ℕ) : List UInt8 := (List.range 8).map fun i => UInt8.ofNat (val / 256 ^ i)

/-- `heap_range`: the range `offset..offset + length`, its end a checked
`u32` sum, when it lies within the memory. -/
def heapRange (offset length heapLen : ℕ) : Option (ℕ × ℕ) :=
  match checkedAdd 32 offset length with
  | some stop => if stop ≤ heapLen then some (offset, stop) else none
  | none => none

/-- `Memory::read_le_u64`. -/
def Memory.readLeU64 (m : Memory) (ptr : ℕ) : Except Error ℕ :=
  match heapRange ptr 8 m.bytes.length with
  | some (start, stop) => .ok (fromLeBytes ((m.bytes.drop start).take (stop - start)))
  | none => .error (.other "read out of heap bounds")

/-- `Memory::write_le_u64`. -/
def Memory.writeLeU64 (m : Memory) (ptr val : ℕ) : Except Error Memory :=
  match heapRange ptr 8 m.bytes.length with
  | some (start, stop) => .ok ⟨m.bytes.take start ++ toLeBytes val ++ m.bytes.drop stop⟩
  | none => .error (.other "write out of heap bounds")

/-! ## Headers -/

/-- `Header`. -/
inductive Header where
  | free (link : Link)
  | occupied (order : Order)

/-- `Header::read_from`: bit 32 tells an occupied header, whose low 32 bits
are an order, from a free one, whose low 32 bits are a link. -/
def Header.readFrom (m : Memory) (headerPtr : ℕ) : Except Error Header := do
  let rawHeader ← m.readLeU64 headerPtr
  let occupied := rawHeader &&& 0x100000000 ≠ 0
  let headerData := rawHeader % 2 ^ 32
  if occupied then .occupied <$> Order.fromRaw headerData
  else pure (.free (Link.fromRaw headerData))

/-- `Header::write_into`. -/
def Header.writeInto (header : Header) (m : Memory) (headerPtr : ℕ) : Except Error Memory :=
  let (headerData, occupiedMask) := match header with
    | .occupied order => (order.raw, 0x100000000)
    | .free link => (link.intoRaw, 0)
  m.writeLeU64 headerPtr (headerData ||| occupiedMask)

/-- `Header::into_occupied`. -/
def Header.intoOccupied : Header → Option Order
  | .occupied order => some order
  | .free _ => none

/-- `Header::into_free`. -/
def Header.intoFree : Header → Option Link
  | .free link => some link
  | .occupied _ => none

/-! ## The allocator -/

/-- `FreeingBumpHeapAllocator`; `free_lists` is a function of the order. -/
structure FreeingBumpHeapAllocator where
  bumper : ℕ
  freeLists : Order → Link
  totalSize : ℕ
  poisoned : Bool

/-- The allocator beside the memory it runs on. -/
structure Heap where
  allocator : FreeingBumpHeapAllocator
  memory : Memory

abbrev HeapCall := Call Error Heap

/-- `FreeingBumpHeapAllocator::new`: the bumper at `heap_base` rounded up to
the alignment, the sum a `u32` one. -/
def FreeingBumpHeapAllocator.new (heapBase : ℕ) : FreeingBumpHeapAllocator where
  bumper := wrappingAdd 32 heapBase (alignment - 1) / alignment * alignment
  freeLists _ := .nil
  totalSize := 0
  poisoned := false

/-- `Memory::size`, which panics on a memory of `2^32` bytes or more. -/
def Memory.size (m : Memory) : HeapCall ℕ :=
  if m.bytes.length < 2 ^ 32 then pure m.bytes.length else panic

def setAllocator (a : FreeingBumpHeapAllocator) : HeapCall Unit := modify fun h => { h with allocator := a }

/-- A `PoisonBomb` around a call: an `Err` the call returns poisons the
allocator, as the bomb's `Drop` does on the early return; `Ok` disarms it. -/
def poisonBomb {α : Type} (m : HeapCall α) : HeapCall α := fun h =>
  match m h with
  | .ok a h' => .ok a h'
  | .error (.error e) h' => .error (.error e) { h' with allocator := { h'.allocator with poisoned := true } }
  | .error .panic h' => .error .panic h'

/-- `bump`: the bumper before it is raised by `size`, unless that passes the
end of the heap. -/
def bump (size heapEnd : ℕ) : HeapCall ℕ := do
  let h ← get
  let bumper := h.allocator.bumper
  if heapEnd < wrappingAdd 32 bumper size then fail .allocatorOutOfSpace
  else
    setAllocator { h.allocator with bumper := wrappingAdd 32 bumper size }
    pure bumper

def allocateInner (size : ℕ) : HeapCall ℕ := do
  let order ← ofExcept (Order.fromSize size)
  let h ← get
  let memSize ← h.memory.size
  let headerPtr ← match h.allocator.freeLists order with
    | .ptr headerPtr => do
        -- the `assert!` whose "qed" trusts every block on a free list
        if memSize < wrappingAdd 32 (wrappingAdd 32 headerPtr order.size) headerSize then panic
        let header ← ofExcept (Header.readFrom h.memory headerPtr)
        let nextFree ← okOr header.intoFree (.other "free list points to a occupied header")
        setAllocator { h.allocator with freeLists := Function.update h.allocator.freeLists order nextFree }
        pure headerPtr
    | .nil => bump (wrappingAdd 32 order.size headerSize) memSize
  let h ← get
  let memory ← ofExcept ((Header.occupied order).writeInto h.memory headerPtr)
  set { h with memory }
  setAllocator { h.allocator with
    totalSize := wrappingAdd 32 h.allocator.totalSize (wrappingAdd 32 order.size headerSize) }
  pure (wrappingAdd 32 headerPtr headerSize)

/-- `allocate`: the pointer of a new block of at least `size` bytes. -/
def allocate (size : ℕ) : HeapCall ℕ := do
  let h ← get
  if h.allocator.poisoned then fail (.other "the allocator has been poisoned")
  else poisonBomb (allocateInner size)

def deallocateInner (ptr : ℕ) : HeapCall Unit := do
  let headerPtr ← okOr (checkedSub ptr headerSize) (.other "Invalid pointer for deallocation")
  let h ← get
  let header ← ofExcept (Header.readFrom h.memory headerPtr)
  let order ← okOr header.intoOccupied (.other "the allocation points to an empty header")
  -- knit the block into the free list of its order
  let prevHead := h.allocator.freeLists order
  setAllocator { h.allocator with
    freeLists := Function.update h.allocator.freeLists order (.ptr headerPtr) }
  let h ← get
  let memory ← ofExcept ((Header.free prevHead).writeInto h.memory headerPtr)
  set { h with memory }
  let totalSize ← okOr (checkedSub h.allocator.totalSize (wrappingAdd 32 order.size headerSize))
    (.other "Unable to subtract from total heap size without overflow")
  setAllocator { h.allocator with totalSize }

/-- `deallocate`. -/
def deallocate (ptr : ℕ) : HeapCall Unit := do
  let h ← get
  if h.allocator.poisoned then fail (.other "the allocator has been poisoned")
  else poisonBomb (deallocateInner ptr)

/-- What happens to the heap between the runtime's calls: an allocation, a
deallocation, a write of the runtime into its memory, and a growth of the
memory by zeroed bytes. -/
inductive Command where
  | allocate (size : ℕ)
  | deallocate (ptr : ℕ)
  | write (ptr : ℕ) (bytes : List UInt8)
  | grow (count : ℕ)

def Memory.write (m : Memory) (ptr : ℕ) (bytes : List UInt8) : Memory :=
  if ptr + bytes.length ≤ m.bytes.length then ⟨m.bytes.take ptr ++ bytes ++ m.bytes.drop (ptr + bytes.length)⟩
  else m

/-- One command; the results of the allocator's calls are dropped. -/
def Heap.apply : Command → HeapCall Unit
  | .allocate size => do let _ ← allocate size
  | .deallocate ptr => deallocate ptr
  | .write ptr bytes => modify fun h => { h with memory := h.memory.write ptr bytes }
  | .grow count => modify fun h => { h with memory := ⟨h.memory.bytes ++ List.replicate count 0⟩ }

def Heap.init (heapBase : ℕ) (memory : Memory) : Heap := ⟨FreeingBumpHeapAllocator.new heapBase, memory⟩

/-! ## The poison bomb -/

section Poison

variable {α : Type} {h h' : Heap} {e : Error}

theorem poisonBomb_error {m : HeapCall α} (hm : (poisonBomb m).run h = .error (.error e) h') :
    h'.allocator.poisoned = true := by
  simp only [poisonBomb, EStateM.run] at hm
  split at hm
  · cases hm
  · cases hm
    rfl
  · cases hm

theorem allocate_of_poisoned (hp : h.allocator.poisoned = true) (size : ℕ) :
    (allocate size).run h = .error (.error (.other "the allocator has been poisoned")) h := by
  simp [allocate, hp]

theorem deallocate_of_poisoned (hp : h.allocator.poisoned = true) (ptr : ℕ) :
    (deallocate ptr).run h = .error (.error (.other "the allocator has been poisoned")) h := by
  simp [deallocate, hp]

/-- **Every error poisons.** `allocate` returns `Err` from a poisoned
allocator, which it leaves so, or through the bomb. -/
theorem allocate_error_poisons {size : ℕ} (hr : (allocate size).run h = .error (.error e) h') :
    h'.allocator.poisoned = true := by
  by_cases hp : h.allocator.poisoned = true
  · rw [allocate_of_poisoned hp] at hr
    cases hr
    exact hp
  · simp only [allocate, run_get_bind, hp, Bool.false_eq_true, if_false] at hr
    exact poisonBomb_error hr

theorem deallocate_error_poisons {ptr : ℕ} (hr : (deallocate ptr).run h = .error (.error e) h') :
    h'.allocator.poisoned = true := by
  by_cases hp : h.allocator.poisoned = true
  · rw [deallocate_of_poisoned hp] at hr
    cases hr
    exact hp
  · simp only [deallocate, run_get_bind, hp, Bool.false_eq_true, if_false] at hr
    exact poisonBomb_error hr

/-- A poisoned allocator stays poisoned through every command, whatever the
runtime writes. -/
theorem poisoned_of_leaves (c : Command) (hp : h.allocator.poisoned = true)
    (hc : Leaves (Heap.apply c) h h') : h'.allocator.poisoned = true := by
  cases c with
  | allocate size =>
      -- the call fails at once and writes nothing
      have hrun : (Heap.apply (.allocate size)).run h =
          .error (.error (.other "the allocator has been poisoned")) h := by
        simp only [Heap.apply]
        rw [run_bind_error (allocate_of_poisoned hp size)]
      rcases hc with ⟨_, hok⟩ | ⟨_, herr⟩
      · rw [hrun] at hok
        cases hok
      · rw [hrun] at herr
        cases herr
        exact hp
  | deallocate ptr =>
      rcases hc with ⟨_, hok⟩ | ⟨_, herr⟩
      · simp [Heap.apply, deallocate_of_poisoned hp] at hok
      · simp only [Heap.apply, deallocate_of_poisoned hp] at herr
        cases herr
        exact hp
  | write ptr bytes =>
      rcases hc with ⟨_, hok⟩ | ⟨_, herr⟩
      · simp only [Heap.apply] at hok
        cases hok
        exact hp
      · simp [Heap.apply] at herr
  | grow count =>
      rcases hc with ⟨_, hok⟩ | ⟨_, herr⟩
      · simp only [Heap.apply] at hok
        cases hok
        exact hp
      · simp [Heap.apply] at herr

/-- **After the first error.** Once `allocate` or `deallocate` has returned
`Err`, every state a run of commands reaches fails both calls, writing
nothing. -/
theorem errors_after_error (hp : h.allocator.poisoned = true) {h'' : Heap}
    (hrun : Reachable Heap.apply (· = h) h'') :
    (∀ size, (allocate size).run h'' = .error (.error (.other "the allocator has been poisoned")) h'') ∧
      ∀ ptr, (deallocate ptr).run h'' = .error (.error (.other "the allocator has been poisoned")) h'' := by
  have hpoisoned : h''.allocator.poisoned = true := by
    refine Reachable.invariant (I := fun h => h.allocator.poisoned = true) ?_ ?_ hrun
    · rintro _ rfl
      exact hp
    · intro c s s' hs hc
      exact poisoned_of_leaves c hs hc
  exact ⟨allocate_of_poisoned hpoisoned, deallocate_of_poisoned hpoisoned⟩

end Poison

/-! ## A forged header -/

def zeroMemory : Memory := ⟨List.replicate 32 0⟩

/-- The runtime allocates 8 bytes at 8, writes an occupied header of order 0
at 24, the last 8 bytes of the memory, and frees the pointer 32 after it:
the block of 8 bytes at 32 joins the free list, past the end of the memory. -/
def forgedHeaderTrace : List Command :=
  [.allocate 8, .write 24 [0, 0, 0, 0, 1, 0, 0, 0], .deallocate 32]

/-- `new` rounds `heap_base` up in `u32` arithmetic: from `2^32 - 7` on, the
sum wraps and the heap starts at 0, below `heap_base`. -/
theorem new_bumper_of_wrap {heapBase : ℕ} (hlo : 2 ^ 32 - (alignment - 1) ≤ heapBase)
    (hhi : heapBase < 2 ^ 32) : (FreeingBumpHeapAllocator.new heapBase).bumper = 0 := by
  have hwrap : wrappingAdd 32 heapBase (alignment - 1) < alignment := by
    unfold wrappingAdd alignment at *
    omega
  simp [FreeingBumpHeapAllocator.new, Nat.div_eq_of_lt hwrap]

/-- The next allocation of 8 bytes pops the forged block and fails the
assertion: `24 + 8 + 8` is past the 32 bytes of the memory. -/
theorem allocate_panics_on_forged_header :
    ∃ h h', Reachable Heap.apply (· = Heap.init 0 zeroMemory) h ∧ (allocate 8).run h = .error .panic h' := by
  have hrun : (execute Heap.apply forgedHeaderTrace (Heap.init 0 zeroMemory)).map
      (fun h => panics ((allocate 8).run h)) = some true := by
    decide
  exact Reachable.exists_panic_of_execute (allocate 8) rfl hrun

end SocialNetwork.Allocator
