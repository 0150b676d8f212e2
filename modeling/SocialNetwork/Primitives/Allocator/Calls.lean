import SocialNetwork.Primitives.Allocator.Headers

/-!
# What `allocate` and `deallocate` do

One equation for each way the two calls end on a memory below `2^32` bytes.
`allocate` fails on a size above `2^24` (`run_allocateInner_of_fromSize_error`),
pops the head of its order's free list (`run_allocateInner_pop`), or bumps the
bumper (`run_allocateInner_bump`) unless that would pass the end of the
memory (`run_allocateInner_outOfSpace`). `deallocate` pushes the block onto
its order's free list (`run_deallocateInner`). Under the poison bomb an `Err`
also poisons the allocator (`run_poisonBomb_error`).
-/

namespace SocialNetwork.Allocator

open Dispatch Unsigned

variable {α : Type} {m : HeapCall α} {s s' : Heap} {a : α}

def Heap.poison (s : Heap) : Heap := { s with allocator := { s.allocator with poisoned := true } }

theorem run_poisonBomb_ok (h : m.run s = .ok a s') : (poisonBomb m).run s = .ok a s' := by
  simp only [poisonBomb, EStateM.run] at h ⊢
  rw [h]

theorem run_poisonBomb_error {e : Error} (h : m.run s = .error (.error e) s') :
    (poisonBomb m).run s = .error (.error e) s'.poison := by
  simp only [poisonBomb, EStateM.run] at h ⊢
  rw [h]
  rfl

theorem run_allocate (hp : s.allocator.poisoned = false) (size : ℕ) :
    (allocate size).run s = (poisonBomb (allocateInner size)).run s := by
  simp [allocate, hp]

theorem run_deallocate (hp : s.allocator.poisoned = false) (ptr : ℕ) :
    (deallocate ptr).run s = (poisonBomb (deallocateInner ptr)).run s := by
  simp [deallocate, hp]

section Allocate

variable {size : ℕ} {o : Order}

theorem run_allocateInner_of_fromSize_error {e : Error} (hsize : Order.fromSize size = .error e) :
    (allocateInner size).run s = .error (.error e) s := by
  simp [allocateInner, hsize, Dispatch.ofExcept]

variable (hsize : Order.fromSize size = .ok o) (hmem : s.memory.bytes.length < 2 ^ 32)
include hsize hmem

theorem run_allocateInner_pop {p : ℕ} {next : Link} {memory : Memory}
    (hlist : s.allocator.freeLists o = .ptr p) (hfit : p + o.size + headerSize ≤ s.memory.bytes.length)
    (hread : Header.readFrom s.memory p = .ok (.free next))
    (hwrite : (Header.occupied o).writeInto s.memory p = .ok memory) :
    (allocateInner size).run s =
      .ok (wrappingAdd 32 p headerSize)
        ⟨{ s.allocator with
            freeLists := Function.update s.allocator.freeLists o next
            totalSize := wrappingAdd 32 s.allocator.totalSize (wrappingAdd 32 o.size headerSize) },
          memory⟩ := by
  have hmem' : s.memory.bytes.length < 4294967296 := hmem
  have hassert : ¬ s.memory.bytes.length < wrappingAdd 32 (wrappingAdd 32 p o.size) headerSize := by
    unfold wrappingAdd
    rw [Nat.mod_add_mod, Nat.mod_eq_of_lt (by omega)]
    omega
  simp [allocateInner, hsize, Dispatch.ofExcept, Memory.size, hmem', hlist, hassert, hread,
    Header.intoFree, setAllocator, hwrite]

theorem run_allocateInner_outOfSpace (hlist : s.allocator.freeLists o = .nil)
    (hout : s.memory.bytes.length < wrappingAdd 32 s.allocator.bumper (wrappingAdd 32 o.size headerSize)) :
    (allocateInner size).run s = .error (.error .allocatorOutOfSpace) s := by
  have hmem' : s.memory.bytes.length < 4294967296 := hmem
  simp [allocateInner, hsize, Dispatch.ofExcept, Memory.size, hmem', hlist, bump, hout]

theorem run_allocateInner_bump {memory : Memory} (hlist : s.allocator.freeLists o = .nil)
    (hfit : wrappingAdd 32 s.allocator.bumper (wrappingAdd 32 o.size headerSize) ≤ s.memory.bytes.length)
    (hwrite : (Header.occupied o).writeInto s.memory s.allocator.bumper = .ok memory) :
    (allocateInner size).run s =
      .ok (wrappingAdd 32 s.allocator.bumper headerSize)
        ⟨{ s.allocator with
            bumper := wrappingAdd 32 s.allocator.bumper (wrappingAdd 32 o.size headerSize)
            totalSize := wrappingAdd 32 s.allocator.totalSize (wrappingAdd 32 o.size headerSize) },
          memory⟩ := by
  have hmem' : s.memory.bytes.length < 4294967296 := hmem
  simp [allocateInner, hsize, Dispatch.ofExcept, Memory.size, hmem', hlist, bump, not_lt.mpr hfit,
    setAllocator, hwrite]

end Allocate

/-- `deallocate` of a pointer after an occupied header: the block joins its
order's free list. -/
theorem run_deallocateInner {ptr : ℕ} {o : Order} {memory : Memory} (hptr : headerSize ≤ ptr)
    (hread : Header.readFrom s.memory (ptr - headerSize) = .ok (.occupied o))
    (hwrite : (Header.free (s.allocator.freeLists o)).writeInto s.memory (ptr - headerSize) = .ok memory)
    (htotal : wrappingAdd 32 o.size headerSize ≤ s.allocator.totalSize) :
    (deallocateInner ptr).run s =
      .ok ()
        ⟨{ s.allocator with
            freeLists := Function.update s.allocator.freeLists o (.ptr (ptr - headerSize))
            totalSize := s.allocator.totalSize - wrappingAdd 32 o.size headerSize },
          memory⟩ := by
  simp [deallocateInner, checkedSub, hptr, Dispatch.ofExcept, hread, Header.intoOccupied, setAllocator, hwrite,
    htotal]

end SocialNetwork.Allocator
