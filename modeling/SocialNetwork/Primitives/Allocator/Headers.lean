import SocialNetwork.Primitives.Allocator.FreeingBump
import SocialNetwork.Lib.Window

/-!
# Headers in the memory

The allocator keeps its headers in the memory it hands out, eight bytes
little-endian before each block. A header reads back as it was written, as
long as a link in it is below `NIL_MARKER` (`readFrom_writeInto_occupied`,
`readFrom_writeInto_free`). A header also reads the same after a write of
eight bytes elsewhere, after a write of the runtime elsewhere, and after the
memory grows (`readLeU64_writeLeU64_of_disjoint`, `readLeU64_write_of_disjoint`,
`readLeU64_grow`).

An order's size is a power of two from `8` to `2^24`. `Order::from_size`
takes the least one at or above the size asked for (`fromSize_ok`), and fails
only on a size above `2^24` (`fromSize_error`).
-/

namespace SocialNetwork.Allocator

open Unsigned

/-! ## Little-endian bytes -/

@[simp] theorem length_toLeBytes (val : ℕ) : (toLeBytes val).length = 8 := by
  simp [toLeBytes]

theorem fromLeBytes_range (k : ℕ) : ∀ val : ℕ,
    fromLeBytes ((List.range k).map fun i => UInt8.ofNat (val / 256 ^ i)) = val % 256 ^ k := by
  induction k with
  | zero =>
    intro val
    simp [fromLeBytes, Nat.mod_one]
  | succ k ih =>
    intro val
    have hshift : ∀ i, val / 256 ^ (i + 1) = val / 256 / 256 ^ i := fun i => by
      rw [Nat.div_div_eq_div_mul, pow_succ']
    simp only [List.range_succ_eq_map, List.map_cons, List.map_map, Function.comp_def,
      Nat.succ_eq_add_one, hshift]
    rw [fromLeBytes, List.foldr_cons, ← fromLeBytes, ih, pow_succ', Nat.mod_mul]
    simp

theorem fromLeBytes_toLeBytes (val : ℕ) : fromLeBytes (toLeBytes val) = val % 2 ^ 64 := by
  rw [toLeBytes, fromLeBytes_range]
  norm_num

/-! ## Reads and writes of eight bytes -/

theorem heapRange_eq (offset length heapLen : ℕ) :
    heapRange offset length heapLen =
      if offset + length ≤ maxValue 32 ∧ offset + length ≤ heapLen then some (offset, offset + length)
      else none := by
  unfold heapRange checkedAdd
  by_cases h₁ : offset + length ≤ maxValue 32 <;> by_cases h₂ : offset + length ≤ heapLen <;>
    simp [h₁, h₂]

namespace Memory

variable (m : Memory) (ptr : ℕ)

theorem readLeU64_eq :
    m.readLeU64 ptr =
      if ptr + 8 ≤ maxValue 32 ∧ ptr + 8 ≤ m.bytes.length then .ok (fromLeBytes (Window.read m.bytes ptr 8))
      else .error (.other "read out of heap bounds") := by
  unfold readLeU64
  rw [heapRange_eq]
  split_ifs <;> simp [Window.read]

theorem writeLeU64_eq (val : ℕ) :
    m.writeLeU64 ptr val =
      if ptr + 8 ≤ maxValue 32 ∧ ptr + 8 ≤ m.bytes.length then .ok ⟨Window.overwrite m.bytes ptr (toLeBytes val)⟩
      else .error (.other "write out of heap bounds") := by
  unfold writeLeU64
  rw [heapRange_eq]
  split_ifs <;> simp [Window.overwrite]

variable {m ptr} {m' : Memory} {val : ℕ}

/-- A write of eight bytes that succeeds lies within the memory and keeps its
length. -/
theorem writeLeU64_ok (hw : m.writeLeU64 ptr val = .ok m') :
    ptr + 8 ≤ maxValue 32 ∧ ptr + 8 ≤ m.bytes.length ∧ m' = ⟨Window.overwrite m.bytes ptr (toLeBytes val)⟩ := by
  rw [writeLeU64_eq] at hw
  split_ifs at hw with hrange
  · cases hw
    exact ⟨hrange.1, hrange.2, rfl⟩

theorem length_of_writeLeU64 (hw : m.writeLeU64 ptr val = .ok m') : m'.bytes.length = m.bytes.length := by
  obtain ⟨-, hfit, rfl⟩ := writeLeU64_ok hw
  exact Window.length_overwrite (by simpa using hfit)

theorem readLeU64_writeLeU64_self (hw : m.writeLeU64 ptr val = .ok m') :
    m'.readLeU64 ptr = .ok (val % 2 ^ 64) := by
  have hlen := length_of_writeLeU64 hw
  obtain ⟨hmax, hfit, rfl⟩ := writeLeU64_ok hw
  rw [readLeU64_eq, if_pos ⟨hmax, by simpa [hlen] using hfit⟩]
  have hread : Window.read (Window.overwrite m.bytes ptr (toLeBytes val)) ptr (toLeBytes val).length =
      toLeBytes val := Window.read_overwrite_self (show ptr ≤ m.bytes.length by omega)
  rw [length_toLeBytes] at hread
  rw [hread, fromLeBytes_toLeBytes]

theorem readLeU64_writeLeU64_of_disjoint (hw : m.writeLeU64 ptr val = .ok m') {q : ℕ}
    (hd : q + 8 ≤ ptr ∨ ptr + 8 ≤ q) : m'.readLeU64 q = m.readLeU64 q := by
  have hlen := length_of_writeLeU64 hw
  obtain ⟨-, hfit, rfl⟩ := writeLeU64_ok hw
  rw [readLeU64_eq, readLeU64_eq, hlen, Window.read_overwrite_of_disjoint (by omega) (by simpa using hd)]

theorem write_eq (bytes : List UInt8) :
    m.write ptr bytes =
      if ptr + bytes.length ≤ m.bytes.length then ⟨Window.overwrite m.bytes ptr bytes⟩ else m := rfl

theorem length_write (bytes : List UInt8) : (m.write ptr bytes).bytes.length = m.bytes.length := by
  rw [write_eq]
  split_ifs with h
  · exact Window.length_overwrite h
  · rfl

theorem readLeU64_write_of_disjoint (bytes : List UInt8) {q : ℕ}
    (hd : q + 8 ≤ ptr ∨ ptr + bytes.length ≤ q) : (m.write ptr bytes).readLeU64 q = m.readLeU64 q := by
  rw [write_eq]
  split_ifs with hin
  · rw [readLeU64_eq, readLeU64_eq, Window.length_overwrite hin,
      Window.read_overwrite_of_disjoint (by omega) hd]
  · rfl

theorem readLeU64_grow (r : List UInt8) {q : ℕ} (hq : q + 8 ≤ m.bytes.length) :
    (⟨m.bytes ++ r⟩ : Memory).readLeU64 q = m.readLeU64 q := by
  rw [readLeU64_eq, readLeU64_eq, Window.read_append_of_le hq]
  simp only [List.length_append]
  split_ifs with h₁ h₂ h₂ <;> first | rfl | omega

end Memory

/-! ## Headers -/

theorem Header.readFrom_congr {m m' : Memory} {q : ℕ} (h : m'.readLeU64 q = m.readLeU64 q) :
    Header.readFrom m' q = Header.readFrom m q := by
  simp only [Header.readFrom, h]

variable {m m' : Memory} {ptr : ℕ}

theorem Header.readFrom_of_readLeU64 {raw : ℕ} (h : m.readLeU64 ptr = .ok raw) :
    Header.readFrom m ptr =
      if raw &&& 0x100000000 ≠ 0 then .occupied <$> Order.fromRaw (raw % 2 ^ 32)
      else .ok (.free (Link.fromRaw (raw % 2 ^ 32))) := by
  rw [Header.readFrom, h]
  rfl

theorem Order.fromRaw_raw (o : Order) : Order.fromRaw o.raw = .ok o := by
  simp [Order.fromRaw, o.lt]

theorem readFrom_writeInto_occupied {o : Order} (hw : (Header.occupied o).writeInto m ptr = .ok m') :
    Header.readFrom m' ptr = .ok (.occupied o) := by
  have hraw : o.raw < 2 ^ 32 := lt_trans o.lt (by decide)
  have hval : o.raw ||| 0x100000000 = o.raw + 2 ^ 32 := Nat.or_two_pow_eq_add_of_lt hraw
  simp only [Header.writeInto, hval] at hw
  have hmod : (o.raw + 2 ^ 32) % 2 ^ 64 = o.raw + 2 ^ 32 := Nat.mod_eq_of_lt (by omega)
  have hbit : (o.raw + 2 ^ 32) &&& 0x100000000 ≠ 0 := by
    rw [show (0x100000000 : ℕ) = 2 ^ 32 from rfl, Nat.and_two_pow, Nat.testBit_eq_decide_div_mod_eq,
      Nat.add_div_right _ (by positivity), Nat.div_eq_of_lt hraw]
    decide
  have hlow : (o.raw + 2 ^ 32) % 2 ^ 32 = o.raw := by
    rw [Nat.add_mod_right, Nat.mod_eq_of_lt hraw]
  rw [Header.readFrom_of_readLeU64 (Memory.readLeU64_writeLeU64_self hw), hmod, if_pos hbit, hlow,
    Order.fromRaw_raw]
  rfl

/-- A free header reads back with its link, a link to a header below
`NIL_MARKER`. -/
theorem readFrom_writeInto_free {link : Link} (hlink : ∀ q, link = .ptr q → q < nilMarker)
    (hw : (Header.free link).writeInto m ptr = .ok m') : Header.readFrom m' ptr = .ok (.free link) := by
  have hraw : link.intoRaw < 2 ^ 32 := by
    cases link with
    | nil => decide
    | ptr q => exact lt_trans (hlink q rfl) (by decide)
  simp only [Header.writeInto, Nat.or_zero] at hw
  have hmod : link.intoRaw % 2 ^ 64 = link.intoRaw := Nat.mod_eq_of_lt (by omega)
  have hbit : link.intoRaw &&& 0x100000000 = 0 := by
    rw [show (0x100000000 : ℕ) = 2 ^ 32 from rfl, Nat.and_two_pow, Nat.testBit_lt_two_pow hraw]
    rfl
  have hback : Link.fromRaw (link.intoRaw % 2 ^ 32) = link := by
    rw [Nat.mod_eq_of_lt hraw]
    cases link with
    | nil => rfl
    | ptr q => simp [Link.fromRaw, Link.intoRaw, (hlink q rfl).ne]
  rw [Header.readFrom_of_readLeU64 (Memory.readLeU64_writeLeU64_self hw), hmod, if_neg (not_not.mpr hbit),
    hback]

namespace Header

variable {header : Header}

theorem writeInto_eq (header : Header) (m : Memory) (ptr : ℕ) :
    ∃ val, header.writeInto m ptr = m.writeLeU64 ptr val := by
  cases header <;> exact ⟨_, rfl⟩

theorem length_writeInto (hw : header.writeInto m ptr = .ok m') : m'.bytes.length = m.bytes.length := by
  obtain ⟨val, heq⟩ := writeInto_eq header m ptr
  exact Memory.length_of_writeLeU64 (heq ▸ hw)

theorem readLeU64_writeInto_of_disjoint (hw : header.writeInto m ptr = .ok m') {q : ℕ}
    (hd : q + 8 ≤ ptr ∨ ptr + 8 ≤ q) : m'.readLeU64 q = m.readLeU64 q := by
  obtain ⟨val, heq⟩ := writeInto_eq header m ptr
  exact Memory.readLeU64_writeLeU64_of_disjoint (heq ▸ hw) hd

theorem writeInto_ok_of_le (header : Header) (hmax : ptr + 8 ≤ maxValue 32) (hlen : ptr + 8 ≤ m.bytes.length) :
    ∃ m', header.writeInto m ptr = .ok m' := by
  obtain ⟨val, heq⟩ := writeInto_eq header m ptr
  rw [heq, Memory.writeLeU64_eq, if_pos ⟨hmax, hlen⟩]
  exact ⟨_, rfl⟩

end Header

/-! ## Orders -/

namespace Order

theorem size_eq (o : Order) : o.size = 2 ^ (o.raw + 3) := by
  rw [size, Nat.shiftLeft_eq, pow_add, Nat.mul_comm]
  rfl

theorem size_le (o : Order) : o.size ≤ maxPossibleAllocation := by
  rw [size_eq]
  have hraw : o.raw + 3 ≤ 24 := by
    have := o.lt
    unfold nOrders at this
    omega
  exact (Nat.pow_le_pow_right (by norm_num) hraw).trans (by decide)

theorem eight_dvd_size (o : Order) : 8 ∣ o.size := by
  rw [size_eq, pow_add]
  exact Dvd.intro_left _ rfl

theorem eight_le_size (o : Order) : 8 ≤ o.size := by
  rw [size_eq, pow_add]
  exact Nat.le_mul_of_pos_left 8 (by positivity)

end Order

/-- `next_power_of_two` of a size up to `2^31`: a power of two at or above
it, the least one. -/
theorem nextPowerOfTwo_spec {n : ℕ} (h : n ≤ 2 ^ 31) :
    ∃ k < 32, nextPowerOfTwo n = 2 ^ k ∧ n ≤ 2 ^ k ∧ ∀ j < k, 2 ^ j < n := by
  have hsome : ((List.range 32).find? fun k => decide (n ≤ 2 ^ k)).isSome := by
    rw [List.find?_isSome]
    exact ⟨31, by simp, by simpa using h⟩
  obtain ⟨k, hk⟩ := Option.isSome_iff_exists.mp hsome
  obtain ⟨hnk, hmem, hbefore⟩ := List.find?_range_eq_some.mp hk
  refine ⟨k, List.mem_range.mp hmem, by simp [nextPowerOfTwo, hk], by simpa using hnk, fun j hj => ?_⟩
  simpa using hbefore j hj

/-- The power of two that `from_size` rounds a size of at most `2^24` to:
`2^k` with `3 ≤ k ≤ 24`, at or above both the size and `8`. -/
theorem nextPowerOfTwo_clamped {size : ℕ} (hmax : size ≤ maxPossibleAllocation) :
    ∃ k, 3 ≤ k ∧ k ≤ 24 ∧
      nextPowerOfTwo (if size < minPossibleAllocation then minPossibleAllocation else size) = 2 ^ k ∧
      max size minPossibleAllocation ≤ 2 ^ k := by
  have hclamp : (if size < minPossibleAllocation then minPossibleAllocation else size) =
      max size minPossibleAllocation := by
    unfold minPossibleAllocation
    split_ifs <;> omega
  have hhi : max size minPossibleAllocation ≤ 2 ^ 24 := max_le hmax (by decide)
  have hlo : 8 ≤ max size minPossibleAllocation := le_max_right _ _
  rw [hclamp]
  obtain ⟨k, -, hpow, hle, hleast⟩ := nextPowerOfTwo_spec (hhi.trans (by decide))
  have hk3 : 3 ≤ k := by
    by_contra hlt
    have : 2 ^ k ≤ 2 ^ 2 := Nat.pow_le_pow_right (by norm_num) (by omega)
    omega
  have hk24 : k ≤ 24 := by
    by_contra hgt
    have := hleast 24 (by omega)
    omega
  exact ⟨k, hk3, hk24, hpow, hle⟩

/-- The order `from_size` computes for a size of at most `2^24`, before its
check against `N_ORDERS`. -/
theorem fromSize_of_le {size : ℕ} (hmax : size ≤ maxPossibleAllocation) :
    ∃ k, 3 ≤ k ∧ k ≤ 24 ∧ max size minPossibleAllocation ≤ 2 ^ k ∧
      Order.fromSize size =
        if h : k - 3 < nOrders then .ok ⟨k - 3, h⟩ else .error (.other "invalid order") := by
  obtain ⟨k, hk3, hk24, hpow, hle⟩ := nextPowerOfTwo_clamped hmax
  have htz : trailingZeros (2 ^ k) = k := trailingZeros_two_pow (show k < 32 by omega)
  have htz8 : trailingZeros minPossibleAllocation = 3 := trailingZeros_two_pow (k := 3) (by norm_num)
  refine ⟨k, hk3, hk24, hle, ?_⟩
  unfold Order.fromSize
  rw [if_neg (not_lt.mpr hmax)]
  simp only [hpow, htz, htz8]

/-- `Order::from_size` of a size up to `2^24` is the order of the least power of
two at or above both the size and `8`. -/
theorem fromSize_ok {size : ℕ} {o : Order} (h : Order.fromSize size = .ok o) :
    size ≤ maxPossibleAllocation ∧ max size minPossibleAllocation ≤ o.size := by
  by_cases hmax : maxPossibleAllocation < size
  · simp [Order.fromSize, hmax] at h
  obtain ⟨k, hk3, hk24, hle, heq⟩ := fromSize_of_le (not_lt.mp hmax)
  rw [heq, dif_pos (show k - 3 < nOrders by unfold nOrders; omega)] at h
  cases h
  refine ⟨not_lt.mp hmax, ?_⟩
  simpa only [Order.size_eq, Nat.sub_add_cancel hk3] using hle

/-- `Order::from_size` fails only on a size above `2^24`: the order of a
clamped size is always below `N_ORDERS`. -/
theorem fromSize_error {size : ℕ} {e : Error} (h : Order.fromSize size = .error e) :
    e = .requestedAllocationTooLarge ∧ maxPossibleAllocation < size := by
  by_cases hmax : maxPossibleAllocation < size
  · simp only [Order.fromSize, hmax, if_true, Except.error.injEq] at h
    exact ⟨h.symm, hmax⟩
  obtain ⟨k, hk3, hk24, -, heq⟩ := fromSize_of_le (not_lt.mp hmax)
  rw [heq, dif_pos (show k - 3 < nOrders by unfold nOrders; omega)] at h
  cases h

end SocialNetwork.Allocator
