import Mathlib
import SocialNetwork.Lib.Dispatch

/-!
# The trie node codec

A node starts with a header: the empty node is the byte `EMPTY_TRIE`, a
leaf or a branch the two bits of its kind and its number of nibbles, six
bits of it in the first byte and, from 63 on, a run of 255s closed by a byte
below 255 (`size_and_prefix_iterator`, `decode_size`). The header reads back
as it was written, wherever it stands in the input (`decode_encode_header`).

`decode_plan` reads a node through `ByteSliceInput`, a cursor whose reads
fail with "out of data" past the end. For an odd number of nibbles it checks
the padding nibble of the partial key, which it reads as `data[offset]`,
by index, before the partial key is taken: when the header is the last byte
of the input, the index is past the end and `decode_plan` panics.
-/

namespace SocialNetwork.Trie

open Dispatch

/-! ## The header -/

/-- `trie_constants::EMPTY_TRIE`. -/
def emptyTrie : UInt8 := 0

/-- `trie_constants::LEAF_PREFIX_MASK`. -/
def leafPrefixMask : UInt8 := (0b01 : UInt8) <<< 6

/-- `trie_constants::BRANCH_WITHOUT_MASK`. -/
def branchWithoutMask : UInt8 := (0b10 : UInt8) <<< 6

/-- `trie_constants::BRANCH_WITH_MASK`. -/
def branchWithMask : UInt8 := (0b11 : UInt8) <<< 6

/-- `trie_constants::NIBBLE_SIZE_BOUND`, `u16::max_value()`. -/
def nibbleSizeBound : ℕ := 65535

/-- `NodeHeader`. -/
inductive NodeHeader where
  | null
  | branch (hasValue : Bool) (nibbleCount : ℕ)
  | leaf (nibbleCount : ℕ)
  deriving DecidableEq, Repr

/-- The bytes `size_and_prefix_iterator` yields after the first: a 255 for
each run of 255, then what is left less one. -/
def sizeRest (rem : ℕ) : List UInt8 :=
  if rem = 0 then []
  else if rem < 256 then [UInt8.ofNat (rem - 1)]
  else 255 :: sizeRest (rem - 255)
termination_by rem

/-- `size_and_prefix_iterator`, bounded to `NIBBLE_SIZE_BOUND`. -/
def sizeAndPrefixIterator (size : ℕ) (pfx : UInt8) : List UInt8 :=
  let size := min nibbleSizeBound size
  let l1 := min 62 size
  if size = l1 then [pfx + UInt8.ofNat l1]
  else (pfx + 63) :: sizeRest (size - l1)

/-- `Encode for NodeHeader`. -/
def NodeHeader.encode : NodeHeader → List UInt8
  | .null => [emptyTrie]
  | .branch true nibbleCount => sizeAndPrefixIterator nibbleCount branchWithMask
  | .branch false nibbleCount => sizeAndPrefixIterator nibbleCount branchWithoutMask
  | .leaf nibbleCount => sizeAndPrefixIterator nibbleCount leafPrefixMask

/-! ## The input -/

/-- `codec::Error`, by its description. -/
abbrev CodecError := String

/-- `ByteSliceInput`: the node's bytes and the position of the cursor. -/
structure ByteSliceInput where
  data : List UInt8
  offset : ℕ
  deriving DecidableEq, Repr

abbrev InputCall (ε α : Type) := Call ε ByteSliceInput α

/-- `ByteSliceInput::take`: the range of the next `count` bytes. -/
def take (count : ℕ) : InputCall CodecError (ℕ × ℕ) := do
  let input ← get
  if input.data.length < input.offset + count then fail "out of data" else
  set { input with offset := input.offset + count }
  pure (input.offset, input.offset + count)

/-- `ByteSliceInput::read_byte`. -/
def readByte : InputCall CodecError UInt8 := do
  let input ← get
  if h : input.data.length < input.offset + 1 then fail "out of data" else
  set { input with offset := input.offset + 1 }
  pure (input.data.get ⟨input.offset, by omega⟩)

/-- `data[i]`: an index, which panics past the end. -/
def index {ε : Type} (data : List UInt8) (i : ℕ) : InputCall ε UInt8 := unwrap data[i]?

def decodeSizeLoop (result : ℕ) : InputCall CodecError ℕ :=
  if result ≤ nibbleSizeBound then do
    let n := (← readByte).toNat
    if n < 255 then pure (result + n + 1) else decodeSizeLoop (result + 255)
  else pure nibbleSizeBound
termination_by nibbleSizeBound + 1 - result

/-- `decode_size`: the six bits of the first byte, or, when they are all
set, the runs after it. -/
def decodeSize (first : UInt8) : InputCall CodecError ℕ :=
  let result := (first &&& ((255 : UInt8) >>> 2)).toNat
  if result < 63 then pure result else decodeSizeLoop (result - 1)

/-- `Decode for NodeHeader`. -/
def NodeHeader.decode : InputCall CodecError NodeHeader := do
  let i ← readByte
  if i = emptyTrie then pure .null else
  let kind := i &&& ((0b11 : UInt8) <<< 6)
  if kind = leafPrefixMask then pure (.leaf (← decodeSize i))
  else if kind = branchWithoutMask then pure (.branch false (← decodeSize i))
  else if kind = branchWithMask then pure (.branch true (← decodeSize i))
  -- do not allow any special encoding
  else fail "Unallowed encoding"

/-! ## `decode_plan` -/

/-- `trie_db::node::NibbleSlicePlan`: the range of the partial key's bytes
and the nibbles to skip at its start. -/
structure NibbleSlicePlan where
  bytes : ℕ × ℕ
  offset : ℕ
  deriving DecidableEq, Repr

/-- `trie_db::node::NodeHandlePlan`. -/
inductive NodeHandlePlan where
  | hash (range : ℕ × ℕ)
  | inline (range : ℕ × ℕ)
  deriving DecidableEq, Repr

/-- `trie_db::node::NodePlan`, the kinds this codec decodes. -/
inductive NodePlan where
  | empty
  | leaf (partialKey : NibbleSlicePlan) (value : ℕ × ℕ)
  | nibbledBranch (partialKey : NibbleSlicePlan) (value : Option (ℕ × ℕ))
      (children : List (Option NodeHandlePlan))
  deriving DecidableEq, Repr

/-- The trie's `Error`. -/
inductive Error where
  | badFormat
  | decode (e : CodecError)
  deriving DecidableEq, Repr

section Plan

/- `decode_plan` goes through code of trie-db beside the codec's own:
`nibble_ops::pad_left` (`padLeft`), `Bitmap::decode` of the bitmap's two bytes
(`bitmapDecode`) and `Bitmap::value_at` (`bitmapValueAt`). They are taken as
they are given, with no property assumed of them. -/
variable (padLeft : UInt8 → UInt8) (bitmapDecode : UInt8 → UInt8 → ℕ) (bitmapValueAt : ℕ → ℕ → Bool)

/-- The check of the padding and the partial key, alike in the leaf and
the branch arms of `decode_plan`. -/
def decodePartial (data : List UInt8) (nibbleCount : ℕ) : InputCall Error NibbleSlicePlan := do
  let padding := nibbleCount % 2 ≠ 0
  -- check that the padding is valid (if any)
  if padding then
    let byte ← index data (← get).offset
    if padLeft byte ≠ 0 then fail .badFormat
  let partialRange ← mapError .decode (take ((nibbleCount + (2 - 1)) / 2))
  pure ⟨partialRange, nibbleCount % 2⟩

variable (compact : InputCall CodecError ℕ) (hashLength : ℕ)

/-- Child `i` of a branch, when the bitmap has it: a hash when it is as long
as one, inline data otherwise. -/
def decodeChild (bitmap i : ℕ) : InputCall Error (Option NodeHandlePlan) := do
  if bitmapValueAt bitmap i then
    let count ← mapError .decode compact
    let range ← mapError .decode (take count)
    pure (some (if count = hashLength then .hash range else .inline range))
  else pure none

/-- `NodeCodec::decode_plan`, reading from the cursor over `data`.
`Compact<u32>::decode` is `compact`, the hasher's `LENGTH` is `hashLength`. -/
def decodePlan (data : List UInt8) : InputCall Error NodePlan := do
  match ← mapError .decode NodeHeader.decode with
  | .null => pure .empty
  | .branch hasValue nibbleCount =>
    let partialKey ← decodePartial padLeft data nibbleCount
    let bitmapRange ← mapError .decode (take 2)
    let bitmap := bitmapDecode (← index data bitmapRange.1) (← index data (bitmapRange.1 + 1))
    let value ← if hasValue then do
        let count ← mapError .decode compact
        pure (some (← mapError .decode (take count)))
      else pure none
    let children ← (List.range 16).mapM (decodeChild bitmapValueAt compact hashLength bitmap)
    pure (.nibbledBranch partialKey value children)
  | .leaf nibbleCount =>
    let partialKey ← decodePartial padLeft data nibbleCount
    let count ← mapError .decode compact
    pure (.leaf partialKey (← mapError .decode (take count)))

end Plan

/-! ## The header reads back -/

theorem run_readByte {data rest : List UInt8} {o : ℕ} {b : UInt8} (h : data.drop o = b :: rest) :
    readByte.run ⟨data, o⟩ = .ok b ⟨data, o + 1⟩ := by
  have ho : o < data.length := by
    by_contra hle
    rw [List.drop_eq_nil_of_le (by omega)] at h
    cases h
  rw [List.drop_eq_getElem_cons ho, List.cons.injEq] at h
  simp [readByte, Nat.not_le.2 ho, ← h.1]

theorem sizeRest_of_lt {rem : ℕ} (h0 : 0 < rem) (h : rem < 256) : sizeRest rem = [UInt8.ofNat (rem - 1)] := by
  rw [sizeRest, if_neg (by omega), if_pos h]

theorem sizeRest_of_le {rem : ℕ} (h : 256 ≤ rem) : sizeRest rem = 255 :: sizeRest (rem - 255) := by
  rw [sizeRest, if_neg (by omega), if_neg (by omega)]

theorem run_decodeSizeLoop (rem : ℕ) : ∀ (result : ℕ) {data rest : List UInt8} {o : ℕ}, 0 < rem →
    result + rem ≤ nibbleSizeBound → data.drop o = sizeRest rem ++ rest →
    (decodeSizeLoop result).run ⟨data, o⟩ = .ok (result + rem) ⟨data, o + (sizeRest rem).length⟩ := by
  induction rem using Nat.strong_induction_on with
  | _ rem ih =>
    intro result data rest o h0 hbound hd
    rw [decodeSizeLoop, if_pos (by omega)]
    by_cases hlt : rem < 256
    · -- the last byte, `rem - 1`
      rw [sizeRest_of_lt h0 hlt] at hd ⊢
      rw [run_bind_ok (run_readByte hd), UInt8.toNat_ofNat_of_lt' (by rw [UInt8.size]; omega), if_pos (by omega), List.length_singleton,
        show result + (rem - 1) + 1 = result + rem by omega]
      rfl
    · -- a run of 255, and the rest after it
      rw [sizeRest_of_le (by omega)] at hd ⊢
      have hrest : data.drop (o + 1) = sizeRest (rem - 255) ++ rest := by
        rw [← List.drop_drop, hd]
        rfl
      rw [run_bind_ok (run_readByte hd)]
      simp only [show (255 : UInt8).toNat = 255 from rfl, Nat.lt_irrefl, if_false]
      rw [ih (rem - 255) (by omega) (result + 255) (by omega) (by omega) hrest, List.length_cons,
        show result + 255 + (rem - 255) = result + rem by omega,
        show o + 1 + (sizeRest (rem - 255)).length = o + ((sizeRest (rem - 255)).length + 1) by omega]

set_option maxRecDepth 8000 in
/-- The first byte of a header: the kind in the two high bits, and in the
six low ones the size up to 62, or 63 for more. -/
theorem firstByte_spec : ∀ pfx ∈ [leafPrefixMask, branchWithoutMask, branchWithMask], ∀ s < 64,
    (pfx + UInt8.ofNat s) &&& ((255 : UInt8) >>> 2) = UInt8.ofNat s ∧
      (pfx + UInt8.ofNat s) &&& ((0b11 : UInt8) <<< 6) = pfx ∧ pfx + UInt8.ofNat s ≠ emptyTrie := by
  decide

/-- A size written by `size_and_prefix_iterator` is read back by
`decode_size` from its first byte on, bounded as it was written. -/
theorem run_decodeSize (pfx : UInt8) (hpfx : pfx ∈ [leafPrefixMask, branchWithoutMask, branchWithMask])
    (size : ℕ) {data rest : List UInt8} {o : ℕ} (hd : data.drop o = sizeAndPrefixIterator size pfx ++ rest) :
    ∃ i, readByte.run ⟨data, o⟩ = .ok i ⟨data, o + 1⟩ ∧ i ≠ emptyTrie ∧
      i &&& ((0b11 : UInt8) <<< 6) = pfx ∧
      (decodeSize i).run ⟨data, o + 1⟩ =
        .ok (min nibbleSizeBound size) ⟨data, o + (sizeAndPrefixIterator size pfx).length⟩ := by
  unfold sizeAndPrefixIterator at hd ⊢
  by_cases hs : min nibbleSizeBound size ≤ 62
  · -- the size fits in the first byte
    have hl1 : min 62 (min nibbleSizeBound size) = min nibbleSizeBound size := Nat.min_eq_right hs
    simp only [hl1, if_true, List.singleton_append] at hd ⊢
    obtain ⟨hlow, hkind, hne⟩ := firstByte_spec pfx hpfx _ (by omega : min nibbleSizeBound size < 64)
    refine ⟨_, run_readByte hd, hne, hkind, ?_⟩
    rw [decodeSize, hlow, UInt8.toNat_ofNat_of_lt' (by rw [UInt8.size]; omega), if_pos (by omega)]
    rfl
  · -- 63 in the first byte, the runs after it
    have hl1 : min 62 (min nibbleSizeBound size) = 62 := Nat.min_eq_left (by omega)
    simp only [hl1, if_neg (show min nibbleSizeBound size ≠ 62 by omega), List.cons_append] at hd ⊢
    obtain ⟨hlow, hkind, hne⟩ := firstByte_spec pfx hpfx 63 (by omega)
    refine ⟨_, run_readByte hd, hne, hkind, ?_⟩
    have hrest : data.drop (o + 1) = sizeRest (min nibbleSizeBound size - 62) ++ rest := by
      rw [← List.drop_drop, hd]
      rfl
    rw [decodeSize, show pfx + 63 = pfx + UInt8.ofNat 63 from rfl, hlow, UInt8.toNat_ofNat_of_lt' (by rw [UInt8.size]; omega),
      if_neg (by omega), run_decodeSizeLoop _ 62 (by omega) (by unfold nibbleSizeBound at *; omega) hrest,
      List.length_cons]
    rw [show 62 + (min nibbleSizeBound size - 62) = min nibbleSizeBound size by omega,
      show o + 1 + (sizeRest (min nibbleSizeBound size - 62)).length =
        o + ((sizeRest (min nibbleSizeBound size - 62)).length + 1) by omega]

/-- `NodeHeader` with its number of nibbles bounded as `encode` bounds it. -/
def NodeHeader.bounded : NodeHeader → NodeHeader
  | .null => .null
  | .branch hasValue nibbleCount => .branch hasValue (min nibbleSizeBound nibbleCount)
  | .leaf nibbleCount => .leaf (min nibbleSizeBound nibbleCount)

/-- **Round trip.** A header reads back, bounded, from wherever it stands,
and the cursor moves past exactly its bytes. -/
theorem decode_encode_header (h : NodeHeader) {data rest : List UInt8} {o : ℕ}
    (hd : data.drop o = h.encode ++ rest) :
    NodeHeader.decode.run ⟨data, o⟩ = .ok h.bounded ⟨data, o + h.encode.length⟩ := by
  cases h with
  | null =>
    rw [NodeHeader.encode, List.singleton_append] at hd
    rw [NodeHeader.decode, run_bind_ok (run_readByte hd), if_pos rfl]
    rfl
  | leaf nibbleCount =>
    obtain ⟨i, hread, hne, hkind, hsize⟩ := run_decodeSize leafPrefixMask (by simp) nibbleCount hd
    rw [NodeHeader.decode, run_bind_ok hread, if_neg hne]
    simp only [hkind, if_true]
    rw [run_bind_ok hsize]
    rfl
  | branch hasValue nibbleCount =>
    cases hasValue with
    | false =>
      obtain ⟨i, hread, hne, hkind, hsize⟩ := run_decodeSize branchWithoutMask (by simp) nibbleCount hd
      rw [NodeHeader.decode, run_bind_ok hread, if_neg hne]
      simp only [hkind, if_neg (show branchWithoutMask ≠ leafPrefixMask by decide), if_true]
      rw [run_bind_ok hsize]
      rfl
    | true =>
      obtain ⟨i, hread, hne, hkind, hsize⟩ := run_decodeSize branchWithMask (by simp) nibbleCount hd
      rw [NodeHeader.decode, run_bind_ok hread, if_neg hne]
      simp only [hkind, if_neg (show branchWithMask ≠ leafPrefixMask by decide),
        if_neg (show branchWithMask ≠ branchWithoutMask by decide), if_true]
      rw [run_bind_ok hsize]
      rfl

/-! ## A leaf cut short -/

/-- A leaf of one nibble, its header the only byte: the padding check
indexes past the end, whatever `Compact<u32>`, the hash length and trie-db's
functions are. -/
theorem decode_plan_panics_on_short_leaf (padLeft : UInt8 → UInt8) (bitmapDecode : UInt8 → UInt8 → ℕ)
    (bitmapValueAt : ℕ → ℕ → Bool) (compact : InputCall CodecError ℕ) (hashLength : ℕ) :
    (decodePlan padLeft bitmapDecode bitmapValueAt compact hashLength [0x41]).run ⟨[0x41], 0⟩ =
      .error .panic ⟨[0x41], 1⟩ := by
  rfl

end SocialNetwork.Trie
