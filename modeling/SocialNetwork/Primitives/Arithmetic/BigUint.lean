import SocialNetwork.Lib.Unsigned

/-!
# `sp_arithmetic::biguint`

An infinitely large unsigned integer as a vector of `u32` limbs, the most
significant first. `get` and `set` index from the least significant limb.
The arithmetic is Knuth's (TAOCP vol. 2, 4.3.1): `add` and `sub` with a
carry, `mul` (Algorithm M), `div_unit` by one limb, and `div` (Algorithm D),
which normalises both numbers, estimates each quotient limb from the top two
limbs of the window, corrects the estimate with the next limb, subtracts, and
adds the divisor back once when the subtraction went below zero.

A `Double` (`u64`) is a natural number here: the source's own proofs keep
every such value below `2 ^ 64`. A limb read out of range panics in the
source, and `get` panics there too; a write out of range panics as well,
which `set` leaves out: every write of the functions below is in range, and
what is proved of `set` is proved for a limb in range.
-/

namespace SocialNetwork.Arithmetic

/-- `B`: one more than the largest limb. -/
def B : ℕ := 2 ^ 32

/-- `BigUint`: the limbs, most significant first. -/
structure BigUint where
  digits : List UInt32
  deriving Repr

namespace BigUint

/-- `split`: the high and the low limb of a `Double`. -/
def split (a : ℕ) : UInt32 × UInt32 := (UInt32.ofNat (a >>> 32), UInt32.ofNat a)

/-- `mul_single`. -/
def mulSingle (a b : UInt32) : ℕ := a.toNat * b.toNat

/-- `div_single`: quotient and remainder of a `Double` by a limb. -/
def divSingle (a : ℕ) (b : UInt32) : ℕ × UInt32 := (a / b.toNat, UInt32.ofNat (a % b.toNat))

/-- `Zero::zero`. -/
def zero : BigUint := ⟨[0]⟩

/-- `with_capacity`: `size` zero limbs, at least one. -/
def withCapacity (size : ℕ) : BigUint := ⟨List.replicate (max size 1) 0⟩

/-- `from_limbs`. -/
def fromLimbs (limbs : List UInt32) : BigUint := if limbs.isEmpty then zero else ⟨limbs⟩

/-- `From<u32>`. -/
def ofSingle (a : UInt32) : BigUint := ⟨[a]⟩

/-- `From<u64>`: always two limbs. -/
def ofDouble (a : ℕ) : BigUint :=
  let (ah, al) := split a
  ⟨[ah, al]⟩

/-- `len`. -/
def len (x : BigUint) : ℕ := x.digits.length

/-- `checked_get`. -/
def checkedGet (x : BigUint) (index : ℕ) : Option UInt32 := do
  let i ← Unsigned.checkedSub x.len 1
  let j ← Unsigned.checkedSub i index
  x.digits[j]?

/-- `get`: the limb at `index`, from the least significant. It reads
`digits[len() - 1 - index]`, which panics unless `index < len()`: the limb
`checked_get` finds, and a panic where it finds none. -/
def get (x : BigUint) (index : ℕ) : UInt32 := (x.checkedGet index).get!

/-- `set`: the limb at `index`, from the least significant. -/
def set (x : BigUint) (index : ℕ) (value : UInt32) : BigUint :=
  ⟨x.digits.set (x.len - 1 - index) value⟩

/-- `msb`. -/
def msb (x : BigUint) : UInt32 := x.digits.headD 0

/-- `lstrip`: the leading zero limbs dropped, one limb kept. -/
def lstrip (x : BigUint) : BigUint :=
  if x.len = 0 then x
  else
    let index := (x.digits.findIdx? fun e => e != 0).getD (x.len - 1)
    if index > 0 then ⟨x.digits.drop index⟩ else x

/-- `lpad`: zero limbs put in front up to `size` limbs. -/
def lpad (x : BigUint) (size : ℕ) : BigUint :=
  if size ≤ x.len then x else ⟨List.replicate (size - x.len) 0 ++ x.digits⟩

def addStep (self other : BigUint) (acc : BigUint × ℕ) (j : ℕ) : BigUint × ℕ :=
  let u := ((self.checkedGet j).getD 0).toNat
  let v := ((other.checkedGet j).getD 0).toNat
  let s := u + v + acc.2
  (acc.1.set j (UInt32.ofNat (s % B)), s / B)

/-- `add`: `n + 1` limbs for `n` the longer length, not stripped. -/
def add (self other : BigUint) : BigUint :=
  let n := max self.len other.len
  let (w, k) := (List.range n).foldl (addStep self other) (withCapacity (n + 1), 0)
  w.set n (UInt32.ofNat k)

/-- One limb of `sub`: `u - v - k`, or with a borrow `u + B - v - k`; the
limb and the next borrow. -/
def subLimb (u v k : ℕ) : ℕ × ℕ :=
  match Unsigned.checkedSub u v with
  | some v1 =>
      match Unsigned.checkedSub v1 k with
      | some v2 => (v2, 0)
      | none => (u + B - v - k, 1)
  | none => (u + B - v - k, 1)

/-- One limb of `sub`: the limb `j` of the difference written, and the borrow
out. -/
def subStep (self other : BigUint) (acc : BigUint × ℕ) (j : ℕ) : BigUint × ℕ :=
  let u := ((self.checkedGet j).getD 0).toNat
  let v := ((other.checkedGet j).getD 0).toNat
  let (t, k) := subLimb u v acc.2
  (acc.1.set j (UInt32.ofNat t), k)

/-- `sub`: `n` limbs for `n` the longer length; `Err` when `other` is the
larger, with the limbs of `self - other + B ^ n`. -/
def sub (self other : BigUint) : Except BigUint BigUint :=
  let n := max self.len other.len
  let (w, k) := (List.range n).foldl (subStep self other) (withCapacity n, 0)
  if k = 0 then .ok w else .error w

/-- One step of the inner loop of `mul`: the product limb `i + j` and the
carry. -/
def mulRowStep (self other : BigUint) (j : ℕ) (acc : BigUint × UInt32) (i : ℕ) :
    BigUint × UInt32 :=
  let t := mulSingle (self.get j) (other.get i) + (acc.1.get (i + j)).toNat + acc.2.toNat
  (acc.1.set (i + j) (UInt32.ofNat (t % B)), UInt32.ofNat (t / B))

def mulRow (self other : BigUint) (j : ℕ) (w : BigUint) : BigUint × UInt32 :=
  (List.range other.len).foldl (mulRowStep self other j) (w, 0)

/-- One step of the outer loop of `mul`: a zero limb of `self` is skipped,
otherwise its row is added and the carry written at `j + m`. -/
def mulStep (self other : BigUint) (w : BigUint) (j : ℕ) : BigUint :=
  if self.get j = 0 then w
  else
    let (w, k) := mulRow self other j w
    w.set (j + other.len) k

/-- `mul`: `n + m` limbs, not stripped. -/
def mul (self other : BigUint) : BigUint :=
  (List.range self.len).foldl (mulStep self other) (withCapacity (other.len + self.len))

/-- The loop of `div_unit` over the limbs `d - 1` down to `0`, with the
remainder. -/
def divUnitLoop (self : BigUint) (other : UInt32) : ℕ → BigUint × UInt32 → BigUint × UInt32
  | 0, acc => acc
  | d + 1, acc =>
      let (q, rr) := divSingle (acc.2.toNat * B + (self.get d).toNat) other
      divUnitLoop self other d (acc.1.set d (UInt32.ofNat q), rr)

/-- `div_unit`: division by one limb, at least one. -/
def divUnit (self : BigUint) (other : UInt32) : BigUint :=
  let other := max other 1
  (divUnitLoop self other self.len (withCapacity self.len, 0)).1

/-- `u32::leading_zeros`. -/
def leadingZeros (x : UInt32) : ℕ := 32 - x.toNat.size

/-- `test()` of step D3: when the estimate `qhat` is at least `B`, or too
large for the next limbs, it is lowered by one and `rhat` raised by the
divisor's top limb. -/
def test (vTop vNext uNext qhat rhat : ℕ) : Bool × ℕ × ℕ :=
  if B ≤ qhat ∨ B * rhat + uNext < qhat * vNext then (true, qhat - 1, rhat + vTop)
  else (false, qhat, rhat)

theorem lt_of_test_eq_true {vTop vNext uNext qhat rhat qhat' rhat' : ℕ}
    (h : test vTop vNext uNext qhat rhat = (true, qhat', rhat')) : qhat' < qhat := by
  unfold test at h
  split_ifs at h with hc
  · obtain ⟨-, rfl, -⟩ := h
    rcases hc with hB | hlt
    · have : 0 < B := by simp [B]
      omega
    · have : 0 < qhat := Nat.pos_of_ne_zero fun h0 => by simp [h0] at hlt
      omega
  · cases h

/-- `while rhat < B { if !test() { break; } }`. -/
def qhatLoop (vTop vNext uNext qhat rhat : ℕ) : ℕ :=
  if rhat < B then
    match h : test vTop vNext uNext qhat rhat with
    | (true, qhat', rhat') =>
        have := lt_of_test_eq_true h
        qhatLoop vTop vNext uNext qhat' rhat'
    | (false, _, _) => qhat
  else qhat
termination_by qhat

def window (x : BigUint) (j n : ℕ) : BigUint :=
  ⟨(List.range (n + 1)).reverse.map fun i => x.get (j + i)⟩

/-- Step D3 of `div` for the quotient limb `j`: the estimate `qhat` from the
top two limbs of the window, corrected by `test()` once and then while
`rhat < B`. -/
def estimate (n : ℕ) (otherNorm selfNorm : BigUint) (j : ℕ) : ℕ :=
  -- D3.0: the estimate from the top two limbs of the window
  let dividend := (selfNorm.get (j + n)).toNat * B + (selfNorm.get (j + n - 1)).toNat
  let divisor := otherNorm.get (n - 1)
  let qr := divSingle dividend divisor
  -- D3.1: `test()` once, then again while `rhat < B`
  let vTop := divisor.toNat
  let vNext := (otherNorm.get (n - 2)).toNat
  let uNext := (selfNorm.get (j + n - 2)).toNat
  let t := test vTop vNext uNext qr.1 qr.2.toNat
  qhatLoop vTop vNext uNext t.2.1 t.2.2

/-- The `match maybe_sub` of step D4: the limbs, and whether the subtraction
went below zero. -/
def subOutcome : Except BigUint BigUint → BigUint × Bool
  | .ok t => (t, false)
  | .error t => (t, true)

/-- Steps D3 to D6 of `div` for the quotient limb `j`, on the quotient and
the normalised dividend. -/
def divStep (n : ℕ) (otherNorm : BigUint) (st : BigUint × BigUint) (j : ℕ) : BigUint × BigUint :=
  let q := st.1
  let selfNorm := st.2
  let qhat := estimate n otherNorm selfNorm j
  -- D4: the window minus `qhat` times the divisor, written back
  let lhs := selfNorm.window j n
  let rhs := otherNorm.mul (ofDouble qhat)
  let outcome := subOutcome (lhs.sub rhs)
  let sub := outcome.1
  let selfNorm := (List.range (n + 1)).foldl (fun s i => s.set (j + i) (sub.get i)) selfNorm
  -- D5
  let q := q.set j (UInt32.ofNat qhat)
  -- D6: the divisor added back once, its carry dropped
  if outcome.2 then
    let q := q.set j (q.get j - 1)
    let r := otherNorm.add (selfNorm.window j n)
    (q, (List.range (n + 1)).reverse.foldl (fun s i => s.set (j + i) (r.get i)) selfNorm)
  else (q, selfNorm)

def divLoop (n : ℕ) (otherNorm : BigUint) : ℕ → BigUint × BigUint → BigUint × BigUint
  | 0, st => st
  | j + 1, st => divLoop n otherNorm j (divStep n otherNorm st j)

/-- The normalisation undone on the low `n` limbs: each shifted right by
`normalizer_bits`, with the low bits of the next limb above. -/
def denormalize (n normalizerBits : ℕ) (selfNorm r : BigUint) : BigUint :=
  let r := (List.range (n - 1)).foldl (fun r d =>
      r.set d ((selfNorm.get d >>> UInt32.ofNat normalizerBits) |||
        (selfNorm.get (d + 1) <<< UInt32.ofNat (32 - normalizerBits)))) r
  r.set (n - 1) (selfNorm.get (n - 1) >>> UInt32.ofNat normalizerBits)

/-- `div`: an `n + m` limb `self` by an `n` limb `other`, both stripped,
`n ≥ 2` and `m ≥ 1`; the `m + 1` limb quotient and, when `rem`, the
remainder. -/
def div (self other : BigUint) (rem : Bool) : Option (BigUint × BigUint) :=
  if other.len ≤ 1 ∨ other.msb = 0 ∨ self.msb = 0 ∨ self.len ≤ other.len then none
  else
    let n := other.len
    let m := self.len - n
    let q := withCapacity (m + 1)
    let r := withCapacity n
    let normalizerBits := leadingZeros other.msb
    let normalizer : UInt32 := UInt32.ofNat (2 ^ normalizerBits)
    -- D1
    let selfNorm := (self.mul (ofSingle normalizer)).lpad (n + m + 1)
    let otherNorm := (other.mul (ofSingle normalizer)).lstrip
    -- D2 to D7
    let st := divLoop n otherNorm (m + 1) (q, selfNorm)
    let r := if rem then
        if normalizerBits > 0 then denormalize n normalizerBits st.2 r else st.2
      else r
    some (st.1, r)

/-- `Ord for [u32]`: lexicographic. -/
def sliceCmp : List UInt32 → List UInt32 → Ordering
  | [], [] => .eq
  | [], _ :: _ => .lt
  | _ :: _, [] => .gt
  | a :: as, b :: bs =>
      match compare a b with
      | .eq => sliceCmp as bs
      | o => o

/-- `Ord::cmp`: the limbs from the first non-zero one, by length and then
lexicographically. -/
def cmp (self other : BigUint) : Ordering :=
  match self.digits.findIdx? (fun e => e != 0), other.digits.findIdx? (fun e => e != 0) with
  | none, none => .eq
  | some _, none => .gt
  | none, some _ => .lt
  | some l, some r =>
      let lhs := self.digits.drop l
      let rhs := other.digits.drop r
      match compare lhs.length rhs.length with
      | .eq => sliceCmp lhs rhs
      | c => c

/-- `PartialEq::eq`, through `cmp`. -/
def eq (self other : BigUint) : Bool := self.cmp other == .eq

/-- `TryFrom<BigUint>` for an unsigned type of `bits` bits named `name`:
stripped, at most `bits / 32` limbs, summed limb by limb. -/
def tryIntoBits (bits : ℕ) (name : String) (value : BigUint) : Except String ℕ :=
  let value := value.lstrip
  if value.len * 32 > bits then .error ("cannot fit a number into " ++ name)
  else .ok (value.digits.reverse.zipIdx.foldl (fun acc di => acc + di.1.toNat <<< (32 * di.2)) 0)

/-- `TryFrom<BigUint> for u128`. -/
def tryIntoU128 (value : BigUint) : Except String ℕ := tryIntoBits 128 "u128" value

/-- `TryFrom<BigUint> for u64`. -/
def tryIntoU64 (value : BigUint) : Except String ℕ := tryIntoBits 64 "u64" value

end BigUint

end SocialNetwork.Arithmetic
