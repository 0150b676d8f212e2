import SocialNetwork.Lib.Unsigned
import SocialNetwork.Lib.IndexedList
import SocialNetwork.Primitives.Arithmetic.PerThing

/-!
# `sp_arithmetic::normalize`

`normalize(input, targeted_sum)` moves the values of `input`, of an unsigned
type `T` of `w` bits, until they sum to `targeted_sum`. It fails when the sum
or the length of `input` is no `T`, returns an empty input as it is and an
input already at the target unchanged, and otherwise spreads the difference:
`per_round = diff / count` to every value, then one at a time for the
`leftover = diff % count`. The values are sorted once with their indices
(`output_with_idx`); up, the cursor starts at the minimum and moves on past
`targeted_sum / count`; down, it starts at the maximum, moves down past the
minimum, saturates at zero, and pushes what it could not take back into
`leftover`, so the last loop may pass over zeros before it can take one.

The loops here keep a list of entries, each an original index and a value
(`Inv`): the indices stay `0, …, count - 1`, and each value stays at or above
its input (up) or at or below it (down). The sum moves by exactly what is
added or taken, no addition overflows, and the last loop ends within
`leftover * count` steps (`reduceLeftover_spec`), so `normalize` never
panics (`none`) and, but for an empty input, reaches the target exactly
(`normalize_spec`).
-/

namespace SocialNetwork.Arithmetic

namespace Normalize

abbrev Entries := List (ℕ × ℕ)

/-- `max_index.checked_sub(1).unwrap_or(count - 1)`. -/
def prevIndex (count index : ℕ) : ℕ := if index = 0 then count - 1 else index - 1

/-- One step of the loops up: `amount` added at `min_index`, which moves on
once its value reaches `threshold`; `none` when the `expect` panics. -/
def bumpStep (w threshold count amount : ℕ) (st : Entries × ℕ) : Option (Entries × ℕ) :=
  match st.1[st.2]? with
  | none => none
  | some e =>
    match Unsigned.checkedAdd w e.2 amount with
    | none => none
    | some v => some (st.1.set st.2 (e.1, v), if v ≥ threshold then (st.2 + 1) % count else st.2)

def bumpLoop (w threshold count amount : ℕ) : ℕ → Entries × ℕ → Option (Entries × ℕ)
  | 0, st => some st
  | n + 1, st => (bumpStep w threshold count amount st).bind (bumpLoop w threshold count amount n)

/-- One round down: `per_round` taken at `max_index`, saturating at zero with
the shortfall added to `leftover` (in `T`: `none` on overflow); the cursor
moves down once the value is at or below `threshold`. -/
def reduceStep (w threshold count perRound : ℕ) (st : Entries × ℕ × ℕ) :
    Option (Entries × ℕ × ℕ) :=
  match st.1[st.2.1]? with
  | none => none
  | some e =>
    match Unsigned.checkedSub e.2 perRound with
    | some v =>
      some (st.1.set st.2.1 (e.1, v), if v ≤ threshold then prevIndex count st.2.1 else st.2.1, st.2.2)
    | none =>
      match Unsigned.checkedAdd w st.2.2 (perRound - e.2) with
      | none => none
      | some leftover =>
        let v := Unsigned.saturatingSub e.2 perRound
        some (st.1.set st.2.1 (e.1, v), if v ≤ threshold then prevIndex count st.2.1 else st.2.1,
          leftover)

def reduceLoop (w threshold count perRound : ℕ) :
    ℕ → Entries × ℕ × ℕ → Option (Entries × ℕ × ℕ)
  | 0, st => some st
  | n + 1, st => (reduceStep w threshold count perRound st).bind (reduceLoop w threshold count perRound n)

/-- `while !leftover.is_zero()` down: one taken where the value is not zero,
else the cursor moves down; `none` also when the fuel runs out. -/
def reduceLeftover (threshold count : ℕ) : ℕ → Entries × ℕ × ℕ → Option (Entries × ℕ × ℕ)
  | 0, st => if st.2.2 = 0 then some st else none
  | fuel + 1, st =>
    if st.2.2 = 0 then some st
    else
      match st.1[st.2.1]? with
      | none => none
      | some e =>
        match Unsigned.checkedSub e.2 1 with
        | some next =>
          reduceLeftover threshold count fuel
            (st.1.set st.2.1 (e.1, next), if next ≤ threshold then prevIndex count st.2.1 else st.2.1,
              st.2.2 - 1)
        | none => reduceLeftover threshold count fuel (st.1, prevIndex count st.2.1, st.2.2)

/-- The branch `needs_bump`: `per_round` at each of `count` steps, then the
`leftover` one at a time, from the minimum on. -/
def bumpPhase (w targetedSum count perRound leftover : ℕ) (outputWithIdx : Entries) :
    Option Entries :=
  let threshold := targetedSum / count
  ((if perRound ≠ 0 then bumpLoop w threshold count perRound count (outputWithIdx, 0)
    else some (outputWithIdx, 0)).bind (bumpLoop w threshold count 1 leftover)).map Prod.fst

def reducePhase (w count perRound leftover : ℕ) (outputWithIdx : Entries) : Option Entries :=
  match outputWithIdx.head? with
  | none => none
  | some first =>
    let threshold := first.2
    ((if perRound ≠ 0 then
        reduceLoop w threshold count perRound count (outputWithIdx, count - 1, leftover)
      else some (outputWithIdx, count - 1, leftover)).bind
      fun st => reduceLeftover threshold count (st.2.2 * count) st).map Prod.fst

/-! ## Entries and the invariant -/

/-- The sum of the values. -/
def total (L : Entries) : ℕ := (L.map Prod.snd).sum

theorem total_set (L : Entries) {k : ℕ} (hk : k < L.length) (v : ℕ) :
    total (L.set k (L[k].1, v)) + L[k].2 = total L + v :=
  IndexedList.sum_map_snd_set L hk v

theorem snd_le_total (L : Entries) {k : ℕ} (hk : k < L.length) : L[k].2 ≤ total L :=
  List.le_sum_of_mem (List.mem_map_of_mem (List.getElem_mem hk))

theorem exists_snd_ne_zero {L : Entries} (h : total L ≠ 0) :
    ∃ (p : ℕ) (hp : p < L.length), L[p].2 ≠ 0 := by
  by_contra hall
  simp only [not_exists, not_not] at hall
  apply h
  refine List.sum_eq_zero fun x hx => ?_
  obtain ⟨e, he, rfl⟩ := List.mem_map.1 hx
  obtain ⟨p, hp, rfl⟩ := List.mem_iff_getElem.1 he
  exact hall p hp

/-- The entries hold the indices `0, …, count - 1`, each once, and each value
stands in `r` to the input's value at its index: `≤` up, `≥` down. -/
structure Inv (input : List ℕ) (r : ℕ → ℕ → Prop) (L : Entries) : Prop where
  perm : (L.map Prod.fst).Perm (List.range input.length)
  rel : ∀ e ∈ L, r (input.getD e.1 0) e.2

section Inv

variable {input : List ℕ} {r : ℕ → ℕ → Prop} {L : Entries}

theorem Inv.length_eq (h : Inv input r L) : L.length = input.length := by
  simpa using h.perm.length_eq

theorem Inv.set (h : Inv input r L) {k : ℕ} (hk : k < L.length) {v : ℕ}
    (hv : r (input.getD L[k].1 0) v) : Inv input r (L.set k (L[k].1, v)) where
  perm := by
    rw [IndexedList.map_fst_set L hk v]
    exact h.perm
  rel := by
    intro e he
    rcases List.mem_or_eq_of_mem_set he with he | rfl
    · exact h.rel e he
    · exact hv

/-- `output_with_idx` before any step: the input sorted by value with its
indices. -/
theorem Inv.outputWithIdx (hr : ∀ x, r x x) :
    Inv input r ((input.mapIdx fun i t => (i, t)).mergeSort fun a b => a.2 ≤ b.2) where
  perm := by
    rw [← IndexedList.map_fst_mapIdx input]
    exact (List.mergeSort_perm _ _).map Prod.fst
  rel := by
    intro e he
    rw [IndexedList.getD_of_mem_mapIdx input ((List.mergeSort_perm _ _).mem_iff.1 he)]
    exact hr e.2

theorem total_outputWithIdx :
    total ((input.mapIdx fun i t => (i, t)).mergeSort fun a b => a.2 ≤ b.2) = input.sum := by
  unfold total
  rw [((List.mergeSort_perm _ _).map Prod.snd).sum_eq, IndexedList.map_snd_mapIdx]

end Inv

/-! ## Up

What is still to be added keeps the sum at most the target, so every value
plus the amount of its step stays at most the target, which is a `T`: the
`expect`s of the branch `needs_bump` never fire. -/

section Bump

variable {w count amount : ℕ} (threshold : ℕ) {input : List ℕ}

theorem bumpStep_spec {L : Entries} {k : ℕ} (hL : Inv input (· ≤ ·) L)
    (hn : count = input.length) (hk : k < count) (hsum : total L + amount ≤ Unsigned.maxValue w) :
    ∃ L' k', bumpStep w threshold count amount (L, k) = some (L', k') ∧
      Inv input (· ≤ ·) L' ∧ k' < count ∧ total L' = total L + amount := by
  have hkL : k < L.length := by rw [hL.length_eq, ← hn]; exact hk
  have hfit : L[k].2 + amount ≤ Unsigned.maxValue w := by
    have := snd_le_total L hkL
    omega
  refine ⟨L.set k (L[k].1, L[k].2 + amount),
    if L[k].2 + amount ≥ threshold then (k + 1) % count else k, ?_, ?_, ?_, ?_⟩
  · simp only [bumpStep, List.getElem?_eq_getElem hkL, Unsigned.checkedAdd, if_pos hfit]
  · exact hL.set hkL (le_trans (hL.rel _ (List.getElem_mem hkL)) (Nat.le_add_right _ _))
  · split_ifs
    · exact Nat.mod_lt _ (by omega)
    · exact hk
  · have := total_set L hkL (L[k].2 + amount)
    omega

theorem bumpLoop_spec (hn : count = input.length) (n : ℕ) :
    ∀ {L : Entries} {k : ℕ}, Inv input (· ≤ ·) L → k < count →
      total L + n * amount ≤ Unsigned.maxValue w →
      ∃ L' k', bumpLoop w threshold count amount n (L, k) = some (L', k') ∧
        Inv input (· ≤ ·) L' ∧ k' < count ∧ total L' = total L + n * amount := by
  induction n with
  | zero =>
    intro L k hL hk _
    exact ⟨L, k, rfl, hL, hk, by simp⟩
  | succ n ih =>
    intro L k hL hk hsum
    have hmul : (n + 1) * amount = n * amount + amount := Nat.succ_mul n amount
    have hstep : total L + amount ≤ Unsigned.maxValue w := by omega
    obtain ⟨L1, k1, h1, hL1, hk1, ht1⟩ := bumpStep_spec threshold hL hn hk hstep
    obtain ⟨L2, k2, h2, hL2, hk2, ht2⟩ := ih hL1 hk1 (by omega)
    refine ⟨L2, k2, ?_, hL2, hk2, by omega⟩
    rw [bumpLoop, h1, Option.bind_some, h2]

theorem bumpPhase_spec {targetedSum perRound leftover : ℕ} {L : Entries}
    (hL : Inv input (· ≤ ·) L) (hn : count = input.length) (hpos : 0 < count)
    (hdiff : total L + (count * perRound + leftover) = targetedSum)
    (ht : targetedSum ≤ Unsigned.maxValue w) :
    ∃ L', bumpPhase w targetedSum count perRound leftover L = some L' ∧
      Inv input (· ≤ ·) L' ∧ total L' = targetedSum := by
  obtain ⟨L1, k1, h1, hL1, hk1, ht1⟩ : ∃ L1 k1,
      (if perRound ≠ 0 then bumpLoop w (targetedSum / count) count perRound count (L, 0)
        else some (L, 0)) = some (L1, k1) ∧
      Inv input (· ≤ ·) L1 ∧ k1 < count ∧ total L1 = total L + count * perRound := by
    by_cases h0 : perRound = 0
    · refine ⟨L, 0, if_neg (not_not.2 h0), hL, hpos, ?_⟩
      simp [h0]
    · rw [if_pos h0]
      exact bumpLoop_spec _ hn count hL hpos (by omega)
  have hrest : total L1 + leftover * 1 ≤ Unsigned.maxValue w := by omega
  obtain ⟨L2, k2, h2, hL2, -, ht2⟩ := bumpLoop_spec (targetedSum / count) hn leftover hL1 hk1 hrest
  refine ⟨L2, ?_, hL2, by omega⟩
  simp only [bumpPhase, h1, Option.bind_some, h2, Option.map_some]

end Bump

/-! ## Down

The sum stays the target plus what is still to be taken (`per_round` for
each round left, and `leftover`). What a round cannot take from a value is
added to `leftover`, which stays below the sum and so in `T`. In the last
loop a positive value is fewer than `count` moves of the cursor away while
`leftover` is not zero, so `leftover * count` steps suffice. -/

section Reduce

variable {w count perRound : ℕ} {input : List ℕ}

theorem prevIndex_lt {k : ℕ} (hk : k < count) : prevIndex count k < count := by
  unfold prevIndex
  split_ifs <;> omega

theorem ite_prevIndex_lt (c : Prop) [Decidable c] {k : ℕ} (hk : k < count) :
    (if c then prevIndex count k else k) < count := by
  split_ifs
  · exact prevIndex_lt hk
  · exact hk

variable (threshold : ℕ)

theorem reduceStep_spec {L : Entries} {k leftover : ℕ} (hL : Inv input (· ≥ ·) L)
    (hn : count = input.length) (hk : k < count) (hmax : total L ≤ Unsigned.maxValue w)
    (hlo : perRound + leftover ≤ total L) :
    ∃ L' k' leftover', reduceStep w threshold count perRound (L, k, leftover) = some (L', k', leftover') ∧
      Inv input (· ≥ ·) L' ∧ k' < count ∧
      total L' + perRound + leftover = total L + leftover' ∧ total L' ≤ total L := by
  have hkL : k < L.length := by rw [hL.length_eq, ← hn]; exact hk
  have hL' : Inv input (· ≥ ·) (L.set k (L[k].1, L[k].2 - perRound)) :=
    hL.set hkL (le_trans (Nat.sub_le _ _) (hL.rel _ (List.getElem_mem hkL)))
  have hset := total_set L hkL (L[k].2 - perRound)
  by_cases hv : perRound ≤ L[k].2
  · refine ⟨_, _, leftover, ?_, hL', ite_prevIndex_lt (L[k].2 - perRound ≤ threshold) hk, by omega,
      by omega⟩
    simp only [reduceStep, List.getElem?_eq_getElem hkL, Unsigned.checkedSub, if_pos hv]
  · -- the shortfall `per_round - v` goes back into `leftover`
    have hfit : leftover + (perRound - L[k].2) ≤ Unsigned.maxValue w := by omega
    refine ⟨_, _, leftover + (perRound - L[k].2), ?_, hL',
      ite_prevIndex_lt (L[k].2 - perRound ≤ threshold) hk, by omega, by omega⟩
    simp only [reduceStep, List.getElem?_eq_getElem hkL, Unsigned.checkedSub, if_neg hv,
      Unsigned.checkedAdd, if_pos hfit, Unsigned.saturatingSub]
    rfl

theorem reduceLoop_spec (hn : count = input.length) (n : ℕ) :
    ∀ {L : Entries} {k leftover : ℕ}, Inv input (· ≥ ·) L → k < count →
      total L ≤ Unsigned.maxValue w → n * perRound + leftover ≤ total L →
      ∃ L' k' leftover', reduceLoop w threshold count perRound n (L, k, leftover) = some (L', k', leftover') ∧
        Inv input (· ≥ ·) L' ∧ k' < count ∧ total L' + n * perRound + leftover = total L + leftover' := by
  induction n with
  | zero =>
    intro L k leftover hL hk _ _
    exact ⟨L, k, leftover, rfl, hL, hk, by simp⟩
  | succ n ih =>
    intro L k leftover hL hk hmax hlo
    have hmul : (n + 1) * perRound = n * perRound + perRound := Nat.succ_mul n perRound
    have hround : perRound + leftover ≤ total L := by omega
    obtain ⟨L1, k1, lo1, h1, hL1, hk1, ht1, hle1⟩ := reduceStep_spec threshold hL hn hk hmax hround
    obtain ⟨L2, k2, lo2, h2, hL2, hk2, ht2⟩ := @ih L1 k1 lo1 hL1 hk1 (by omega) (by omega)
    refine ⟨L2, k2, lo2, ?_, hL2, hk2, by omega⟩
    rw [reduceLoop, h1, Option.bind_some, h2]

/-! ### The last loop -/

theorem reduceLeftover_of_zero (fuel : ℕ) (L : Entries) (k : ℕ) :
    reduceLeftover threshold count fuel (L, k, 0) = some (L, k, 0) := by
  cases fuel <;> simp [reduceLeftover]

theorem reduceLeftover_skip {L : Entries} {k leftover : ℕ} (fuel : ℕ) (hlo : leftover ≠ 0)
    (hk : k < L.length) (hz : L[k].2 = 0) :
    reduceLeftover threshold count (fuel + 1) (L, k, leftover) =
      reduceLeftover threshold count fuel (L, prevIndex count k, leftover) := by
  simp only [reduceLeftover, if_neg hlo, List.getElem?_eq_getElem hk, Unsigned.checkedSub, hz,
    if_neg (show ¬ 1 ≤ 0 by omega)]

theorem reduceLeftover_take {L : Entries} {k leftover : ℕ} (fuel : ℕ) (hlo : leftover ≠ 0)
    (hk : k < L.length) (hv : L[k].2 ≠ 0) :
    reduceLeftover threshold count (fuel + 1) (L, k, leftover) =
      reduceLeftover threshold count fuel (L.set k (L[k].1, L[k].2 - 1),
        if L[k].2 - 1 ≤ threshold then prevIndex count k else k, leftover - 1) := by
  have h1 : 1 ≤ L[k].2 := Nat.one_le_iff_ne_zero.2 hv
  simp only [reduceLeftover, if_neg hlo, List.getElem?_eq_getElem hk, Unsigned.checkedSub, if_pos h1]

section Walk

variable {L : Entries} {leftover : ℕ}

theorem reduceLeftover_skip_to_last (hlo : leftover ≠ 0) (k : ℕ) (hk : k < L.length)
    (hz : ∀ (p : ℕ) (hp : p < L.length), p ≤ k → L[p].2 = 0) (fuel : ℕ) :
    reduceLeftover threshold count (fuel + (k + 1)) (L, k, leftover) =
      reduceLeftover threshold count fuel (L, count - 1, leftover) := by
  induction k generalizing fuel with
  | zero => rw [reduceLeftover_skip threshold fuel hlo hk (hz 0 hk le_rfl), prevIndex]; rfl
  | succ k ih =>
    rw [show fuel + (k + 1 + 1) = fuel + (k + 1) + 1 by omega,
      reduceLeftover_skip threshold _ hlo hk (hz _ hk le_rfl), prevIndex, if_neg (Nat.succ_ne_zero k),
      Nat.add_sub_cancel]
    exact ih (by omega) (fun p hp hpk => hz p hp (by omega)) fuel

/-- A positive value at `p` at or below the cursor `k`: within `k - p` moves
the cursor stands on a positive value. -/
theorem reduceLeftover_walk_down (hlo : leftover ≠ 0) {p : ℕ} (hp : p < L.length) (hpv : L[p].2 ≠ 0)
    (k : ℕ) (hpk : p ≤ k) (hk : k < L.length) :
    ∃ c ≤ k - p, ∃ (k' : ℕ) (hk' : k' < L.length), L[k'].2 ≠ 0 ∧
      ∀ fuel, reduceLeftover threshold count (fuel + c) (L, k, leftover) =
        reduceLeftover threshold count fuel (L, k', leftover) := by
  induction k with
  | zero =>
    obtain rfl : p = 0 := by omega
    exact ⟨0, le_rfl, 0, hk, hpv, fun _ => rfl⟩
  | succ k ih =>
    by_cases hz : L[k + 1].2 = 0
    · -- a zero: one move down, then as from `k`
      have hpk' : p ≤ k := by
        rcases Nat.lt_or_eq_of_le hpk with h | rfl
        · omega
        · exact absurd hz hpv
      obtain ⟨c, hc, k', hk', hv', hwalk⟩ := ih hpk' (by omega)
      refine ⟨c + 1, by omega, k', hk', hv', fun fuel => ?_⟩
      rw [← Nat.add_assoc, reduceLeftover_skip threshold _ hlo hk hz, prevIndex,
        if_neg (Nat.succ_ne_zero k),
        Nat.add_sub_cancel, hwalk]
    · exact ⟨0, Nat.zero_le _, k + 1, hk, hz, fun _ => rfl⟩

theorem reduceLeftover_walk (hlo : leftover ≠ 0) (hn : L.length = count) {k : ℕ} (hk : k < count)
    (htot : total L ≠ 0) :
    ∃ c < count, ∃ (k' : ℕ) (hk' : k' < L.length), L[k'].2 ≠ 0 ∧
      ∀ fuel, reduceLeftover threshold count (fuel + c) (L, k, leftover) =
        reduceLeftover threshold count fuel (L, k', leftover) := by
  obtain ⟨p, hp, hpv⟩ := exists_snd_ne_zero htot
  have hkL : k < L.length := by rw [hn]; exact hk
  by_cases hbelow : ∃ (q : ℕ) (hq : q < L.length), q ≤ k ∧ L[q].2 ≠ 0
  · -- reached without wrapping
    obtain ⟨q, hq, hqk, hqv⟩ := hbelow
    obtain ⟨c, hc, rest⟩ := reduceLeftover_walk_down threshold hlo hq hqv k hqk hkL
    exact ⟨c, by omega, rest⟩
  · -- zeros down to `0`: wrap round, then down from `count - 1` to `p`
    simp only [not_exists, not_and, not_not] at hbelow
    have hpk : k < p := by
      by_contra hle
      exact hpv (hbelow p hp (by omega))
    obtain ⟨c, hc, k', hk', hv', hwalk⟩ :=
      reduceLeftover_walk_down threshold hlo hp hpv (count - 1) (by omega) (by omega)
    refine ⟨c + (k + 1), by omega, k', hk', hv', fun fuel => ?_⟩
    rw [← Nat.add_assoc, reduceLeftover_skip_to_last threshold hlo k hkL hbelow, hwalk]

end Walk

/-- The last loop ends within `leftover * count` steps, having taken exactly
`leftover`. -/
theorem reduceLeftover_spec (hn : count = input.length) (leftover : ℕ) :
    ∀ {L : Entries} {k fuel : ℕ}, Inv input (· ≥ ·) L → k < count → leftover ≤ total L →
      leftover * count ≤ fuel →
      ∃ L' k', reduceLeftover threshold count fuel (L, k, leftover) = some (L', k', 0) ∧
        Inv input (· ≥ ·) L' ∧ total L' + leftover = total L := by
  induction leftover with
  | zero =>
    intro L k fuel hL hk _ _
    exact ⟨L, k, reduceLeftover_of_zero threshold fuel L k, hL, rfl⟩
  | succ lo ih =>
    intro L k fuel hL hk hlo hfuel
    have hLn : L.length = count := by rw [hL.length_eq, hn]
    obtain ⟨c, hc, k', hk', hv', hwalk⟩ :=
      reduceLeftover_walk threshold (Nat.succ_ne_zero lo) hLn hk (by omega)
    -- the walk and one step taking one leave at least `lo * count`
    have hmul : (lo + 1) * count = lo * count + count := Nat.succ_mul lo count
    obtain ⟨f, rfl⟩ : ∃ f, fuel = f + 1 + c := ⟨fuel - c - 1, by omega⟩
    rw [hwalk, reduceLeftover_take threshold f (Nat.succ_ne_zero lo) hk' hv', Nat.succ_sub_one]
    have hset := total_set L hk' (L[k'].2 - 1)
    have hL' : Inv input (· ≥ ·) (L.set k' (L[k'].1, L[k'].2 - 1)) :=
      hL.set hk' (le_trans (Nat.sub_le _ _) (hL.rel _ (List.getElem_mem hk')))
    obtain ⟨L2, k2, h2, hL2, ht2⟩ :=
      @ih _ _ f hL' (ite_prevIndex_lt (L[k'].2 - 1 ≤ threshold) (hLn ▸ hk')) (by omega) (by omega)
    exact ⟨L2, k2, h2, hL2, by omega⟩

/-- The cursor on a zero, passed over before the two ones are taken; the
cursor wraps from `0` to `count - 1`. -/
example : reduceLeftover 1 3 6 ([(0, 1), (1, 1), (2, 0)], 2, 2) = some ([(0, 0), (1, 0), (2, 0)], 2, 0) := by
  decide

theorem reducePhase_spec {targetedSum leftover : ℕ} {L : Entries}
    (hL : Inv input (· ≥ ·) L) (hn : count = input.length) (hpos : 0 < count)
    (hdiff : targetedSum + (count * perRound + leftover) = total L)
    (hmax : total L ≤ Unsigned.maxValue w) :
    ∃ L', reducePhase w count perRound leftover L = some L' ∧
      Inv input (· ≥ ·) L' ∧ total L' = targetedSum := by
  have hLn : L.length = count := by rw [hL.length_eq, hn]
  have hhead : L.head? = some L[0] := by
    rw [List.head?_eq_getElem?, List.getElem?_eq_getElem]
  obtain ⟨L1, k1, lo1, h1, hL1, hk1, ht1⟩ : ∃ L1 k1 lo1,
      (if perRound ≠ 0 then reduceLoop w L[0].2 count perRound count (L, count - 1, leftover)
        else some (L, count - 1, leftover)) = some (L1, k1, lo1) ∧
      Inv input (· ≥ ·) L1 ∧ k1 < count ∧ total L1 + count * perRound + leftover = total L + lo1 := by
    by_cases h0 : perRound = 0
    · exact ⟨L, count - 1, leftover, if_neg (not_not.2 h0), hL, by omega, by simp [h0]⟩
    · rw [if_pos h0]
      exact reduceLoop_spec _ hn count hL (by omega) hmax (by omega)
  obtain ⟨L2, k2, h2, hL2, ht2⟩ :=
    reduceLeftover_spec L[0].2 hn lo1 hL1 hk1 (by omega) le_rfl
  refine ⟨L2, ?_, hL2, by omega⟩
  simp only [reducePhase, hhead, h1, Option.bind_some, h2, Option.map_some]

end Reduce

/-! ## Back in input order -/

section Output

variable {input : List ℕ} {r : ℕ → ℕ → Prop} {L : Entries}

theorem length_output (hL : Inv input r L) :
    ((L.mergeSort fun a b => a.1 ≤ b.1).map Prod.snd).length = input.length := by
  rw [List.length_map, IndexedList.length_mergeSort hL.perm]

theorem sum_output (L : Entries) :
    ((L.mergeSort fun a b => a.1 ≤ b.1).map Prod.snd).sum = total L :=
  IndexedList.sum_map_snd_mergeSort L

theorem rel_output (hL : Inv input r L) {i : ℕ}
    (hi : i < ((L.mergeSort fun a b => a.1 ≤ b.1).map Prod.snd).length) (hi' : i < input.length) :
    r input[i] ((L.mergeSort fun a b => a.1 ≤ b.1).map Prod.snd)[i] := by
  rw [List.length_map] at hi
  obtain ⟨e, he, he1, he2⟩ := IndexedList.exists_mem_of_lt_mergeSort hL.perm hi
  have hrel := hL.rel e he
  rw [he1, he2, List.getD_eq_getElem _ _ hi'] at hrel
  rw [List.getElem_map]
  exact hrel

end Output

end Normalize

open Normalize

/-- `normalize(input, targeted_sum)` for an unsigned `T` of `w` bits; `none`
is a panic, or the last loop running out of the fuel `leftover * count`,
which is enough (`reduceLeftover_spec`). -/
def normalize (w : ℕ) (input : List ℕ) (targetedSum : ℕ) : Option (Except String (List ℕ)) :=
  match input.foldlM (fun sum t => Unsigned.checkedAdd w sum t) 0 with
  | none => some (.error "sum of input cannot fit in `T`")
  | some sum =>
    let count := input.length
    if count > Unsigned.maxValue w then some (.error "length of `inputs` cannot fit in `T`")
    else if count = 0 then some (.ok [])
    else
      let diff := max targetedSum sum - min targetedSum sum
      if diff = 0 then some (.ok input)
      else
        let perRound := diff / count
        let leftover := diff % count
        let outputWithIdx := (input.mapIdx fun i t => (i, t)).mergeSort fun a b => a.2 ≤ b.2
        let output :=
          if targetedSum > sum then bumpPhase w targetedSum count perRound leftover outputWithIdx
          else reducePhase w count perRound leftover outputWithIdx
        output.map fun out => .ok ((out.mergeSort fun a b => a.1 ≤ b.1).map Prod.snd)


/-- `Normalizable<P> for Vec<P>`: the parts normalized in `P::Upper`
(`upperW` bits), each result brought back by
`from_parts(saturated_into::<P::Inner>())` (`innerW` bits). -/
def PerThing.normalize {accuracy : ℕ} (innerW upperW : ℕ) (xs : List (PerThing accuracy))
    (targetedSum : PerThing accuracy) : Option (Except String (List (PerThing accuracy))) :=
  (Arithmetic.normalize upperW (xs.map PerThing.parts) targetedSum.parts).map
    (Except.map (List.map fun i => PerThing.fromParts (Unsigned.saturatedInto innerW i)))

namespace Normalize

theorem foldlM_checkedAdd (w : ℕ) (l : List ℕ) {s : ℕ} (hs : s ≤ Unsigned.maxValue w) :
    l.foldlM (fun sum t => Unsigned.checkedAdd w sum t) s =
      if s + l.sum ≤ Unsigned.maxValue w then some (s + l.sum) else none := by
  induction l generalizing s with
  | nil => simp [hs]
  | cons a l ih =>
    rw [List.foldlM_cons, List.sum_cons]
    by_cases h : s + a ≤ Unsigned.maxValue w
    · have hs' : Unsigned.checkedAdd w s a = some (s + a) := Unsigned.checkedAdd_eq_some_iff.2 ⟨h, rfl⟩
      rw [hs', Option.bind_eq_bind, Option.bind_some, ih h, Nat.add_assoc]
    · -- once over, the sum stays over
      have hs' : Unsigned.checkedAdd w s a = none := Unsigned.checkedAdd_eq_none_iff.2 (by omega)
      rw [hs', if_neg (show ¬ s + (a + l.sum) ≤ _ by omega)]
      rfl

end Normalize

section Spec

variable {w targetedSum : ℕ} {input : List ℕ}

theorem normalize_of_sum_gt (h : Unsigned.maxValue w < input.sum) :
    normalize w input targetedSum = some (.error "sum of input cannot fit in `T`") := by
  rw [normalize, foldlM_checkedAdd w input (Nat.zero_le _),
    if_neg (show ¬ 0 + input.sum ≤ _ by omega)]

theorem normalize_of_length_gt (hs : input.sum ≤ Unsigned.maxValue w)
    (h : Unsigned.maxValue w < input.length) :
    normalize w input targetedSum = some (.error "length of `inputs` cannot fit in `T`") := by
  rw [normalize, foldlM_checkedAdd w input (Nat.zero_le _), if_pos (by omega)]
  simp only [gt_iff_lt, if_pos h]

theorem normalize_nil (w targetedSum : ℕ) : normalize w [] targetedSum = some (.ok []) := by
  simp [normalize]

/-- A sum and length that fit, a non-empty input and a target that is a `T`:
the output has the input's length, sums to the target, and moves every value
towards it. -/
theorem normalize_ok (hsum : input.sum ≤ Unsigned.maxValue w)
    (hlen : input.length ≤ Unsigned.maxValue w) (hne : input ≠ [])
    (ht : targetedSum ≤ Unsigned.maxValue w) :
    ∃ out, normalize w input targetedSum = some (.ok out) ∧ out.length = input.length ∧
      out.sum = targetedSum ∧
      ∀ i (h : i < out.length) (h' : i < input.length),
        (input.sum < targetedSum → input[i] ≤ out[i]) ∧ (targetedSum ≤ input.sum → out[i] ≤ input[i]) := by
  have hfold : input.foldlM (fun sum t => Unsigned.checkedAdd w sum t) 0 = some input.sum := by
    rw [foldlM_checkedAdd w input (Nat.zero_le _), if_pos (by omega), Nat.zero_add]
  have hpos : 0 < input.length := List.length_pos_iff.2 hne
  have hdm := Nat.div_add_mod (max targetedSum input.sum - min targetedSum input.sum) input.length
  -- `output_with_idx`, before either branch
  obtain ⟨L0, hL0⟩ : ∃ L0 : Normalize.Entries,
      L0 = (input.mapIdx fun i t => (i, t)).mergeSort fun a b => a.2 ≤ b.2 := ⟨_, rfl⟩
  have htot0 : total L0 = input.sum := by rw [hL0, total_outputWithIdx]
  rcases lt_trichotomy targetedSum input.sum with hlt | heq | hgt
  · -- down
    have hinv : Inv input (· ≥ ·) L0 := hL0 ▸ Inv.outputWithIdx fun x => le_refl x
    have hdiff : targetedSum + (input.length * ((max targetedSum input.sum - min targetedSum input.sum) /
        input.length) + (max targetedSum input.sum - min targetedSum input.sum) % input.length) =
        total L0 := by omega
    have hmax : total L0 ≤ Unsigned.maxValue w := by omega
    obtain ⟨L, hphase, hL, htot⟩ := reducePhase_spec hinv rfl hpos hdiff hmax
    refine ⟨_, ?_, length_output hL, by rw [sum_output, htot],
      fun i h h' => ⟨fun hgt => absurd hgt (by omega), fun _ => rel_output hL h h'⟩⟩
    simp only [normalize, hfold, gt_iff_lt, if_neg (show ¬ Unsigned.maxValue w < input.length by omega),
      if_neg (show input.length ≠ 0 by omega), if_neg (show ¬ input.sum < targetedSum by omega),
      if_neg (show max targetedSum input.sum - min targetedSum input.sum ≠ 0 by omega), ← hL0, hphase,
      Option.map_some]
  · -- already at the target
    subst heq
    refine ⟨input, ?_, rfl, rfl, fun i h h' => ⟨fun hlt => absurd hlt (lt_irrefl _), fun _ => le_rfl⟩⟩
    simp only [normalize, hfold, gt_iff_lt, if_neg (show ¬ Unsigned.maxValue w < input.length by omega),
      if_neg (show input.length ≠ 0 by omega), max_self, min_self, Nat.sub_self, if_true]
  · -- up
    have hinv : Inv input (· ≤ ·) L0 := hL0 ▸ Inv.outputWithIdx fun x => le_refl x
    have hdiff : total L0 + (input.length * ((max targetedSum input.sum - min targetedSum input.sum) /
        input.length) + (max targetedSum input.sum - min targetedSum input.sum) % input.length) =
        targetedSum := by omega
    obtain ⟨L, hphase, hL, htot⟩ := bumpPhase_spec hinv rfl hpos hdiff ht
    refine ⟨_, ?_, length_output hL, by rw [sum_output, htot],
      fun i h h' => ⟨fun _ => rel_output hL h h', fun hle => absurd hle (by omega)⟩⟩
    simp only [normalize, hfold, gt_iff_lt, if_neg (show ¬ Unsigned.maxValue w < input.length by omega),
      if_neg (show input.length ≠ 0 by omega), if_pos hgt,
      if_neg (show max targetedSum input.sum - min targetedSum input.sum ≠ 0 by omega), ← hL0, hphase,
      Option.map_some]

theorem normalize_error_iff (ht : targetedSum ≤ Unsigned.maxValue w) :
    (∃ e, normalize w input targetedSum = some (.error e)) ↔
      Unsigned.maxValue w < input.sum ∨ Unsigned.maxValue w < input.length := by
  constructor
  · rintro ⟨e, he⟩
    by_contra hfit
    simp only [not_or, not_lt] at hfit
    rcases eq_or_ne input [] with rfl | hne
    · rw [normalize_nil] at he
      cases he
    · obtain ⟨out, hout, -⟩ := normalize_ok hfit.1 hfit.2 hne ht
      rw [hout] at he
      cases he
  · rintro (hs | hl)
    · exact ⟨_, normalize_of_sum_gt hs⟩
    · by_cases hs : input.sum ≤ Unsigned.maxValue w
      · exact ⟨_, normalize_of_length_gt hs hl⟩
      · exact ⟨_, normalize_of_sum_gt (by omega)⟩

theorem normalize_ne_none (ht : targetedSum ≤ Unsigned.maxValue w) :
    normalize w input targetedSum ≠ none := by
  by_cases hover : Unsigned.maxValue w < input.sum ∨ Unsigned.maxValue w < input.length
  · obtain ⟨e, he⟩ := (normalize_error_iff ht).2 hover
    rw [he]
    exact Option.some_ne_none _
  · simp only [not_or, not_lt] at hover
    rcases eq_or_ne input [] with rfl | hne
    · rw [normalize_nil]
      exact Option.some_ne_none _
    · obtain ⟨out, hout, -⟩ := normalize_ok hover.1 hover.2 hne ht
      rw [hout]
      exact Option.some_ne_none _

end Spec

/-- The `PerThing` instance: for a non-empty input, the parts of a result
sum to the target's parts. Every value of the output is below the target's
parts, so neither `saturated_into` nor `from_parts` clamps it. -/
theorem PerThing.sum_parts_normalize {accuracy innerW upperW : ℕ} {xs : List (PerThing accuracy)}
    {targetedSum : PerThing accuracy} {ps : List (PerThing accuracy)}
    (hacc : accuracy ≤ Unsigned.maxValue innerW)
    (hup : Unsigned.maxValue innerW ≤ Unsigned.maxValue upperW) (hne : xs ≠ [])
    (h : PerThing.normalize innerW upperW xs targetedSum = some (.ok ps)) :
    (ps.map PerThing.parts).sum = targetedSum.parts := by
  have ht : targetedSum.parts ≤ Unsigned.maxValue upperW :=
    le_trans targetedSum.le_accuracy (le_trans hacc hup)
  -- an `Ok` means the sum and the length were `T`s
  have hfit : ¬ (Unsigned.maxValue upperW < (xs.map PerThing.parts).sum ∨
      Unsigned.maxValue upperW < (xs.map PerThing.parts).length) := by
    intro hover
    obtain ⟨e, he⟩ := (normalize_error_iff ht).2 hover
    rw [PerThing.normalize, he] at h
    cases h
  simp only [not_or, not_lt] at hfit
  obtain ⟨out, hout, -, hsum, -⟩ :=
    normalize_ok hfit.1 hfit.2 (by simpa using hne) ht
  rw [PerThing.normalize, hout] at h
  simp only [Option.map_some, Except.map, Option.some.injEq, Except.ok.injEq] at h
  subst h
  have hback : ∀ i ∈ out,
      (PerThing.fromParts (Unsigned.saturatedInto innerW i) : PerThing accuracy).parts = i := by
    intro i hi
    have hle : i ≤ targetedSum.parts := hsum ▸ List.le_sum_of_mem hi
    have hacc' := targetedSum.le_accuracy
    rw [Unsigned.saturatedInto_of_le (by omega)]
    exact min_eq_left (by omega)
  rw [List.map_map, List.map_congr_left (g := id)
    (f := PerThing.parts ∘ fun i => PerThing.fromParts (Unsigned.saturatedInto innerW i)) hback,
    List.map_id, hsum]

theorem normalize_reaches_target (w : ℕ) (input : List ℕ) (targetedSum : ℕ)
    (ht : targetedSum ≤ Unsigned.maxValue w) :
    normalize w input targetedSum ≠ none ∧
    ((∃ e, normalize w input targetedSum = some (.error e)) ↔
      Unsigned.maxValue w < input.sum ∨ Unsigned.maxValue w < input.length) ∧
    normalize w [] targetedSum = some (.ok []) ∧
    (input.sum ≤ Unsigned.maxValue w → input.length ≤ Unsigned.maxValue w → input ≠ [] →
      ∃ out, normalize w input targetedSum = some (.ok out) ∧ out.length = input.length ∧
        out.sum = targetedSum ∧
        ∀ i (h : i < out.length) (h' : i < input.length),
          (input.sum < targetedSum → input[i] ≤ out[i]) ∧
            (targetedSum ≤ input.sum → out[i] ≤ input[i])) ∧
    (∀ (accuracy innerW upperW : ℕ) (xs ps : List (PerThing accuracy)) (target : PerThing accuracy),
      accuracy ≤ Unsigned.maxValue innerW → Unsigned.maxValue innerW ≤ Unsigned.maxValue upperW →
      xs ≠ [] → PerThing.normalize innerW upperW xs target = some (.ok ps) →
      (ps.map PerThing.parts).sum = target.parts) :=
  ⟨normalize_ne_none ht, normalize_error_iff ht, normalize_nil w targetedSum,
    fun hsum hlen hne => normalize_ok hsum hlen hne ht,
    fun _ _ _ _ _ _ hacc hup hne h => PerThing.sum_parts_normalize hacc hup hne h⟩

theorem normalize_reaches_target_three_one :
    6 ≤ Unsigned.maxValue 8 ∧
    (normalize 8 [3, 1] 6 ≠ none ∧
    ((∃ e, normalize 8 [3, 1] 6 = some (.error e)) ↔
      Unsigned.maxValue 8 < [3, 1].sum ∨ Unsigned.maxValue 8 < [3, 1].length) ∧
    normalize 8 [] 6 = some (.ok []) ∧
    ([3, 1].sum ≤ Unsigned.maxValue 8 → [3, 1].length ≤ Unsigned.maxValue 8 → [3, 1] ≠ [] →
      ∃ out, normalize 8 [3, 1] 6 = some (.ok out) ∧ out.length = [3, 1].length ∧
        out.sum = 6 ∧
        ∀ i (h : i < out.length) (h' : i < [3, 1].length),
          ([3, 1].sum < 6 → [3, 1][i] ≤ out[i]) ∧ (6 ≤ [3, 1].sum → out[i] ≤ [3, 1][i])) ∧
    (∀ (accuracy innerW upperW : ℕ) (xs ps : List (PerThing accuracy)) (target : PerThing accuracy),
      accuracy ≤ Unsigned.maxValue innerW → Unsigned.maxValue innerW ≤ Unsigned.maxValue upperW →
      xs ≠ [] → PerThing.normalize innerW upperW xs target = some (.ok ps) →
      (ps.map PerThing.parts).sum = target.parts)) :=
  ⟨by decide, normalize_reaches_target 8 [3, 1] 6 (by decide)⟩

/-- An empty input is returned as it is, whatever the target. -/
theorem normalize_empty_misses_target :
    normalize 8 [] 5 = some (.ok []) ∧ ([] : List ℕ).sum ≠ 5 :=
  ⟨rfl, by decide⟩

end SocialNetwork.Arithmetic
