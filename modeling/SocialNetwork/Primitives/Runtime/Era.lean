import SocialNetwork.Lib.Unsigned

/-!
# Transaction eras

`Era` of `sp_runtime::generic`: a transaction is immortal, or valid for a
period of blocks that `mortal` rounds up to a power of two from `4` to
`65536`, from a phase that it rounds down to a multiple of `period >> 12`.
The encoding is one zero byte, or a little-endian `u16` with
`log2 period - 1` in its low four bits and the phase in quantize steps
above. It is a bijection between the eras it represents (`Valid`) and the
bytes that decoding accepts (`decode_encode`, `encode_decode`).

The lifetime of an era made at block `current` runs from its `birth` to its
`death`, with `current` less than one quantize step past the birth, and
every block of it has the same birth (`mortal_era_lifetime`).
-/

namespace SocialNetwork.Runtime

open Unsigned

/-- `Era`: a transaction valid forever, or for `period` blocks from the
first block of its period at `phase`. -/
inductive Era where
  | Immortal
  | Mortal (period phase : ℕ)
  deriving DecidableEq, Repr

namespace Era

/-- `Era::mortal`: the period rounded up to a power of two and clamped to
`4 ..= 65536`, the phase `current % period` rounded down to a multiple of
`period >> 12`. -/
def mortal (period current : ℕ) : Era :=
  let period := min (max ((checkedNextPowerOfTwo 64 period).getD (1 <<< 16)) 4) (1 <<< 16)
  let phase := current % period
  let quantizeFactor := max (period >>> 12) 1
  let quantizedPhase := phase / quantizeFactor * quantizeFactor
  Mortal period quantizedPhase

/-- `Era::birth`: the first block of the period that `current` is in. -/
def birth (e : Era) (current : ℕ) : ℕ :=
  match e with
  | Immortal => 0
  | Mortal period phase => (max current phase - phase) / period * period + phase

/-- `Era::death`: the first block after the period; `+` wraps. -/
def death (e : Era) (current : ℕ) : ℕ :=
  match e with
  | Immortal => maxValue 64
  | Mortal period _ => wrappingAdd 64 (e.birth current) period

/-- `Encode for Era`: one zero byte, or a little-endian `u16` with
`log2 period - 1` in its low four bits and the quantized phase above. -/
def encode : Era → List UInt8
  | Immortal => [0]
  | Mortal period phase =>
    let quantizeFactor := max (period >>> 12) 1
    let encoded := min (max (wrappingSub 32 (trailingZeros 64 period) 1) 1) 15 % 2 ^ 16 |||
      ((phase / quantizeFactor) <<< 4) % 2 ^ 16
    [UInt8.ofNat encoded, UInt8.ofNat (encoded >>> 8)]

/-- `Decode for Era`, reading from the front of the input; the rest of the
input is returned. -/
def decode : List UInt8 → Except String (Era × List UInt8)
  | [] => .error "Not enough data to fill buffer"
  | first :: rest =>
    if first = 0 then .ok (Immortal, rest) else
    match rest with
    | [] => .error "Not enough data to fill buffer"
    | second :: rest =>
      let encoded := first.toNat + (second.toNat <<< 8)
      let period := 2 <<< (encoded % (1 <<< 4))
      let quantizeFactor := max (period >>> 12) 1
      let phase := (encoded >>> 4) * quantizeFactor
      if period ≥ 4 ∧ phase < period then .ok (Mortal period phase, rest)
      else .error "Invalid period and phase"


/-! ## The quantize factor -/

section Quantize

variable {e : ℕ}

/-- For a period `2 ^ e` of `4 ..= 65536`, the quantize factor divides it
and leaves at most `4096` steps of phase. -/
theorem quantizeFactor_spec (he : e ≤ 16) :
    0 < max (2 ^ e >>> 12) 1 ∧ 2 ^ e ≤ 4096 * max (2 ^ e >>> 12) 1 ∧ max (2 ^ e >>> 12) 1 ≤ 2 ^ e := by
  rw [Nat.shiftRight_eq_div_pow]
  by_cases h12 : 12 ≤ e
  · -- a long period: the factor is `2 ^ (e - 12)`
    have hdiv : 2 ^ e / 2 ^ 12 = 2 ^ (e - 12) := Nat.pow_div h12 (by norm_num)
    have hsplit : 2 ^ e = 2 ^ 12 * 2 ^ (e - 12) := by rw [← pow_add]; congr 1; omega
    have hpos : 1 ≤ 2 ^ (e - 12) := Nat.one_le_two_pow
    rw [hdiv, max_eq_left hpos]
    refine ⟨hpos, by rw [hsplit]; norm_num, ?_⟩
    rw [hsplit]
    exact Nat.le_mul_of_pos_left _ (by norm_num)
  · -- a short period: the factor is one
    have hlt : 2 ^ e < 2 ^ 12 := Nat.pow_lt_pow_right (by norm_num) (by omega)
    rw [Nat.div_eq_of_lt hlt]
    have : 1 ≤ 2 ^ e := Nat.one_le_two_pow
    simp only [zero_le, max_eq_right]
    omega

end Quantize

/-! ## The encoding -/

/-- The eras the two-byte encoding represents: immortal, or a period `2 ^ e`
with `2 ≤ e ≤ 16` and a phase below it that the quantize factor divides. -/
def Valid : Era → Prop
  | Immortal => True
  | Mortal period phase =>
    ∃ e < 17, 2 ≤ e ∧ period = 2 ^ e ∧ phase < period ∧ max (period >>> 12) 1 ∣ phase

instance : DecidablePred Valid
  | Immortal => isTrue trivial
  | Mortal period phase => inferInstanceAs (Decidable
      (∃ e < 17, 2 ≤ e ∧ period = 2 ^ e ∧ phase < period ∧ max (period >>> 12) 1 ∣ phase))

example : (Mortal 64 42).Valid := by decide
example : ¬(Mortal 8192 3).Valid := by decide

theorem decode_cons_zero (rest : List UInt8) : decode (0 :: rest) = .ok (Immortal, rest) := rfl

/-- The `u16` of a mortal era: `e - 1` in the low four bits, the phase in
quantize steps above. -/
theorem encode_mortal {e phase : ℕ} (he : 2 ≤ e ∧ e ≤ 16) (hq : phase / max (2 ^ e >>> 12) 1 < 4096) :
    (Mortal (2 ^ e) phase).encode =
      [UInt8.ofNat (16 * (phase / max (2 ^ e >>> 12) 1) + (e - 1)),
        UInt8.ofNat ((16 * (phase / max (2 ^ e >>> 12) 1) + (e - 1)) >>> 8)] := by
  have htz : trailingZeros 64 (2 ^ e) = e := trailingZeros_two_pow (by omega)
  have hlow : min (max (wrappingSub 32 e 1) 1) 15 = e - 1 := by
    rw [wrappingSub_of_le (by omega) (by calc e < 2 ^ e := Nat.lt_two_pow_self
      _ ≤ 2 ^ 32 := Nat.pow_le_pow_right (by norm_num) (by omega))]
    omega
  have hshift : (phase / max (2 ^ e >>> 12) 1) <<< 4 % 2 ^ 16 = (phase / max (2 ^ e >>> 12) 1) <<< 4 := by
    rw [Nat.shiftLeft_eq]; exact Nat.mod_eq_of_lt (by omega)
  have hor : (e - 1) % 2 ^ 16 ||| (phase / max (2 ^ e >>> 12) 1) <<< 4 =
      16 * (phase / max (2 ^ e >>> 12) 1) + (e - 1) := by
    rw [Nat.mod_eq_of_lt (by omega), Nat.lor_comm, ← Nat.shiftLeft_add_eq_or_of_lt (by omega),
      Nat.shiftLeft_eq]
    ring
  simp only [encode, htz, hlow, hshift, hor]

theorem toNat_le_bytes {E : ℕ} (hE : E < 2 ^ 16) :
    (UInt8.ofNat E).toNat + ((UInt8.ofNat (E >>> 8)).toNat <<< 8) = E := by
  simp only [UInt8.toNat_ofNat', Nat.shiftRight_eq_div_pow, Nat.shiftLeft_eq]
  omega

theorem decode_encode_mortal {e phase : ℕ} (he : 2 ≤ e ∧ e ≤ 16) (hph : phase < 2 ^ e)
    (hdvd : max (2 ^ e >>> 12) 1 ∣ phase) (rest : List UInt8) :
    decode ((Mortal (2 ^ e) phase).encode ++ rest) = .ok (Mortal (2 ^ e) phase, rest) := by
  obtain ⟨hqf, hsteps, -⟩ := quantizeFactor_spec he.2
  have hq : phase / max (2 ^ e >>> 12) 1 < 4096 := (Nat.div_lt_iff_lt_mul hqf).2 (by omega)
  rw [encode_mortal he hq]
  -- the `u16` and its two bytes
  set q := phase / max (2 ^ e >>> 12) 1 with hq_def
  have hE : 16 * q + (e - 1) < 2 ^ 16 := by omega
  have hfirst : UInt8.ofNat (16 * q + (e - 1)) ≠ 0 := by
    intro h
    have h' := congrArg UInt8.toNat h
    simp only [UInt8.toNat_ofNat', UInt8.toNat_zero] at h'
    omega
  have hperiod : 2 <<< ((16 * q + (e - 1)) % (1 <<< 4)) = 2 ^ e := by
    have hmod : (16 * q + (e - 1)) % (1 <<< 4) = e - 1 := by
      rw [Nat.one_shiftLeft]; omega
    rw [hmod, Nat.shiftLeft_eq, ← Nat.pow_succ']
    congr 1; omega
  have hphase : (16 * q + (e - 1)) >>> 4 * max (2 ^ e >>> 12) 1 = phase := by
    rw [Nat.shiftRight_eq_div_pow, show (16 * q + (e - 1)) / 2 ^ 4 = q by omega, hq_def]
    exact Nat.div_mul_cancel hdvd
  have hlow : (4 : ℕ) ≤ 2 ^ e := by
    calc (4 : ℕ) = 2 ^ 2 := by norm_num
      _ ≤ 2 ^ e := Nat.pow_le_pow_right (by norm_num) he.1
  simp only [List.cons_append, List.nil_append, decode, if_neg hfirst, toNat_le_bytes hE, hperiod,
    hphase, if_pos (And.intro hlow hph)]

/-- **Round trip.** Decoding reads back every era the encoding represents,
and leaves the bytes after it. -/
theorem decode_encode {era : Era} (hv : era.Valid) (rest : List UInt8) :
    decode (era.encode ++ rest) = .ok (era, rest) := by
  cases era with
  | Immortal => rfl
  | Mortal period phase =>
    obtain ⟨e, he17, he2, rfl, hph, hdvd⟩ := hv
    exact decode_encode_mortal ⟨he2, by omega⟩ hph hdvd rest

/-- **What is accepted is an encoding.** Whatever decoding accepts is an era
the encoding represents, written exactly as the bytes it was read from. -/
theorem encode_decode {bytes rest : List UInt8} {era : Era} (h : decode bytes = .ok (era, rest)) :
    era.Valid ∧ bytes = era.encode ++ rest := by
  cases bytes with
  | nil => simp [decode] at h
  | cons first rest' =>
    by_cases h0 : first = 0
    · -- the immortal era is the byte zero
      subst h0
      simp only [decode, if_pos, Except.ok.injEq, Prod.mk.injEq] at h
      obtain ⟨rfl, rfl⟩ := h
      exact ⟨trivial, rfl⟩
    · cases rest' with
      | nil => simp [decode, h0] at h
      | cons second rest' =>
        simp only [decode, if_neg h0] at h
        split_ifs at h with hok
        simp only [Except.ok.injEq, Prod.mk.injEq] at h
        obtain ⟨rfl, rfl⟩ := h
        -- the `u16`, its low four bits and the phase steps above them
        set E := first.toNat + (second.toNat <<< 8) with hE_def
        have hE : E < 2 ^ 16 := by
          have h1 := first.toNat_lt; have h2 := second.toNat_lt
          rw [hE_def, Nat.shiftLeft_eq]; omega
        have hperiod : 2 <<< (E % (1 <<< 4)) = 2 ^ (E % 16 + 1) := by
          rw [show (1 : ℕ) <<< 4 = 16 from rfl, Nat.shiftLeft_eq, Nat.pow_succ']
        rw [hperiod] at hok ⊢
        have he2 : 2 ≤ E % 16 + 1 := by
          by_contra hlt
          have : E % 16 = 0 := by omega
          rw [this] at hok
          exact absurd hok.1 (by norm_num)
        obtain ⟨hqf, -, -⟩ := quantizeFactor_spec (e := E % 16 + 1) (by omega)
        have hq : (E >>> 4) * max (2 ^ (E % 16 + 1) >>> 12) 1 / max (2 ^ (E % 16 + 1) >>> 12) 1 = E >>> 4 :=
          Nat.mul_div_cancel _ hqf
        refine ⟨⟨E % 16 + 1, by omega, he2, rfl, hok.2, Dvd.intro_left _ rfl⟩, ?_⟩
        have hsteps : E >>> 4 < 4096 := by rw [Nat.shiftRight_eq_div_pow]; omega
        rw [encode_mortal ⟨he2, by omega⟩ (by rw [hq]; exact hsteps), hq]
        have hbits : 16 * (E >>> 4) + (E % 16 + 1 - 1) = E := by
          rw [Nat.shiftRight_eq_div_pow]; omega
        rw [hbits]
        have h1 := first.toNat_lt; have h2 := second.toNat_lt
        simp only [List.cons_append, List.nil_append, List.cons.injEq, and_true]
        constructor
        · apply UInt8.toNat_inj.1
          rw [UInt8.toNat_ofNat', hE_def, Nat.shiftLeft_eq]
          omega
        · apply UInt8.toNat_inj.1
          rw [UInt8.toNat_ofNat', hE_def, Nat.shiftLeft_eq, Nat.shiftRight_eq_div_pow]
          omega

/-! ## Birth and death -/

section Lifetime

variable {period phase current : ℕ}

/-- The birth of a mortal era at a block whose offset in the period is past
the phase. -/
theorem birth_mortal (hp : 0 < period) (hph : phase ≤ current % period) :
    (Mortal period phase).birth current = current / period * period + phase := by
  have hle : phase ≤ current := le_trans hph (Nat.mod_le _ _)
  have hsplit := Nat.div_add_mod' current period
  have hquot : (current - phase) / period = current / period := by
    apply Nat.div_eq_of_lt_le
    · omega
    · rw [Nat.succ_mul]
      have := Nat.mod_lt current hp
      omega
  simp only [birth, max_eq_left hle, hquot]

theorem birth_mortal_of_mem (hp : 0 < period) (hph : phase ≤ current % period) {c : ℕ}
    (hlo : (Mortal period phase).birth current ≤ c) (hhi : c < (Mortal period phase).birth current + period) :
    (Mortal period phase).birth c = (Mortal period phase).birth current := by
  rw [birth_mortal hp hph] at hlo hhi ⊢
  have hquot : (c - phase) / period = current / period := by
    apply Nat.div_eq_of_lt_le
    · omega
    · rw [Nat.succ_mul]; omega
  simp only [birth, max_eq_left (show phase ≤ c by omega), hquot]

end Lifetime

/-! ## `mortal` -/

theorem clamped_period (period : ℕ) :
    ∃ e, 2 ≤ e ∧ e ≤ 16 ∧
      min (max ((checkedNextPowerOfTwo 64 period).getD (1 <<< 16)) 4) (1 <<< 16) = 2 ^ e := by
  cases h : checkedNextPowerOfTwo 64 period with
  | none => exact ⟨16, by norm_num, le_refl _, rfl⟩
  | some p =>
    obtain ⟨k, -, rfl, -⟩ := checkedNextPowerOfTwo_eq_some h
    refine ⟨min (max k 2) 16, by omega, by omega, ?_⟩
    have hmono : Monotone (fun k : ℕ => 2 ^ k) := pow_right_mono₀ (by norm_num)
    simp only [Option.getD_some, show (4 : ℕ) = 2 ^ 2 from rfl, show (1 : ℕ) <<< 16 = 2 ^ 16 from rfl]
    rw [← hmono.map_max, ← hmono.map_min]

/-- `mortal` builds a valid era: its period is `2 ^ e` and its phase the
offset of `current` in the period, rounded down to the quantize factor. -/
theorem mortal_eq (period current : ℕ) :
    ∃ e, 2 ≤ e ∧ e ≤ 16 ∧ mortal period current =
      Mortal (2 ^ e) (current % 2 ^ e / max (2 ^ e >>> 12) 1 * max (2 ^ e >>> 12) 1) := by
  obtain ⟨e, he2, he16, hclamp⟩ := clamped_period period
  exact ⟨e, he2, he16, by simp only [mortal, hclamp]⟩

theorem mortal_valid (period current : ℕ) : (mortal period current).Valid := by
  obtain ⟨e, he2, he16, heq⟩ := mortal_eq period current
  rw [heq]
  have hlt : current % 2 ^ e < 2 ^ e := Nat.mod_lt _ (Nat.two_pow_pos e)
  exact ⟨e, by omega, he2, rfl, lt_of_le_of_lt (Nat.div_mul_le_self _ _) hlt, Dvd.intro_left _ rfl⟩

example : mortal 64 42 = Mortal 64 42 := by decide
example : mortal 200 513 = Mortal 256 1 := by decide

/-- An era made by `mortal` at block `current` has a power-of-two period from
`4` to `65536` and a phase inside it, decodes from its encoding, and lives
from its birth, at most `current` and less than a quantize step before it,
to its death a period later; every block of its life has the same birth. -/
theorem mortal_era_lifetime (period current : ℕ) (hc : current + 2 ^ 16 < 2 ^ 64) :
    ∃ p ph, mortal period current = Mortal p ph ∧ (∃ k, p = 2 ^ k) ∧ 4 ≤ p ∧ p ≤ 65536 ∧ ph < p ∧
      (∀ rest, decode ((Mortal p ph).encode ++ rest) = .ok (Mortal p ph, rest)) ∧
      (Mortal p ph).birth current ≤ current ∧ current < (Mortal p ph).death current ∧
      (Mortal p ph).death current = (Mortal p ph).birth current + p ∧
      current - (Mortal p ph).birth current < max (p >>> 12) 1 ∧
      ∀ c, (Mortal p ph).birth current ≤ c → c < (Mortal p ph).death current →
        (Mortal p ph).birth c = (Mortal p ph).birth current := by
  obtain ⟨e, he2, he16, heq⟩ := mortal_eq period current
  obtain ⟨hqf, -, -⟩ := quantizeFactor_spec he16
  have hvalid := mortal_valid period current
  rw [heq] at hvalid
  set qf := max (2 ^ e >>> 12) 1
  -- the offset in the period, and the phase below it by less than a step
  have hp : 0 < 2 ^ e := Nat.two_pow_pos e
  have hr : current % 2 ^ e < 2 ^ e := Nat.mod_lt _ hp
  have hph : current % 2 ^ e / qf * qf ≤ current % 2 ^ e := Nat.div_mul_le_self _ _
  have hgap : current % 2 ^ e - current % 2 ^ e / qf * qf < qf := by
    have := Nat.div_add_mod' (current % 2 ^ e) qf
    have := Nat.mod_lt (current % 2 ^ e) hqf
    omega
  have hbirth := birth_mortal hp hph
  have hsplit := Nat.div_add_mod' current (2 ^ e)
  have hp16 : 2 ^ e ≤ 2 ^ 16 := Nat.pow_le_pow_right (by norm_num) he16
  have hdeath : (Mortal (2 ^ e) (current % 2 ^ e / qf * qf)).death current =
      (Mortal (2 ^ e) (current % 2 ^ e / qf * qf)).birth current + 2 ^ e :=
    wrappingAdd_of_lt (by rw [hbirth]; omega)
  refine ⟨2 ^ e, current % 2 ^ e / qf * qf, heq, ⟨e, rfl⟩, ?_, hp16, lt_of_le_of_lt hph hr,
    decode_encode hvalid, by rw [hbirth]; omega, by rw [hdeath, hbirth]; omega, hdeath,
    by rw [hbirth]; omega, fun c hlo hhi => birth_mortal_of_mem hp hph hlo (hdeath ▸ hhi)⟩
  calc (4 : ℕ) = 2 ^ 2 := by norm_num
    _ ≤ 2 ^ e := Nat.pow_le_pow_right (by norm_num) he2

theorem mortal_era_lifetime_sixty_four : (42 : ℕ) + 2 ^ 16 < 2 ^ 64 ∧
    ∃ p ph, mortal 64 42 = Mortal p ph ∧ (∃ k, p = 2 ^ k) ∧ 4 ≤ p ∧ p ≤ 65536 ∧ ph < p ∧
      (∀ rest, decode ((Mortal p ph).encode ++ rest) = .ok (Mortal p ph, rest)) ∧
      (Mortal p ph).birth 42 ≤ 42 ∧ 42 < (Mortal p ph).death 42 ∧
      (Mortal p ph).death 42 = (Mortal p ph).birth 42 + p ∧
      42 - (Mortal p ph).birth 42 < max (p >>> 12) 1 ∧
      ∀ c, (Mortal p ph).birth 42 ≤ c → c < (Mortal p ph).death 42 →
        (Mortal p ph).birth c = (Mortal p ph).birth 42 :=
  ⟨by norm_num, mortal_era_lifetime 64 42 (by norm_num)⟩

end Era
end SocialNetwork.Runtime
