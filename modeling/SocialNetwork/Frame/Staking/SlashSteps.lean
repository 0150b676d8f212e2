import SocialNetwork.Frame.Staking.SpanSlash

/-!
# What each step of the slashing does to a stash's storage

The invariant of a stash `s` (`Tracks`) reads three parts of the storage: the
spans of `s`, their records, and the era slashes of `s`. `SameView` says two
states agree on them. Every write of the slashing either keeps them or
touches a stash's own entries (the `sameView_*` lemmas), so a call about
another stash keeps the view of `s`.

For the stash itself, each step is stated as an equation:
* `fetch_spans` stores the spans it returns (`fetchSpans_eq`);
* `compare_and_update_span_slash` writes `SpanRecord.afterReport` to the
  record of the span that holds the era, and adds `SpanRecord.reportAmount`
  to the slash, touching the spans only when it marks them dirty
  (`compareAndUpdateSpanSlash_of_eraSpan`);
* `Drop` writes back the pruned spans and removes the records of the dropped
  ones (`Tracked.drop`).
-/

namespace SocialNetwork.Staking

open Arithmetic Unsigned

variable {AccountId : Type} [DecidableEq AccountId]

/-! ## Storage writes -/

namespace SlashingState

variable (st : SlashingState AccountId)

@[simp] theorem setSlashingSpans_slashingSpans (stash : AccountId) (spans : SlashingSpans) :
    (st.setSlashingSpans stash spans).slashingSpans =
      Function.update st.slashingSpans stash (some spans) := rfl

@[simp] theorem setSlashingSpans_spanSlash (stash : AccountId) (spans : SlashingSpans) :
    (st.setSlashingSpans stash spans).spanSlash = st.spanSlash := rfl

@[simp] theorem setSpanSlash_slashingSpans (key : AccountId × ℕ) (record : SpanRecord) :
    (st.setSpanSlash key record).slashingSpans = st.slashingSpans := rfl

@[simp] theorem setSpanSlash_spanSlash (key : AccountId × ℕ) (record : SpanRecord) :
    (st.setSpanSlash key record).spanSlash = Function.update st.spanSlash key record := rfl

@[simp] theorem setValidatorSlashInEra_slashingSpans (era : ℕ) (stash : AccountId) (v : Perbill × ℕ) :
    (st.setValidatorSlashInEra era stash v).slashingSpans = st.slashingSpans := rfl

@[simp] theorem setValidatorSlashInEra_spanSlash (era : ℕ) (stash : AccountId) (v : Perbill × ℕ) :
    (st.setValidatorSlashInEra era stash v).spanSlash = st.spanSlash := rfl

@[simp] theorem setNominatorSlashInEra_slashingSpans (era : ℕ) (stash : AccountId) (v : ℕ) :
    (st.setNominatorSlashInEra era stash v).slashingSpans = st.slashingSpans := rfl

@[simp] theorem setNominatorSlashInEra_spanSlash (era : ℕ) (stash : AccountId) (v : ℕ) :
    (st.setNominatorSlashInEra era stash v).spanSlash = st.spanSlash := rfl

theorem setSlashingSpans_of_eq {stash : AccountId} {spans : SlashingSpans}
    (h : st.slashingSpans stash = some spans) : st.setSlashingSpans stash spans = st := by
  have hupdate : Function.update st.slashingSpans stash (some spans) = st.slashingSpans :=
    Function.update_eq_self_iff.mpr h.symm
  cases st
  simp only [setSlashingSpans] at hupdate ⊢
  rw [hupdate]

theorem setSpanSlash_self (key : AccountId × ℕ) : st.setSpanSlash key (st.spanSlash key) = st := by
  cases st
  simp [setSpanSlash]

/-- `chill_stash` and `disable_validator` touch only `Validators`,
`Nominators` and `ForceEra`. -/
theorem chillAndDisable_eq (T : SlashConfig AccountId) (stash : AccountId) :
    ∃ validators nominators forceEra, chillAndDisable T stash st =
      { st with validators := validators, nominators := nominators, forceEra := forceEra } := by
  unfold chillAndDisable ensureNewEra chillStash
  dsimp only
  split_ifs
  · split <;> exact ⟨_, _, _, rfl⟩
  · exact ⟨_, _, _, rfl⟩

@[simp] theorem chillAndDisable_slashingSpans (T : SlashConfig AccountId) (stash : AccountId) :
    (chillAndDisable T stash st).slashingSpans = st.slashingSpans := by
  obtain ⟨_, _, _, h⟩ := st.chillAndDisable_eq T stash
  rw [h]

@[simp] theorem chillAndDisable_spanSlash (T : SlashConfig AccountId) (stash : AccountId) :
    (chillAndDisable T stash st).spanSlash = st.spanSlash := by
  obtain ⟨_, _, _, h⟩ := st.chillAndDisable_eq T stash
  rw [h]

end SlashingState

namespace InspectingSpans

theorem removeSpanSlashes_eq (stash : AccountId) (indices : List ℕ) (st : SlashingState AccountId) :
    removeSpanSlashes stash indices st =
      { st with spanSlash := fun key =>
          if key.1 = stash ∧ key.2 ∈ indices then default else st.spanSlash key } := by
  induction indices generalizing st with
  | nil => simp [removeSpanSlashes]
  | cons i rest ih =>
    rw [removeSpanSlashes, ih]
    congr 1
    funext key
    by_cases hkey : key = (stash, i)
    · subst hkey
      simp
    · have hne : key.1 = stash → key.2 ≠ i := fun h1 h2 => hkey (Prod.ext h1 h2)
      by_cases h1 : key.1 = stash
      · simp [h1, hne h1, Function.update_of_ne hkey]
      · simp [h1, Function.update_of_ne hkey]

end InspectingSpans

namespace Role

variable (role : Role) (st : SlashingState AccountId)

@[simp] theorem eraSlash_setSlashingSpans (stash : AccountId) (spans : SlashingSpans) :
    role.eraSlash (st.setSlashingSpans stash spans) = role.eraSlash st := by
  cases role <;> rfl

@[simp] theorem eraSlash_setSpanSlash (key : AccountId × ℕ) (record : SpanRecord) :
    role.eraSlash (st.setSpanSlash key record) = role.eraSlash st := by
  cases role <;> rfl

@[simp] theorem eraSlash_chillAndDisable (T : SlashConfig AccountId) (stash : AccountId) :
    role.eraSlash (chillAndDisable T stash st) = role.eraSlash st := by
  obtain ⟨_, _, _, h⟩ := st.chillAndDisable_eq T stash
  rw [h]
  cases role <;> rfl

@[simp] theorem eraSlash_removeSpanSlashes (stash : AccountId) (indices : List ℕ) :
    role.eraSlash (InspectingSpans.removeSpanSlashes stash indices st) = role.eraSlash st := by
  rw [InspectingSpans.removeSpanSlashes_eq]
  cases role <;> rfl

theorem eraSlash_setValidatorSlashInEra (era : ℕ) (stash : AccountId) (v : Perbill × ℕ)
    (e : ℕ) (s : AccountId) :
    Role.validator.eraSlash (st.setValidatorSlashInEra era stash v) e s =
      if e = era ∧ s = stash then v.2 else Role.validator.eraSlash st e s := by
  unfold eraSlash SlashingState.setValidatorSlashInEra
  by_cases he : e = era
  · subst he
    by_cases hs : s = stash
    · subst hs
      simp
    · simp [hs]
  · simp [he]

theorem eraSlash_setNominatorSlashInEra (era : ℕ) (stash : AccountId) (v : ℕ) (e : ℕ) (s : AccountId) :
    Role.nominator.eraSlash (st.setNominatorSlashInEra era stash v) e s =
      if e = era ∧ s = stash then v else Role.nominator.eraSlash st e s := by
  unfold eraSlash SlashingState.setNominatorSlashInEra
  by_cases he : e = era
  · subst he
    by_cases hs : s = stash
    · subst hs
      simp
    · simp [hs]
  · simp [he]

end Role

/-! ## The view of one stash -/

section View

variable (role : Role) (s : AccountId)

/-- Two states agree on what the invariant of `s` reads: its spans, their
records and its era slashes. -/
structure SameView (st st' : SlashingState AccountId) : Prop where
  slashingSpans : st'.slashingSpans s = st.slashingSpans s
  spanSlash : ∀ i, st'.spanSlash (s, i) = st.spanSlash (s, i)
  eraSlash : ∀ era, role.eraSlash st' era s = role.eraSlash st era s

variable {role s} {st st' st'' : SlashingState AccountId}

omit [DecidableEq AccountId] in
theorem SameView.refl (st : SlashingState AccountId) : SameView role s st st :=
  ⟨rfl, fun _ => rfl, fun _ => rfl⟩

omit [DecidableEq AccountId] in
theorem SameView.trans (h : SameView role s st st') (h' : SameView role s st' st'') :
    SameView role s st st'' :=
  ⟨h'.1.trans h.1, fun i => (h'.2 i).trans (h.2 i), fun e => (h'.3 e).trans (h.3 e)⟩

theorem sameView_setSlashingSpans {stash : AccountId} (h : stash ≠ s) (spans : SlashingSpans) :
    SameView role s st (st.setSlashingSpans stash spans) :=
  ⟨by simp [Function.update_of_ne h.symm], fun _ => rfl, fun _ => by simp⟩

theorem sameView_setSpanSlash {key : AccountId × ℕ} (h : key.1 ≠ s) (record : SpanRecord) :
    SameView role s st (st.setSpanSlash key record) := by
  refine ⟨rfl, fun i => ?_, fun _ => by simp⟩
  have hne : (s, i) ≠ key := fun hk => h (by rw [← hk])
  simp [Function.update_of_ne hne]

theorem sameView_removeSpanSlashes {stash : AccountId} (h : stash ≠ s) (indices : List ℕ) :
    SameView role s st (InspectingSpans.removeSpanSlashes stash indices st) := by
  refine ⟨by rw [InspectingSpans.removeSpanSlashes_eq], fun i => ?_, fun _ => by simp⟩
  rw [InspectingSpans.removeSpanSlashes_eq]
  simp [Ne.symm h]

theorem sameView_chillAndDisable (T : SlashConfig AccountId) (stash : AccountId) :
    SameView role s st (chillAndDisable T stash st) := by
  exact ⟨by simp, fun _ => by simp, fun _ => by simp⟩

theorem sameView_setValidatorSlashInEra {stash : AccountId} (h : stash ≠ s ∨ role = .nominator)
    (era : ℕ) (v : Perbill × ℕ) : SameView role s st (st.setValidatorSlashInEra era stash v) := by
  refine ⟨rfl, fun _ => rfl, fun e => ?_⟩
  rcases h with h | rfl
  · cases role
    · simp [Role.eraSlash_setValidatorSlashInEra, Ne.symm h]
    · rfl
  · rfl

theorem sameView_setNominatorSlashInEra {stash : AccountId} (h : stash ≠ s ∨ role = .validator)
    (era : ℕ) (v : ℕ) : SameView role s st (st.setNominatorSlashInEra era stash v) := by
  refine ⟨rfl, fun _ => rfl, fun e => ?_⟩
  rcases h with h | rfl
  · cases role
    · rfl
    · simp [Role.eraSlash_setNominatorSlashInEra, Ne.symm h]
  · rfl

variable {r : Perbill} {log : List SlashEntry}

omit [DecidableEq AccountId] in
theorem Tracks.congr (h : Tracks role r s st log) (hv : SameView role s st st') :
    Tracks role r s st' log := by
  unfold Tracks at h ⊢
  rw [hv.slashingSpans]
  split at h
  · exact h.congr hv.spanSlash hv.eraSlash
  · exact ⟨fun i => (hv.spanSlash i).trans (h.spanSlash i),
      fun e => (hv.eraSlash e).trans (h.eraSlash e), h.log⟩

omit [DecidableEq AccountId] in
theorem tracks_of_some {sp : SlashingSpans} (hs : st.slashingSpans s = some sp) :
    Tracks role r s st log ↔ Tracked role r s st sp log := by
  unfold Tracks
  rw [hs]

omit [DecidableEq AccountId] in
theorem Tracks.tracked (h : Tracks role r s st log) (windowStart : ℕ) :
    Tracked role r s st ((st.slashingSpans s).getD (.new windowStart)) log := by
  unfold Tracks at h
  split at h
  · next sp hsp => rw [hsp]; exact h
  · next hsp => rw [hsp]; exact h.tracked windowStart

omit [DecidableEq AccountId] in
/-- A call that records nothing for `s` and leaves its era slashes adds a
quiet entry. -/
theorem Tracks.quiet (h : Tracks role r s st log) (era : ℕ) :
    Tracks role r s st (log ++ [⟨era, 0, role.eraSlash st era s⟩]) := by
  unfold Tracks at h ⊢
  split at h
  · exact h.quiet era
  · refine ⟨h.spanSlash, h.eraSlash, fun x hx => ?_⟩
    rcases List.mem_append.mp hx with hx | hx
    · exact h.log x hx
    · simp only [List.mem_singleton] at hx
      subst hx
      exact ⟨rfl, h.eraSlash era⟩

end View

/-! ## `fetch_spans`, `compare_and_update_span_slash` and `Drop` -/

theorem fetchSpans_eq (stash : AccountId) (windowStart paidOut slashOf : ℕ) (rewardProportion : Perbill)
    (st : SlashingState AccountId) :
    fetchSpans stash windowStart paidOut slashOf rewardProportion st =
      (⟨false, windowStart, stash, (st.slashingSpans stash).getD (.new windowStart), paidOut, slashOf,
        rewardProportion⟩,
        st.setSlashingSpans stash ((st.slashingSpans stash).getD (.new windowStart))) := by
  unfold fetchSpans
  split
  · next spans hsp => simp [hsp, st.setSlashingSpans_of_eq hsp]
  · next hsp => simp [hsp]

theorem SpanRecord.reportAmount_le (record : SpanRecord) (slash : ℕ) :
    record.reportAmount slash ≤ slash := by
  unfold SpanRecord.reportAmount
  split_ifs <;> omega

@[simp] theorem SpanRecord.payReward_zero (record : SpanRecord) : record.payReward 0 = record := by
  simp [SpanRecord.payReward]

namespace InspectingSpans

variable (self : InspectingSpans AccountId)

theorem settle_eq (key : AccountId × ℕ) (spanRecord : SpanRecord) (reward : ℕ) (changed : Bool)
    (st : SlashingState AccountId) (hrecord : changed = false → spanRecord = st.spanSlash key) :
    self.settle key spanRecord reward changed st =
      ({ self with
          paidOut := if reward ≠ 0 then wrappingAdd balanceBits self.paidOut reward else self.paidOut,
          dirty := self.dirty || (reward != 0 || changed) },
        st.setSpanSlash key (spanRecord.payReward reward)) := by
  unfold settle SpanRecord.payReward
  by_cases hreward : reward = 0
  · cases changed
    · rw [hrecord rfl]
      simp [hreward, SlashingState.setSpanSlash_self]
    · simp [hreward]
  · simp [hreward]

/-- A report to the span that holds the era: the record becomes
`afterReport`, the slash grows by `reportAmount`, and the spans change only
in their last non-zero slash, and only when marked dirty. -/
theorem compareAndUpdateSpanSlash_of_eraSpan {era : ℕ} {target : SlashingSpan}
    (h : self.eraSpan era = some target) (slash : ℕ) (st : SlashingState AccountId)
    (hslashOf : self.slashOf < 2 ^ balanceBits) :
    ∃ spans : InspectingSpans AccountId,
      self.compareAndUpdateSpanSlash era slash st =
        ((some target.index, spans),
          st.setSpanSlash (self.stash, target.index)
            ((st.spanSlash (self.stash, target.index)).afterReport self.rewardProportion slash)) ∧
      spans.stash = self.stash ∧ spans.windowStart = self.windowStart ∧
      spans.slashOf = wrappingAdd balanceBits self.slashOf
        ((st.spanSlash (self.stash, target.index)).reportAmount slash) ∧
      spans.spans = { self.spans with lastNonzeroSlash := spans.spans.lastNonzeroSlash } ∧
      (spans.dirty = false → spans.spans = self.spans) := by
  have hkeep : wrappingAdd balanceBits self.slashOf 0 = self.slashOf := wrappingAdd_of_lt (by omega)
  unfold compareAndUpdateSpanSlash SpanRecord.afterReport SpanRecord.reportAmount
  rw [h]
  dsimp only
  split_ifs with hlt heq
  · -- a new maximum: the spans are dirty
    rw [settle_eq _ _ _ _ _ _ (by simp)]
    refine ⟨_, rfl, rfl, rfl, rfl, rfl, fun hdirty => ?_⟩
    simp at hdirty
  · rw [settle_eq _ _ _ _ _ _ fun _ => rfl]
    exact ⟨_, rfl, rfl, rfl, hkeep.symm, rfl, fun _ => rfl⟩
  · rw [settle_eq _ _ _ _ _ _ fun _ => rfl, SpanRecord.payReward_zero]
    exact ⟨_, rfl, rfl, rfl, hkeep.symm, rfl, fun _ => rfl⟩

theorem compareAndUpdateSpanSlash_of_eraSpan_none {era : ℕ} (h : self.eraSpan era = none)
    (slash : ℕ) (st : SlashingState AccountId) :
    self.compareAndUpdateSpanSlash era slash st = ((none, self), st) := by
  unfold compareAndUpdateSpanSlash
  rw [h]

theorem drop_of_clean (h : self.dirty = false) (st : SlashingState AccountId) : self.drop st = st := by
  unfold drop
  rw [h]
  rfl

theorem drop_of_dirty (h : self.dirty = true) (st : SlashingState AccountId) :
    self.drop st =
      (match (self.spans.prune self.windowStart).1 with
        | some (startIndex, endIndex) =>
          removeSpanSlashes self.stash (List.range' startIndex (endIndex - startIndex)) st
        | none => st).setSlashingSpans self.stash (self.spans.prune self.windowStart).2 := by
  unfold drop
  rw [h]
  rfl

@[simp] theorem compareAndUpdateSpanSlash_stash (era slash : ℕ) (st : SlashingState AccountId)
    (hslashOf : self.slashOf < 2 ^ balanceBits) :
    (self.compareAndUpdateSpanSlash era slash st).1.2.stash = self.stash := by
  cases he : self.eraSpan era with
  | none => rw [compareAndUpdateSpanSlash_of_eraSpan_none _ he]
  | some target =>
    obtain ⟨_, heq, hstash, -⟩ := compareAndUpdateSpanSlash_of_eraSpan self he slash st hslashOf
    rw [heq]
    exact hstash

end InspectingSpans

section View

variable {role : Role} {s : AccountId} {r : Perbill} {log : List SlashEntry}
variable {st : SlashingState AccountId}

/-- `Drop` of tracked spans of `s`: once written back, pruned if they are
dirty, they are still tracked. -/
theorem Tracked.drop (self : InspectingSpans AccountId) (h : Tracked role r s st self.spans log)
    (hs : self.stash = s) (hclean : self.dirty = false → st.slashingSpans s = some self.spans) :
    Tracks role r s (self.drop st) log := by
  subst hs
  cases hd : self.dirty
  · rw [self.drop_of_clean hd, tracks_of_some (hclean hd)]
    exact h
  · rw [self.drop_of_dirty hd]
    have hpruned : Tracked role r self.stash ((match (self.spans.prune self.windowStart).1 with
        | some (startIndex, endIndex) => InspectingSpans.removeSpanSlashes self.stash
            (List.range' startIndex (endIndex - startIndex)) st
        | none => st).setSlashingSpans self.stash (self.spans.prune self.windowStart).2)
        (self.spans.prune self.windowStart).2 log :=
      h.prune self.windowStart ?_ ?_
    · rw [tracks_of_some (show _ = some (self.spans.prune self.windowStart).2 by simp)]
      exact hpruned
    -- only the records of the dropped range are removed, all below what is kept
    · intro i hkept
      cases hp : (self.spans.prune self.windowStart).1 with
      | none => rfl
      | some range =>
        obtain ⟨startIndex, endIndex⟩ := range
        have hi := hkept startIndex endIndex hp
        simp [InspectingSpans.removeSpanSlashes_eq, List.mem_range'_1]
        omega
    · intro e
      cases (self.spans.prune self.windowStart).1 with
      | none => simp
      | some range => simp

theorem sameView_fetchSpans {stash : AccountId} (h : stash ≠ s) (windowStart paidOut slashOf : ℕ)
    (rewardProportion : Perbill) :
    SameView role s st (fetchSpans stash windowStart paidOut slashOf rewardProportion st).2 := by
  rw [fetchSpans_eq]
  exact sameView_setSlashingSpans h _

theorem sameView_compareAndUpdateSpanSlash {self : InspectingSpans AccountId} (h : self.stash ≠ s)
    (hslashOf : self.slashOf < 2 ^ balanceBits) (era slash : ℕ) :
    SameView role s st (self.compareAndUpdateSpanSlash era slash st).2 := by
  cases he : self.eraSpan era with
  | none =>
    rw [InspectingSpans.compareAndUpdateSpanSlash_of_eraSpan_none _ he]
    exact .refl st
  | some target =>
    obtain ⟨_, heq, -⟩ :=
      InspectingSpans.compareAndUpdateSpanSlash_of_eraSpan self he slash st hslashOf
    rw [heq]
    exact sameView_setSpanSlash h _

theorem sameView_drop {self : InspectingSpans AccountId} (h : self.stash ≠ s) :
    SameView role s st (self.drop st) := by
  cases hd : self.dirty
  · rw [self.drop_of_clean hd]
    exact .refl st
  · rw [self.drop_of_dirty hd]
    cases (self.spans.prune self.windowStart).1 with
    | none => exact sameView_setSlashingSpans h _
    | some range =>
      exact (sameView_removeSpanSlashes h _).trans (sameView_setSlashingSpans h _)

theorem sameView_inspectSpans {stash : AccountId} (h : stash ≠ s) (windowStart now paidOut : ℕ)
    (rewardProportion : Perbill) (slashEra slash : ℕ)
    {onEnd : SlashingState AccountId → SlashingState AccountId}
    (honEnd : ∀ st, SameView role s st (onEnd st)) :
    SameView role s st
      (inspectSpans stash windowStart now paidOut rewardProportion slashEra slash onEnd st).2 := by
  unfold inspectSpans
  rw [fetchSpans_eq]
  dsimp only
  set spans₀ : InspectingSpans AccountId := ⟨false, windowStart, stash,
    (st.slashingSpans stash).getD (.new windowStart), paidOut, 0, rewardProportion⟩
  have hfetch : SameView role s st (st.setSlashingSpans stash spans₀.spans) :=
    sameView_setSlashingSpans h _
  have hcompare : SameView role s (st.setSlashingSpans stash spans₀.spans)
      (spans₀.compareAndUpdateSpanSlash slashEra slash (st.setSlashingSpans stash spans₀.spans)).2 :=
    sameView_compareAndUpdateSpanSlash h (by simp [spans₀]) slashEra slash
  have hstash := spans₀.compareAndUpdateSpanSlash_stash slashEra slash
    (st.setSlashingSpans stash spans₀.spans) (by simp [spans₀])
  rcases hc : spans₀.compareAndUpdateSpanSlash slashEra slash
    (st.setSlashingSpans stash spans₀.spans) with ⟨⟨targetSpan, spans₁⟩, st₁⟩
  rw [hc] at hcompare hstash
  dsimp only at hcompare hstash ⊢
  split_ifs
  · exact hfetch.trans (hcompare.trans ((honEnd st₁).trans (sameView_drop (by simpa [InspectingSpans.endSpan] using hstash ▸ h))))
  · exact hfetch.trans (hcompare.trans (sameView_drop (hstash ▸ h)))

end View

/-! ## Era slashes -/

namespace Role

variable (role : Role) (st : SlashingState AccountId)

theorem eraSlash_compareAndUpdateSpanSlash (self : InspectingSpans AccountId) (era slash : ℕ)
    (hslashOf : self.slashOf < 2 ^ balanceBits) :
    role.eraSlash (self.compareAndUpdateSpanSlash era slash st).2 = role.eraSlash st := by
  cases he : self.eraSpan era with
  | none => rw [InspectingSpans.compareAndUpdateSpanSlash_of_eraSpan_none _ he]
  | some target =>
    obtain ⟨_, heq, -⟩ :=
      InspectingSpans.compareAndUpdateSpanSlash_of_eraSpan self he slash st hslashOf
    rw [heq, eraSlash_setSpanSlash]

@[simp] theorem eraSlash_drop (self : InspectingSpans AccountId) :
    role.eraSlash (self.drop st) = role.eraSlash st := by
  cases hd : self.dirty
  · rw [self.drop_of_clean hd]
  · rw [self.drop_of_dirty hd]
    cases (self.spans.prune self.windowStart).1 with
    | none => simp
    | some range => simp

theorem eraSlash_inspectSpans (stash : AccountId) (windowStart now paidOut : ℕ)
    (rewardProportion : Perbill) (slashEra slash : ℕ)
    {onEnd : SlashingState AccountId → SlashingState AccountId}
    (honEnd : ∀ st, role.eraSlash (onEnd st) = role.eraSlash st) :
    role.eraSlash
        (inspectSpans stash windowStart now paidOut rewardProportion slashEra slash onEnd st).2 =
      role.eraSlash st := by
  unfold inspectSpans
  rw [fetchSpans_eq]
  dsimp only
  set spans₀ : InspectingSpans AccountId := ⟨false, windowStart, stash,
    (st.slashingSpans stash).getD (.new windowStart), paidOut, 0, rewardProportion⟩
  have hcompare := role.eraSlash_compareAndUpdateSpanSlash (st.setSlashingSpans stash spans₀.spans)
    spans₀ slashEra slash (by simp [spans₀])
  rcases hc : spans₀.compareAndUpdateSpanSlash slashEra slash
    (st.setSlashingSpans stash spans₀.spans) with ⟨⟨targetSpan, spans₁⟩, st₁⟩
  rw [hc] at hcompare
  dsimp only at hcompare ⊢
  split_ifs
  · rw [eraSlash_drop, honEnd, hcompare, eraSlash_setSlashingSpans]
  · rw [eraSlash_drop, hcompare, eraSlash_setSlashingSpans]

theorem eraSlash_kickOutIfRecent (T : SlashConfig AccountId) (params : SlashParams AccountId) :
    role.eraSlash (kickOutIfRecent T params st) = role.eraSlash st := by
  unfold kickOutIfRecent
  rw [fetchSpans_eq]
  dsimp only
  split_ifs <;> simp

end Role

end SocialNetwork.Staking
