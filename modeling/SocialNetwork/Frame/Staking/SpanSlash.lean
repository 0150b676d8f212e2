import SocialNetwork.Frame.Staking.Spans
import SocialNetwork.Lib.MaxLedger

/-!
# What a stash's span records hold

Over a run of `compute_slash`, a stash `s` is either the offending
validator or one of its nominators (`Role`). Each call records an amount
for `s` in the `UnappliedSlash` it returns (`Role.recorded`), and leaves an
era slash for `s` in its era (`Role.eraSlash`). A call is a `SlashEntry`:
its era, the amount and the era slash.

Each span's `SpanRecord` is a ledger of the running maximum of the era
slashes reported in it (`MaxLedger.Tracks`): `slashed` is the sum of the
amounts recorded in the span, and the largest era slash reported there. Its
reward stays within `r` of `slashed` (`SpanAccounted`).
`compare_and_update_span_slash` reports one era slash to one span's record
(`SpanRecord.afterReport`, `SpanAccounted.report`).

`Tracked` says this of every span of `s`, and what keeps it true from call
to call: the era slashes of `s` are at most their span's record, and nothing
is recorded in the ongoing span, whose record is empty, nor in any later one.
It survives the four things the slashing does to a stash's spans:
* a report to a span that ended (`Tracked.report`), or to no span
  (`Tracked.reportOutside`);
* ending the ongoing span (`Tracked.endSpan`);
* pruning (`Tracked.prune`);
* a call that records nothing for `s` (`Tracked.quiet`).
-/

namespace SocialNetwork.Staking

open Arithmetic Unsigned MaxLedger

/-- How a stash takes part in the offences of a run: as the offending
validator, or as a nominator of offenders. -/
inductive Role where
  | validator | nominator
  deriving DecidableEq, Repr

variable {AccountId : Type}

namespace Role

/-- What a slash records for `s`: its own slash as the validator, or its
entries among the nominators. -/
def recorded [DecidableEq AccountId] (role : Role) (s : AccountId) : Option (UnappliedSlash AccountId) → ℕ
  | none => 0
  | some u =>
    match role with
    | .validator => if u.validator = s then u.own else 0
    | .nominator => ((u.others.filter (·.1 = s)).map (·.2)).sum

/-- The era slash of `s`: the own part of `ValidatorSlashInEra`, or
`NominatorSlashInEra`. -/
def eraSlash (role : Role) (st : SlashingState AccountId) (era : ℕ) (s : AccountId) : ℕ :=
  match role with
  | .validator => ((st.validatorSlashInEra era s).map (·.2)).getD 0
  | .nominator => (st.nominatorSlashInEra era s).getD 0

end Role

/-- A call as the span records see it: its era, what it recorded for the
stash, and the stash's era slash after it. -/
structure SlashEntry where
  era : ℕ
  amount : ℕ
  eraSlash : ℕ
  deriving DecidableEq, Repr

/-! ## One span's record -/

def SpanRecord.payReward (record : SpanRecord) (reward : ℕ) : SpanRecord :=
  if reward ≠ 0 then { record with paidOut := wrappingAdd balanceBits record.paidOut reward }
  else record

/-- The record `compare_and_update_span_slash` leaves after a report of
`slash`. -/
def SpanRecord.afterReport (record : SpanRecord) (r : Perbill) (slash : ℕ) : SpanRecord :=
  if record.slashed < slash then
    SpanRecord.payReward ⟨slash, record.paidOut⟩ (spanReward r slash record.paidOut)
  else if record.slashed = slash then record.payReward (spanReward r slash record.paidOut)
  else record

def SpanRecord.reportAmount (record : SpanRecord) (slash : ℕ) : ℕ :=
  if record.slashed < slash then slash - record.slashed else 0

/-- A span's record holds the running maximum of the era slashes reported
in it, paid out as the amounts recorded, and its reward is within `r`. -/
def SpanAccounted (r : Perbill) (record : SpanRecord) (entries : List SlashEntry) : Prop :=
  Tracks record.slashed (entries.map fun x => (x.amount, x.eraSlash)) ∧
    record.paidOut ≤ r.mul record.slashed

@[simp] theorem SpanRecord.payReward_slashed (record : SpanRecord) (reward : ℕ) :
    (record.payReward reward).slashed = record.slashed := by
  unfold SpanRecord.payReward
  split <;> rfl

theorem SpanRecord.afterReport_slashed (record : SpanRecord) (r : Perbill) (slash : ℕ) :
    (record.afterReport r slash).slashed = max record.slashed slash := by
  unfold SpanRecord.afterReport
  split_ifs with hlt heq
  · simp [Nat.max_eq_right hlt.le]
  · simp [heq]
  · simp [Nat.max_eq_left (by omega : slash ≤ record.slashed)]

/-- Paying a span's reward keeps it within `r` of a slash of `m`, and it
does not wrap. -/
theorem SpanRecord.payReward_le {record : SpanRecord} {r : Perbill} {m : ℕ}
    (hm : m < 2 ^ balanceBits) :
    (record.payReward (spanReward r m record.paidOut)).paidOut ≤ max record.paidOut (r.mul m) := by
  unfold SpanRecord.payReward
  split_ifs with hreward
  · -- the reward is at most what is left below `r` of the slash
    have hleft : record.paidOut + spanReward r m record.paidOut ≤ r.mul m := by
      unfold spanReward saturatingSub at hreward ⊢
      have hhalf := PerThing.mul_le_self rewardF1 (r.mul m - record.paidOut)
      by_cases hle : record.paidOut ≤ r.mul m
      · omega
      · have hzero : r.mul m - record.paidOut = 0 := by omega
        rw [hzero] at hreward hhalf
        omega
    have hrm := PerThing.mul_le_self r m
    show wrappingAdd balanceBits record.paidOut (spanReward r m record.paidOut) ≤ _
    rw [wrappingAdd_of_lt (by omega)]
    exact le_max_of_le_right hleft
  · exact le_max_left _ _

/-- A report of `slash` keeps a span's accounting, with the report's amount
and era slash added. -/
theorem SpanAccounted.report {r : Perbill} {record : SpanRecord} {entries : List SlashEntry}
    (h : SpanAccounted r record entries) {slash : ℕ} (hslash : slash < 2 ^ balanceBits) (era : ℕ) :
    SpanAccounted r (record.afterReport r slash)
      (entries ++ [⟨era, record.reportAmount slash, slash⟩]) := by
  obtain ⟨htracks, hpaid⟩ := h
  have hmono : r.mul record.slashed ≤ r.mul slash ∨ slash < record.slashed := by
    by_cases hle : record.slashed ≤ slash
    · exact .inl (PerThing.mul_le_mul_of_le r hle)
    · exact .inr (by omega)
  have hentries : ∀ amount, ((entries ++ [(⟨era, amount, slash⟩ : SlashEntry)]).map fun x =>
      (x.amount, x.eraSlash)) = (entries.map fun x => (x.amount, x.eraSlash)) ++ [(amount, slash)] := by
    simp
  unfold SpanRecord.afterReport SpanRecord.reportAmount
  split_ifs with hlt heq
  · -- a new maximum: the record rises to the slash and the difference is recorded
    refine ⟨by simpa [hentries] using htracks.raise hlt, ?_⟩
    have hpay := @SpanRecord.payReward_le ⟨slash, record.paidOut⟩ r slash hslash
    rcases hmono with hmono | hmono
    · simp only [SpanRecord.payReward_slashed]
      exact hpay.trans (max_le (hpaid.trans hmono) le_rfl)
    · omega
  · -- the same maximum again: nothing is recorded, a reward may be paid
    subst heq
    refine ⟨by simpa [hentries] using htracks.below le_rfl, ?_⟩
    simpa using (@SpanRecord.payReward_le record r _ hslash).trans
      (max_le hpaid le_rfl)
  · exact ⟨by simpa [hentries] using htracks.below (by omega), hpaid⟩

theorem spanAccounted_default (r : Perbill) {entries : List SlashEntry}
    (h : ∀ x ∈ entries, x.amount = 0 ∧ x.eraSlash = 0) : SpanAccounted r default entries := by
  refine ⟨tracks_zero_of_forall fun x hx => ?_, Nat.zero_le _⟩
  obtain ⟨y, hy, rfl⟩ := List.mem_map.mp hx
  simp [(h y hy).1, (h y hy).2]

/-! ## The spans of one stash -/

section Invariant

variable (role : Role) (r : Perbill) (s : AccountId)

/-- What holds of the spans `sp` of `s` in `st` after the calls `log`: every
span accounts for the entries in its eras, every era slash of `s` is at most
its span's record, nothing is recorded from the ongoing span on, and no
record exists from its index on. -/
structure Tracked (st : SlashingState AccountId) (sp : SlashingSpans) (log : List SlashEntry) :
    Prop where
  wf : sp.Wf
  accounted : ∀ span ∈ sp.iter,
    SpanAccounted r (st.spanSlash (s, span.index)) (log.filter (span.containsEra ·.era))
  eraSlash_le : ∀ span ∈ sp.iter, ∀ era, span.containsEra era →
    role.eraSlash st era s ≤ (st.spanSlash (s, span.index)).slashed
  quiet_log : ∀ x ∈ log, sp.lastStart ≤ x.era → x.amount = 0 ∧ x.eraSlash = 0
  quiet_eraSlash : ∀ era, sp.lastStart ≤ era → role.eraSlash st era s = 0
  fresh : ∀ i, sp.spanIndex ≤ i → st.spanSlash (s, i) = default

/-- Before `s` has spans: no records, no era slashes, nothing recorded. -/
structure Unslashed (st : SlashingState AccountId) (log : List SlashEntry) : Prop where
  spanSlash : ∀ i, st.spanSlash (s, i) = default
  eraSlash : ∀ era, role.eraSlash st era s = 0
  log : ∀ x ∈ log, x.amount = 0 ∧ x.eraSlash = 0

/-- The invariant of a run: the stored spans of `s` are tracked, or it has
none and was never slashed. -/
def Tracks (st : SlashingState AccountId) (log : List SlashEntry) : Prop :=
  match st.slashingSpans s with
  | some sp => Tracked role r s st sp log
  | none => Unslashed role s st log

variable {role r s}
variable {st st' : SlashingState AccountId} {sp : SlashingSpans} {log : List SlashEntry}

theorem filter_append_singleton (span : SlashingSpan) (x : SlashEntry) :
    (log ++ [x]).filter (span.containsEra ·.era) =
      log.filter (span.containsEra ·.era) ++ if span.containsEra x.era then [x] else [] := by
  by_cases h : span.containsEra x.era <;> simp [List.filter_append, h]

theorem Unslashed.tracked (h : Unslashed role s st log) (windowStart : ℕ) :
    Tracked role r s st (SlashingSpans.new windowStart) log where
  wf := SlashingSpans.wf_new windowStart
  accounted span _ := by
    rw [h.spanSlash]
    exact spanAccounted_default r fun x hx => h.log x (List.mem_filter.mp hx).1
  eraSlash_le _ _ era _ := by simp [h.eraSlash era]
  quiet_log x hx _ := h.log x hx
  quiet_eraSlash era _ := h.eraSlash era
  fresh i _ := h.spanSlash i

namespace Tracked

/-- A span whose eras are all from the ongoing span's start on, with an
empty record, accounts for nothing. -/
theorem accounted_of_quiet (h : Tracked role r s st sp log) {span : SlashingSpan}
    (hstart : ∀ era, span.containsEra era → sp.lastStart ≤ era)
    (hrecord : st.spanSlash (s, span.index) = default) :
    SpanAccounted r (st.spanSlash (s, span.index)) (log.filter (span.containsEra ·.era)) := by
  rw [hrecord]
  refine spanAccounted_default r fun x hx => ?_
  obtain ⟨hx, hc⟩ := List.mem_filter.mp hx
  exact h.quiet_log x hx (hstart x.era hc)

theorem lastNonzeroSlash (h : Tracked role r s st sp log) (x : ℕ) :
    Tracked role r s st { sp with lastNonzeroSlash := x } log :=
  ⟨h.wf, h.accounted, h.eraSlash_le, h.quiet_log, h.quiet_eraSlash, h.fresh⟩

theorem congr (h : Tracked role r s st sp log)
    (hspanSlash : ∀ i, st'.spanSlash (s, i) = st.spanSlash (s, i))
    (heraSlash : ∀ era, role.eraSlash st' era s = role.eraSlash st era s) :
    Tracked role r s st' sp log where
  wf := h.wf
  accounted span hspan := by rw [hspanSlash]; exact h.accounted span hspan
  eraSlash_le span hspan era hc := by rw [hspanSlash, heraSlash]; exact h.eraSlash_le span hspan era hc
  quiet_log := h.quiet_log
  quiet_eraSlash era hera := by rw [heraSlash]; exact h.quiet_eraSlash era hera
  fresh i hi := by rw [hspanSlash]; exact h.fresh i hi

/-- A call that records nothing for `s` and leaves its era slashes adds an
entry below every record. -/
theorem quiet (h : Tracked role r s st sp log) (era : ℕ) :
    Tracked role r s st sp (log ++ [⟨era, 0, role.eraSlash st era s⟩]) where
  wf := h.wf
  accounted span hspan := by
    rw [filter_append_singleton]
    split_ifs with hc
    · obtain ⟨htracks, hpaid⟩ := h.accounted span hspan
      refine ⟨?_, hpaid⟩
      simpa using htracks.below (h.eraSlash_le span hspan era hc)
    · simpa using h.accounted span hspan
  eraSlash_le := h.eraSlash_le
  quiet_log x hx hstart := by
    rcases List.mem_append.mp hx with hx | hx
    · exact h.quiet_log x hx hstart
    · simp only [List.mem_singleton] at hx
      subst hx
      exact ⟨rfl, h.quiet_eraSlash era hstart⟩
  quiet_eraSlash := h.quiet_eraSlash
  fresh := h.fresh

/-- Ending the ongoing span at `now`, after its start: it becomes a span
that ended, with an empty record, and a new ongoing span follows. -/
theorem endSpan (h : Tracked role r s st sp log) {now : ℕ} (hnow : sp.lastStart ≤ now) :
    Tracked role r s st (sp.endSpan now).2 log := by
  have hlt : sp.lastStart < now + 1 := Nat.lt_succ_of_le hnow
  have hiter := SlashingSpans.iter_endSpan hlt
  have hwf := h.wf.endSpan now
  rw [SlashingSpans.endSpan_of_lt hlt] at hiter hwf ⊢
  -- the two spans from the old start hold only quiet eras, and have empty records
  have hnew : ∀ span ∈ (⟨sp.spanIndex + 1, now + 1, none⟩ :: ⟨sp.spanIndex, sp.lastStart,
      some (now + 1 - sp.lastStart)⟩ :: [] : List SlashingSpan),
      (∀ era, span.containsEra era → sp.lastStart ≤ era) ∧
        st.spanSlash (s, span.index) = default := by
    intro span hspan
    simp only [List.mem_cons, List.not_mem_nil, or_false] at hspan
    rcases hspan with rfl | rfl
    · exact ⟨fun era hc => by simp at hc; omega, h.fresh _ (Nat.le_succ _)⟩
    · exact ⟨fun era hc => by simp at hc; omega, h.fresh _ le_rfl⟩
  have hcases : ∀ span ∈ (true, (⟨sp.spanIndex + 1, now + 1, sp.lastNonzeroSlash,
      (now + 1 - sp.lastStart) :: sp.prior⟩ : SlashingSpans)).2.iter,
      ((∀ era, span.containsEra era → sp.lastStart ≤ era) ∧
        st.spanSlash (s, span.index) = default) ∨ span ∈ sp.iter := by
    intro span hspan
    rw [hiter] at hspan
    rcases List.mem_cons.mp hspan with hspan | hspan
    · exact .inl (hnew span (by simp [hspan]))
    rcases List.mem_cons.mp hspan with hspan | hspan
    · exact .inl (hnew span (by simp [hspan]))
    · exact .inr (List.mem_cons_of_mem _ hspan)
  refine ⟨hwf, fun span hspan => ?_, fun span hspan era hc => ?_, fun x hx hstart => ?_,
    fun era hstart => ?_, fun i hi => ?_⟩
  · rcases hcases span hspan with ⟨hstart, hrecord⟩ | hold
    · exact h.accounted_of_quiet hstart hrecord
    · exact h.accounted span hold
  · rcases hcases span hspan with ⟨hstart, -⟩ | hold
    · rw [h.quiet_eraSlash era (hstart era hc)]
      exact Nat.zero_le _
    · exact h.eraSlash_le span hold era hc
  · exact h.quiet_log x hx (by dsimp only at hstart; omega)
  · exact h.quiet_eraSlash era (by dsimp only at hstart; omega)
  · exact h.fresh i (by dsimp only at hi; omega)

/-- A report of `slash` for `era`, in a span that ended, to that span's
record: its entry joins the span's accounting and the era slash stays
below the record. -/
theorem report (h : Tracked role r s st sp log) {target : SlashingSpan} (ht : target ∈ sp.iter)
    {era : ℕ} (hc : target.containsEra era) (hbefore : era < sp.lastStart) {slash : ℕ}
    (hslash : slash < 2 ^ balanceBits)
    (heraSlash : ∀ e, role.eraSlash st' e s = if e = era then slash else role.eraSlash st e s)
    (hspanSlash : ∀ i, st'.spanSlash (s, i) =
      if i = target.index then (st.spanSlash (s, i)).afterReport r slash else st.spanSlash (s, i)) :
    Tracked role r s st' sp
      (log ++ [⟨era, (st.spanSlash (s, target.index)).reportAmount slash, slash⟩]) := by
  -- the span that holds `era` ended, so its index is below the ongoing one's
  have htarget : target.index < sp.spanIndex := by
    rw [SlashingSpans.iter_eq, List.mem_cons] at ht
    rcases ht with rfl | ht
    · simp at hc
      omega
    · exact (SlashingSpans.mem_priorSpans ht h.wf.1 h.wf.2).choose_spec.2.2.2
  have hother : ∀ span ∈ sp.iter, span ≠ target →
      span.containsEra era = false ∧ span.index ≠ target.index :=
    fun span hspan hne => SlashingSpans.ne_of_mem_of_ne h.wf ht hspan hne hc
  refine ⟨h.wf, fun span hspan => ?_, fun span hspan e he => ?_, fun x hx hstart => ?_,
    fun e hstart => ?_, fun i hi => ?_⟩
  · rw [filter_append_singleton, hspanSlash]
    by_cases hne : span = target
    · subst hne
      simpa [hc] using (h.accounted span hspan).report hslash era
    · obtain ⟨hc', hi⟩ := hother span hspan hne
      simpa [hc', hi] using h.accounted span hspan
  · rw [hspanSlash, heraSlash]
    by_cases hne : span = target
    · subst hne
      rw [if_pos rfl, SpanRecord.afterReport_slashed]
      split_ifs with hera
      · exact le_max_right _ _
      · exact (h.eraSlash_le span hspan e he).trans (le_max_left _ _)
    · obtain ⟨hc', hi⟩ := hother span hspan hne
      have hera : e ≠ era := by rintro rfl; simp [hc'] at he
      rw [if_neg hi, if_neg hera]
      exact h.eraSlash_le span hspan e he
  · rcases List.mem_append.mp hx with hx | hx
    · exact h.quiet_log x hx hstart
    · simp only [List.mem_singleton] at hx
      subst hx
      dsimp only at hstart
      omega
  · rw [heraSlash, if_neg (by omega)]
    exact h.quiet_eraSlash e hstart
  · rw [hspanSlash, if_neg (by omega)]
    exact h.fresh i hi

/-- The report of `compare_and_update_span_slash` to the span that holds
`era`, and the end of that span at `now` if it is the ongoing one. -/
theorem reportAt (h : Tracked role r s st sp log) {target : SlashingSpan} (ht : target ∈ sp.iter)
    {era now : ℕ} (hc : target.containsEra era) (hnow : era ≤ now) {slash : ℕ}
    (hslash : slash < 2 ^ balanceBits)
    (heraSlash : ∀ e, role.eraSlash st' e s = if e = era then slash else role.eraSlash st e s)
    (hspanSlash : ∀ i, st'.spanSlash (s, i) =
      if i = target.index then (st.spanSlash (s, i)).afterReport r slash else st.spanSlash (s, i)) :
    Tracked role r s st' (if target.index = sp.spanIndex then (sp.endSpan now).2 else sp)
      (log ++ [⟨era, (st.spanSlash (s, target.index)).reportAmount slash, slash⟩]) := by
  split_ifs with hongoing
  · -- the ongoing span ends first, and the report goes to it as a span that ended
    have hstart := SlashingSpans.lastStart_le_of_index_eq h.wf ht hongoing hc
    have hlt : sp.lastStart < now + 1 := by omega
    rw [SlashingSpans.eq_ongoing_of_index_eq h.wf ht hongoing] at hspanSlash ⊢
    have hclosed : (⟨sp.spanIndex, sp.lastStart, some (now + 1 - sp.lastStart)⟩ : SlashingSpan) ∈
        (sp.endSpan now).2.iter := by
      rw [SlashingSpans.iter_endSpan hlt]
      simp
    have hlast : (sp.endSpan now).2.lastStart = now + 1 := by
      rw [SlashingSpans.endSpan_of_lt hlt]
    exact (h.endSpan (by omega)).report hclosed (by simp; omega) (by omega) hslash heraSlash
      hspanSlash
  · exact h.report ht hc (SlashingSpans.lt_lastStart_of_index_ne h.wf ht hongoing hc) hslash
      heraSlash hspanSlash

theorem reportOutside (h : Tracked role r s st sp log) {era : ℕ}
    (hnone : ∀ span ∈ sp.iter, span.containsEra era = false) (slash : ℕ)
    (heraSlash : ∀ e, role.eraSlash st' e s = if e = era then slash else role.eraSlash st e s)
    (hspanSlash : ∀ i, st'.spanSlash (s, i) = st.spanSlash (s, i)) :
    Tracked role r s st' sp (log ++ [⟨era, 0, slash⟩]) := by
  -- the ongoing span holds every era from its start, so `era` is before it
  have hbefore : era < sp.lastStart := by
    have := hnone _ (List.mem_cons_self ..)
    simp at this
    exact this
  refine ⟨h.wf, fun span hspan => ?_, fun span hspan e he => ?_, fun x hx hstart => ?_,
    fun e hstart => ?_, fun i hi => ?_⟩
  · rw [filter_append_singleton, hspanSlash, hnone span hspan]
    simpa using h.accounted span hspan
  · have hera : e ≠ era := by rintro rfl; simp [hnone span hspan] at he
    rw [hspanSlash, heraSlash, if_neg hera]
    exact h.eraSlash_le span hspan e he
  · rcases List.mem_append.mp hx with hx | hx
    · exact h.quiet_log x hx hstart
    · simp only [List.mem_singleton] at hx
      subst hx
      dsimp only at hstart
      omega
  · rw [heraSlash, if_neg (by omega)]
    exact h.quiet_eraSlash e hstart
  · rw [hspanSlash]
    exact h.fresh i hi

/-- Pruning against the window, with the records of the dropped spans
removed: the spans left keep their records, and the ongoing one still
starts where nothing was recorded. -/
theorem prune (h : Tracked role r s st sp log) (windowStart : ℕ)
    (hspanSlash : ∀ i, (∀ startIndex endIndex,
      (sp.prune windowStart).1 = some (startIndex, endIndex) → endIndex ≤ i) →
        st'.spanSlash (s, i) = st.spanSlash (s, i))
    (heraSlash : ∀ e, role.eraSlash st' e s = role.eraSlash st e s) :
    Tracked role r s st' (sp.prune windowStart).2 log := by
  have hkept : ∀ i, sp.spanIndex ≤ i → st'.spanSlash (s, i) = st.spanSlash (s, i) :=
    fun i hi => hspanSlash i fun _ _ hrange =>
      (SlashingSpans.prune_range_le h.wf hrange).trans hi
  have hstart := SlashingSpans.prune_lastStart h.wf windowStart
  have hindex := SlashingSpans.prune_spanIndex h.wf windowStart
  refine ⟨h.wf.prune windowStart, fun span hspan => ?_, fun span hspan e he => ?_,
    fun x hx hle => ?_, fun e hle => ?_, fun i hi => ?_⟩
  · rcases SlashingSpans.mem_iter_prune h.wf hspan with rfl | ⟨hold, hrange⟩
    · -- the ongoing span, started no earlier: quiet, with an empty record
      have hquiet : ∀ e, SlashingSpan.containsEra ⟨sp.spanIndex, max sp.lastStart windowStart, none⟩ e →
          sp.lastStart ≤ e := fun e he => by simp at he; omega
      show SpanAccounted r (st'.spanSlash (s, sp.spanIndex)) _
      rw [hkept _ le_rfl]
      exact h.accounted_of_quiet hquiet (h.fresh _ le_rfl)
    · rw [hspanSlash _ hrange]
      exact h.accounted span (List.mem_cons_of_mem _ hold)
  · rw [heraSlash]
    rcases SlashingSpans.mem_iter_prune h.wf hspan with rfl | ⟨hold, hrange⟩
    · rw [h.quiet_eraSlash e (by simp at he; omega)]
      exact Nat.zero_le _
    · rw [hspanSlash _ hrange]
      exact h.eraSlash_le span (List.mem_cons_of_mem _ hold) e he
  · exact h.quiet_log x hx (by rw [hstart] at hle; omega)
  · rw [heraSlash]
    exact h.quiet_eraSlash e (by rw [hstart] at hle; omega)
  · rw [hindex] at hi
    rw [hkept i hi]
    exact h.fresh i hi

end Tracked

end Invariant

end SocialNetwork.Staking
