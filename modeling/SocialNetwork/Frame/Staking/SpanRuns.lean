import SocialNetwork.Frame.Staking.Spans

/-!
# Slashing spans over a run of `end_span` and `prune`

A stash's spans start as `new` and change by `end_span` and `prune`
(`SlashingSpans.Reachable`), which keep them well formed (`Reachable.wf`).
For well-formed spans, `iter` lists the ongoing span from `last_start`, then
the spans that ended, latest first, under the indices `span_index` down to
`span_index - prior.len()`, which is never below zero (`map_index_iter`).
Each span that ended ends at the era where the next more recent span starts
(`isChain_iter`), so the offsets of `prior` never run below era zero either.

`prune` keeps the spans that end after the window and drops the rest, and
the range it returns holds exactly the indices of the spans it dropped
(`mem_range_prune_iff`).
-/

namespace SocialNetwork.Staking

def SlashingSpan.EndsAt (older newer : SlashingSpan) : Prop :=
  ∃ length, older.length = some length ∧ older.start + length = newer.start

namespace SlashingSpans

/-- The spans of a stash as `new`, `end_span` and `prune` leave them. -/
inductive Reachable : SlashingSpans → Prop
  | new (windowStart : ℕ) : Reachable (new windowStart)
  | endSpan {sp : SlashingSpans} (now : ℕ) : Reachable sp → Reachable (sp.endSpan now).2
  | prune {sp : SlashingSpans} (windowStart : ℕ) : Reachable sp → Reachable (sp.prune windowStart).2

theorem Reachable.wf {sp : SlashingSpans} (h : Reachable sp) : sp.Wf := by
  induction h with
  | new windowStart => exact wf_new windowStart
  | endSpan now _ ih => exact ih.endSpan now
  | prune windowStart _ ih => exact ih.prune windowStart

/-! ## `iter` -/

@[simp] theorem length_priorSpans (index lastStart : ℕ) (prior : List ℕ) :
    (priorSpans index lastStart prior).length = prior.length := by
  induction prior generalizing index lastStart with
  | nil => rfl
  | cons l prior ih => simp [priorSpans, ih]

theorem map_index_priorSpans {index : ℕ} (lastStart : ℕ) {prior : List ℕ}
    (hlen : prior.length ≤ index) :
    (priorSpans index lastStart prior).map (·.index) =
      (List.range prior.length).map fun k => index - (k + 1) := by
  induction prior generalizing index lastStart with
  | nil => rfl
  | cons l prior ih =>
    rw [List.length_cons] at hlen
    rw [priorSpans, List.map_cons, ih _ (by omega), List.length_cons, List.range_succ_eq_map,
      List.map_cons, List.map_map]
    congr 1
    exact List.map_congr_left fun k _ => by simp only [Function.comp_apply]; omega

/-- `iter` lists the indices from `span_index` down to
`span_index - prior.len()`. -/
theorem map_index_iter {sp : SlashingSpans} (hwf : sp.Wf) :
    sp.iter.map (·.index) = (List.range (sp.prior.length + 1)).map (sp.spanIndex - ·) := by
  rw [iter_eq, List.map_cons, map_index_priorSpans _ hwf.1, List.range_succ_eq_map, List.map_cons,
    List.map_map]
  rfl

theorem mem_map_index_iter {sp : SlashingSpans} (hwf : sp.Wf) {i : ℕ} :
    i ∈ sp.iter.map (·.index) ↔ sp.spanIndex - sp.prior.length ≤ i ∧ i ≤ sp.spanIndex := by
  rw [map_index_iter hwf, List.mem_map]
  constructor
  · rintro ⟨k, hk, rfl⟩
    rw [List.mem_range] at hk
    omega
  · rintro ⟨hlo, hhi⟩
    exact ⟨sp.spanIndex - i, List.mem_range.mpr (by omega), by omega⟩

/-- A span from `lastStart`, then the spans that ended before it, each
ending where the one listed before it starts. -/
theorem isChain_priorSpans {index lastStart : ℕ} {prior : List ℕ} (hsum : prior.sum ≤ lastStart)
    (span : SlashingSpan) (hstart : span.start = lastStart) :
    (span :: priorSpans index lastStart prior).IsChain fun newer older => older.EndsAt newer := by
  induction prior generalizing index lastStart span with
  | nil => exact List.isChain_singleton _
  | cons l prior ih =>
    rw [List.sum_cons] at hsum
    rw [priorSpans]
    refine List.isChain_cons_cons.mpr ⟨⟨l, rfl, ?_⟩, ih (by omega) _ rfl⟩
    dsimp only
    omega

theorem isChain_iter {sp : SlashingSpans} (hwf : sp.Wf) :
    sp.iter.IsChain fun newer older => older.EndsAt newer :=
  isChain_priorSpans hwf.2 _ rfl

/-! ## `prune` -/

/-- The spans that ended and that `prune` keeps were there before, and the
search of `prune` passed over them. -/
theorem mem_tail_iter_prune {sp : SlashingSpans} (hwf : sp.Wf) {windowStart : ℕ}
    {span : SlashingSpan} (h : span ∈ (sp.prune windowStart).2.iter.tail) :
    span ∈ sp.iter.tail ∧ (span.length.any fun len => decide (span.start + len ≤ windowStart)) = false := by
  by_cases hw : sp.lastStart < windowStart
  · rcases prune_cases hwf windowStart with ⟨o, hprune, hempty⟩ | ⟨hprune, hempty⟩ <;>
      rw [hprune, iter_eq] at h <;> simp [hempty hw, priorSpans] at h
  have hmax : max sp.lastStart windowStart = sp.lastStart := max_eq_left (Nat.le_of_not_lt hw)
  cases hfind : (sp.iter.drop 1).findIdx? (fun span =>
      span.length.any fun len => decide (span.start + len ≤ windowStart)) with
  | some o =>
    rw [prune_of_findIdx?_eq_some hfind, iter_eq] at h
    dsimp only at h
    rw [hmax, List.tail_cons, priorSpans_take, List.mem_take_iff_getElem] at h
    obtain ⟨j, hj, rfl⟩ := h
    rw [iter_eq, List.drop_one, List.tail_cons] at hfind
    obtain ⟨hlt, -, hbefore⟩ := List.findIdx?_eq_some_iff_getElem.mp hfind
    exact ⟨List.getElem_mem _, Bool.eq_false_iff.mpr (hbefore j (by omega))⟩
  | none =>
    rw [prune_of_findIdx?_eq_none hfind, iter_eq] at h
    dsimp only at h
    rw [hmax] at h
    exact ⟨h, List.findIdx?_eq_none_iff.mp hfind span h⟩

theorem lt_end_of_mem_tail_iter_prune {sp : SlashingSpans} (hwf : sp.Wf) {windowStart : ℕ}
    {span : SlashingSpan} (h : span ∈ (sp.prune windowStart).2.iter.tail) :
    ∃ length, span.length = some length ∧ windowStart < span.start + length := by
  obtain ⟨hold, hkept⟩ := mem_tail_iter_prune hwf h
  obtain ⟨length, hl, -⟩ := mem_priorSpans hold hwf.1 hwf.2
  refine ⟨length, hl, ?_⟩
  simpa [hl] using hkept

/-- The range `prune` returns holds exactly the indices of the spans it
dropped. -/
theorem mem_range_prune_iff {sp : SlashingSpans} (hwf : sp.Wf) (windowStart i : ℕ) :
    (i ∈ sp.iter.map (·.index) ∧ i ∉ (sp.prune windowStart).2.iter.map (·.index)) ↔
      ∃ startIndex endIndex, (sp.prune windowStart).1 = some (startIndex, endIndex) ∧
        startIndex ≤ i ∧ i < endIndex := by
  rw [mem_map_index_iter hwf, mem_map_index_iter (hwf.prune windowStart), prune_spanIndex hwf]
  have hlen := hwf.1
  cases hfind : (sp.iter.drop 1).findIdx? (fun span =>
      span.length.any fun len => decide (span.start + len ≤ windowStart)) with
  | some o =>
    -- the first span dropped is one of the spans that ended
    have ho : o < sp.prior.length := by
      obtain ⟨ho, -⟩ := List.findIdx?_eq_some_iff_getElem.mp hfind
      simpa [iter_eq] using ho
    rw [prune_of_findIdx?_eq_some hfind]
    simp only [List.length_take, min_eq_left ho.le, Option.some.injEq, Prod.mk.injEq]
    constructor
    · rintro ⟨⟨hlo, hhi⟩, hout⟩
      exact ⟨_, _, ⟨rfl, rfl⟩, hlo, by omega⟩
    · rintro ⟨_, _, ⟨rfl, rfl⟩, hlo, hhi⟩
      omega
  | none =>
    rw [prune_of_findIdx?_eq_none hfind]
    simp

/-! ## Runs -/

def endedOnce : SlashingSpans := ((new 3).endSpan 5).2

-- a window from era 6 drops the span that ended, under index 0
example : endedOnce.iter = [⟨1, 6, none⟩, ⟨0, 3, some 3⟩] ∧
    endedOnce.prune 6 = (some (0, 1), ⟨1, 6, 0, []⟩) := by
  decide

/-- Spans reached from `new` by `end_span` and `prune`: `iter` lists the
ongoing span from `last_start`, then the spans that ended under the indices
from `span_index` down, each ending where the next more recent one starts,
and no era lies in two of them. A `prune` against any window keeps only
spans that end after it, starts the ongoing span no earlier, and returns
the range of exactly the indices it drops. -/
theorem spans_wellFormed_of_reachable {sp : SlashingSpans} (h : Reachable sp) :
    sp.iter.head? = some ⟨sp.spanIndex, sp.lastStart, none⟩ ∧
    sp.prior.length ≤ sp.spanIndex ∧
    sp.iter.map (·.index) = (List.range (sp.prior.length + 1)).map (sp.spanIndex - ·) ∧
    sp.iter.IsChain (fun newer older => older.EndsAt newer) ∧
    (∀ era, ∀ span₁ ∈ sp.iter, ∀ span₂ ∈ sp.iter,
      span₁.containsEra era → span₂.containsEra era → span₁ = span₂) ∧
    ∀ windowStart,
      (∀ span ∈ (sp.prune windowStart).2.iter.tail,
        ∃ length, span.length = some length ∧ windowStart < span.start + length) ∧
      windowStart ≤ (sp.prune windowStart).2.lastStart ∧
      ∀ i, (i ∈ sp.iter.map (·.index) ∧ i ∉ (sp.prune windowStart).2.iter.map (·.index)) ↔
        ∃ startIndex endIndex, (sp.prune windowStart).1 = some (startIndex, endIndex) ∧
          startIndex ≤ i ∧ i < endIndex := by
  have hwf := h.wf
  refine ⟨rfl, hwf.1, map_index_iter hwf, isChain_iter hwf,
    fun era _ h₁ _ h₂ c₁ c₂ => eq_of_containsEra hwf h₁ h₂ c₁ c₂, fun windowStart => ?_⟩
  refine ⟨fun span hspan => lt_end_of_mem_tail_iter_prune hwf hspan, ?_,
    mem_range_prune_iff hwf windowStart⟩
  rw [prune_lastStart hwf]
  exact le_max_right _ _

theorem spans_wellFormed_of_endedOnce :
    Reachable endedOnce ∧
    endedOnce.iter.head? = some ⟨endedOnce.spanIndex, endedOnce.lastStart, none⟩ ∧
    endedOnce.prior.length ≤ endedOnce.spanIndex ∧
    endedOnce.iter.map (·.index) =
      (List.range (endedOnce.prior.length + 1)).map (endedOnce.spanIndex - ·) ∧
    endedOnce.iter.IsChain (fun newer older => older.EndsAt newer) ∧
    (∀ era, ∀ span₁ ∈ endedOnce.iter, ∀ span₂ ∈ endedOnce.iter,
      span₁.containsEra era → span₂.containsEra era → span₁ = span₂) ∧
    ∀ windowStart,
      (∀ span ∈ (endedOnce.prune windowStart).2.iter.tail,
        ∃ length, span.length = some length ∧ windowStart < span.start + length) ∧
      windowStart ≤ (endedOnce.prune windowStart).2.lastStart ∧
      ∀ i, (i ∈ endedOnce.iter.map (·.index) ∧
          i ∉ (endedOnce.prune windowStart).2.iter.map (·.index)) ↔
        ∃ startIndex endIndex, (endedOnce.prune windowStart).1 = some (startIndex, endIndex) ∧
          startIndex ≤ i ∧ i < endIndex :=
  ⟨.endSpan 5 (.new 3), spans_wellFormed_of_reachable (.endSpan 5 (.new 3))⟩

end SlashingSpans

end SocialNetwork.Staking
