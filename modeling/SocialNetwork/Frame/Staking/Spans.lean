import SocialNetwork.Frame.Staking.Slashing

/-!
# Slashing spans: which span holds an era

The spans `iter` lists are consecutive ranges of eras: the ongoing span
from `lastStart` on, and before it the spans that ended, each ending where
the next starts (`mem_priorSpans`). Spans built by `end_span` and `prune`
(`SlashingSpans.Wf`) hold each era at most once and have distinct indices
(`eq_of_containsEra`, `eq_of_index_eq`), so `era_span` finds the one span
of an era and `SpanSlash` has one record per span.

`end_span` closes the ongoing span at `now` and opens a new one
(`iter_endSpan`). `prune` keeps the ongoing span, started no earlier than
the window, and a most recent part of the spans before it; the range of
indices it returns holds none of the spans kept (`mem_iter_prune`).
-/

namespace SocialNetwork.Staking

namespace SlashingSpan

@[simp] theorem containsEra_ongoing (index start era : ℕ) :
    containsEra ⟨index, start, none⟩ era = decide (start ≤ era) := by
  simp [containsEra]

@[simp] theorem containsEra_closed (index start length era : ℕ) :
    containsEra ⟨index, start, some length⟩ era = decide (start ≤ era ∧ era < start + length) := by
  simp [containsEra]

end SlashingSpan

namespace SlashingSpans

/-- Spans as `end_span` and `prune` leave them: an index for each span that
ended, and their lengths within the eras before the ongoing span. -/
def Wf (sp : SlashingSpans) : Prop := sp.prior.length ≤ sp.spanIndex ∧ sp.prior.sum ≤ sp.lastStart

theorem wf_new (windowStart : ℕ) : (new windowStart).Wf := ⟨le_rfl, Nat.zero_le _⟩

theorem iter_eq (sp : SlashingSpans) :
    sp.iter = ⟨sp.spanIndex, sp.lastStart, none⟩ :: priorSpans sp.spanIndex sp.lastStart sp.prior :=
  rfl

/-- A span that ended lies before the span after it, and its index is
below that span's, at most as far as the number of spans that ended. -/
theorem mem_priorSpans {index lastStart : ℕ} {prior : List ℕ} {span : SlashingSpan}
    (h : span ∈ priorSpans index lastStart prior) (hlen : prior.length ≤ index)
    (hsum : prior.sum ≤ lastStart) :
    ∃ length, span.length = some length ∧ span.start + length ≤ lastStart ∧
      index - prior.length ≤ span.index ∧ span.index < index := by
  induction prior generalizing index lastStart with
  | nil => simp [priorSpans] at h
  | cons l prior ih =>
    simp only [priorSpans, List.mem_cons] at h
    simp only [List.length_cons, List.sum_cons] at hlen hsum ⊢
    rcases h with rfl | h
    · exact ⟨l, rfl, by dsimp only; omega, by dsimp only; omega, by dsimp only; omega⟩
    · -- the spans before the latest one end where it starts
      have hlen' : prior.length ≤ index - 1 := by omega
      have hsum' : prior.sum ≤ lastStart - l := by omega
      obtain ⟨length, hl, hend, hlo, hhi⟩ := ih h hlen' hsum'
      exact ⟨length, hl, by omega, by omega, by omega⟩

theorem lt_of_mem_priorSpans {index lastStart : ℕ} {prior : List ℕ} {span : SlashingSpan}
    (h : span ∈ priorSpans index lastStart prior) (hlen : prior.length ≤ index)
    (hsum : prior.sum ≤ lastStart) {era : ℕ} (hc : span.containsEra era) : era < lastStart := by
  obtain ⟨length, hl, hend, -, -⟩ := mem_priorSpans h hlen hsum
  simp only [SlashingSpan.containsEra, hl, Option.all_some, Bool.and_eq_true,
    decide_eq_true_eq] at hc
  omega

/-- A span from `lastStart` on, then the spans that ended before it: no era
lies in two of them. -/
theorem eq_of_containsEra_cons {index lastStart : ℕ} {prior : List ℕ}
    (hlen : prior.length ≤ index) (hsum : prior.sum ≤ lastStart) {head : SlashingSpan}
    (hhead : ∀ era, head.containsEra era → lastStart ≤ era) {span₁ span₂ : SlashingSpan}
    (h₁ : span₁ ∈ head :: priorSpans index lastStart prior)
    (h₂ : span₂ ∈ head :: priorSpans index lastStart prior) {era : ℕ}
    (c₁ : span₁.containsEra era) (c₂ : span₂.containsEra era) : span₁ = span₂ := by
  induction prior generalizing index lastStart head with
  | nil =>
    simp only [priorSpans, List.mem_singleton] at h₁ h₂
    rw [h₁, h₂]
  | cons l prior ih =>
    rw [List.mem_cons] at h₁ h₂
    rcases h₁ with rfl | h₁ <;> rcases h₂ with rfl | h₂
    · rfl
    · exact absurd (hhead era c₁) (Nat.not_le.mpr (lt_of_mem_priorSpans h₂ hlen hsum c₂))
    · exact absurd (hhead era c₂) (Nat.not_le.mpr (lt_of_mem_priorSpans h₁ hlen hsum c₁))
    · -- both ended: the latest of the spans that ended heads the rest
      simp only [List.length_cons, List.sum_cons] at hlen hsum
      rw [priorSpans] at h₁ h₂
      exact ih (by omega) (by omega) (fun era hc => by simp at hc; omega) h₁ h₂

theorem eq_of_containsEra {sp : SlashingSpans} (hwf : sp.Wf) {span₁ span₂ : SlashingSpan}
    (h₁ : span₁ ∈ sp.iter) (h₂ : span₂ ∈ sp.iter) {era : ℕ}
    (c₁ : span₁.containsEra era) (c₂ : span₂.containsEra era) : span₁ = span₂ :=
  eq_of_containsEra_cons hwf.1 hwf.2 (fun _ hc => by simpa using hc) h₁ h₂ c₁ c₂

/-- A span under `index`, then the spans that ended before it: no two share
an index. -/
theorem eq_of_index_eq_cons {index lastStart : ℕ} {prior : List ℕ}
    (hlen : prior.length ≤ index) (hsum : prior.sum ≤ lastStart) {head : SlashingSpan}
    (hhead : head.index = index) {span₁ span₂ : SlashingSpan}
    (h₁ : span₁ ∈ head :: priorSpans index lastStart prior)
    (h₂ : span₂ ∈ head :: priorSpans index lastStart prior) (hi : span₁.index = span₂.index) :
    span₁ = span₂ := by
  induction prior generalizing index lastStart head with
  | nil =>
    simp only [priorSpans, List.mem_singleton] at h₁ h₂
    rw [h₁, h₂]
  | cons l prior ih =>
    rw [List.mem_cons] at h₁ h₂
    rcases h₁ with rfl | h₁ <;> rcases h₂ with rfl | h₂
    · rfl
    · obtain ⟨-, -, -, -, hlt⟩ := mem_priorSpans h₂ hlen hsum
      omega
    · obtain ⟨-, -, -, -, hlt⟩ := mem_priorSpans h₁ hlen hsum
      omega
    · simp only [List.length_cons, List.sum_cons] at hlen hsum
      rw [priorSpans] at h₁ h₂
      refine ih ?_ ?_ ?_ h₁ h₂
      · omega
      · omega
      · rfl

theorem eq_of_index_eq {sp : SlashingSpans} (hwf : sp.Wf) {span₁ span₂ : SlashingSpan}
    (h₁ : span₁ ∈ sp.iter) (h₂ : span₂ ∈ sp.iter) (hi : span₁.index = span₂.index) :
    span₁ = span₂ :=
  eq_of_index_eq_cons hwf.1 hwf.2 rfl h₁ h₂ hi

/-- Another span than the one holding an era neither holds it nor shares
its index. -/
theorem ne_of_mem_of_ne {sp : SlashingSpans} (hwf : sp.Wf) {target span : SlashingSpan}
    (ht : target ∈ sp.iter) (hs : span ∈ sp.iter) (hne : span ≠ target) {era : ℕ}
    (hc : target.containsEra era) : span.containsEra era = false ∧ span.index ≠ target.index := by
  constructor
  · by_contra h
    exact hne (eq_of_containsEra hwf hs ht (by simpa using h) hc)
  · exact fun hi => hne (eq_of_index_eq hwf hs ht hi)

/-- `era_span`'s search: the span it finds holds the era, and with none,
no span does. -/
theorem find?_containsEra_spec (sp : SlashingSpans) (era : ℕ) :
    match sp.iter.find? (·.containsEra era) with
    | some target => target ∈ sp.iter ∧ target.containsEra era
    | none => ∀ span ∈ sp.iter, span.containsEra era = false := by
  split
  · next target h => exact ⟨List.mem_of_find?_eq_some h, by simpa using List.find?_some h⟩
  · next h => simpa using List.find?_eq_none.mp h

theorem eq_ongoing_of_index_eq {sp : SlashingSpans} (hwf : sp.Wf) {span : SlashingSpan}
    (h : span ∈ sp.iter) (hi : span.index = sp.spanIndex) :
    span = ⟨sp.spanIndex, sp.lastStart, none⟩ :=
  eq_of_index_eq hwf h (List.mem_cons_self ..) hi

theorem lastStart_le_of_index_eq {sp : SlashingSpans} (hwf : sp.Wf) {span : SlashingSpan}
    (h : span ∈ sp.iter) (hi : span.index = sp.spanIndex) {era : ℕ} (hc : span.containsEra era) :
    sp.lastStart ≤ era := by
  rw [eq_ongoing_of_index_eq hwf h hi] at hc
  simpa using hc

theorem lt_lastStart_of_index_ne {sp : SlashingSpans} (hwf : sp.Wf) {span : SlashingSpan}
    (h : span ∈ sp.iter) (hi : span.index ≠ sp.spanIndex) {era : ℕ} (hc : span.containsEra era) :
    era < sp.lastStart := by
  rw [iter_eq, List.mem_cons] at h
  rcases h with rfl | h
  · exact absurd rfl hi
  · exact lt_of_mem_priorSpans h hwf.1 hwf.2 hc

/-! ## `end_span` -/

theorem endSpan_of_le {sp : SlashingSpans} {now : ℕ} (h : now + 1 ≤ sp.lastStart) :
    sp.endSpan now = (false, sp) := by
  simp [endSpan, h]

theorem endSpan_of_lt {sp : SlashingSpans} {now : ℕ} (h : sp.lastStart < now + 1) :
    sp.endSpan now = (true, ⟨sp.spanIndex + 1, now + 1, sp.lastNonzeroSlash,
      (now + 1 - sp.lastStart) :: sp.prior⟩) := by
  simp [endSpan, Nat.not_le.mpr h]

theorem endSpan_lastNonzeroSlash (sp : SlashingSpans) (now x : ℕ) :
    { sp with lastNonzeroSlash := x }.endSpan now =
      ((sp.endSpan now).1, { (sp.endSpan now).2 with lastNonzeroSlash := x }) := by
  by_cases h : now + 1 ≤ sp.lastStart
  · rw [endSpan_of_le h, @endSpan_of_le { sp with lastNonzeroSlash := x } now h]
  · have hlt := Nat.lt_of_not_le h
    rw [endSpan_of_lt hlt, @endSpan_of_lt { sp with lastNonzeroSlash := x } now hlt]

/-- Ending the ongoing span closes it at `now` under its index, and the new
ongoing span takes the next index. -/
theorem iter_endSpan {sp : SlashingSpans} {now : ℕ} (h : sp.lastStart < now + 1) :
    (sp.endSpan now).2.iter = ⟨sp.spanIndex + 1, now + 1, none⟩ ::
      ⟨sp.spanIndex, sp.lastStart, some (now + 1 - sp.lastStart)⟩ ::
        priorSpans sp.spanIndex sp.lastStart sp.prior := by
  have hstart : now + 1 - (now + 1 - sp.lastStart) = sp.lastStart := by omega
  rw [endSpan_of_lt h]
  simp [iter, priorSpans, hstart]

theorem Wf.endSpan {sp : SlashingSpans} (hwf : sp.Wf) (now : ℕ) : (sp.endSpan now).2.Wf := by
  by_cases h : now + 1 ≤ sp.lastStart
  · rwa [endSpan_of_le h]
  · rw [endSpan_of_lt (Nat.lt_of_not_le h)]
    have := hwf.2
    exact ⟨by simpa using hwf.1, by simp; omega⟩

/-! ## `prune` -/

theorem priorSpans_take (index lastStart : ℕ) (prior : List ℕ) (o : ℕ) :
    priorSpans index lastStart (prior.take o) = (priorSpans index lastStart prior).take o := by
  induction prior generalizing index lastStart o with
  | nil => simp [priorSpans]
  | cons l prior ih =>
    cases o with
    | zero => simp [priorSpans]
    | succ o => simp [priorSpans, ih]

/-- When the window is past the ongoing span's start, every span that ended
ends by it, so `prune` drops them all. -/
theorem findIdx?_prune_of_lt {sp : SlashingSpans} (hwf : sp.Wf) {windowStart : ℕ}
    (hw : sp.lastStart < windowStart) (hprior : sp.prior ≠ []) :
    (sp.iter.drop 1).findIdx? (fun span =>
      span.length.any fun len => decide (span.start + len ≤ windowStart)) = some 0 := by
  obtain ⟨l, prior, hcons⟩ := List.exists_cons_of_ne_nil hprior
  have hl : l ≤ sp.lastStart := by
    have := hwf.2
    rw [hcons, List.sum_cons] at this
    omega
  rw [iter_eq, hcons]
  simp only [List.drop_succ_cons, List.drop_zero, priorSpans, List.findIdx?_cons, Option.any_some]
  have : sp.lastStart - l + l ≤ windowStart := by omega
  simp [this]

theorem prune_of_findIdx?_eq_some {sp : SlashingSpans} {windowStart o : ℕ}
    (h : (sp.iter.drop 1).findIdx? (fun span =>
      span.length.any fun len => decide (span.start + len ≤ windowStart)) = some o) :
    sp.prune windowStart = (some (sp.spanIndex - sp.prior.length, sp.spanIndex - (sp.prior.take o).length),
      { sp with prior := sp.prior.take o, lastStart := max sp.lastStart windowStart }) := by
  unfold SlashingSpans.prune
  simp only [h]

theorem prune_of_findIdx?_eq_none {sp : SlashingSpans} {windowStart : ℕ}
    (h : (sp.iter.drop 1).findIdx? (fun span =>
      span.length.any fun len => decide (span.start + len ≤ windowStart)) = none) :
    sp.prune windowStart = (none, { sp with lastStart := max sp.lastStart windowStart }) := by
  unfold SlashingSpans.prune
  simp only [h]

/-- What `prune` leaves and the range it returns: when the window is past
the ongoing span's start, no span that ended is left. -/
theorem prune_cases {sp : SlashingSpans} (hwf : sp.Wf) (windowStart : ℕ) :
    (∃ o, sp.prune windowStart =
        (some (sp.spanIndex - sp.prior.length, sp.spanIndex - (sp.prior.take o).length),
          { sp with prior := sp.prior.take o, lastStart := max sp.lastStart windowStart }) ∧
        (sp.lastStart < windowStart → sp.prior.take o = [])) ∨
      (sp.prune windowStart = (none, { sp with lastStart := max sp.lastStart windowStart }) ∧
        (sp.lastStart < windowStart → sp.prior = [])) := by
  cases h : (sp.iter.drop 1).findIdx? (fun span =>
      span.length.any fun len => decide (span.start + len ≤ windowStart)) with
  | some o =>
    refine .inl ⟨o, prune_of_findIdx?_eq_some h, fun hw => ?_⟩
    by_cases hprior : sp.prior = []
    · simp [hprior]
    · -- the first span that ended already ends by the window
      rw [findIdx?_prune_of_lt hwf hw hprior, Option.some.injEq] at h
      simp [← h]
  | none =>
    refine .inr ⟨prune_of_findIdx?_eq_none h, fun hw => ?_⟩
    by_contra hprior
    rw [findIdx?_prune_of_lt hwf hw hprior] at h
    cases h

theorem Wf.prune {sp : SlashingSpans} (hwf : sp.Wf) (windowStart : ℕ) :
    (sp.prune windowStart).2.Wf := by
  rcases prune_cases hwf windowStart with ⟨o, h, -⟩ | ⟨h, -⟩ <;> rw [h]
  · have := List.sum_take_add_sum_drop sp.prior o
    exact ⟨(List.take_sublist _ _).length_le.trans hwf.1,
      by have := hwf.2; have := le_max_left sp.lastStart windowStart; dsimp only; omega⟩
  · exact ⟨hwf.1, hwf.2.trans (le_max_left _ _)⟩

theorem prune_spanIndex {sp : SlashingSpans} (hwf : sp.Wf) (windowStart : ℕ) :
    (sp.prune windowStart).2.spanIndex = sp.spanIndex := by
  rcases prune_cases hwf windowStart with ⟨o, h, -⟩ | ⟨h, -⟩ <;> rw [h]

theorem prune_lastStart {sp : SlashingSpans} (hwf : sp.Wf) (windowStart : ℕ) :
    (sp.prune windowStart).2.lastStart = max sp.lastStart windowStart := by
  rcases prune_cases hwf windowStart with ⟨o, h, -⟩ | ⟨h, -⟩ <;> rw [h]

theorem prune_range_le {sp : SlashingSpans} (hwf : sp.Wf) {windowStart startIndex endIndex : ℕ}
    (hrange : (sp.prune windowStart).1 = some (startIndex, endIndex)) : endIndex ≤ sp.spanIndex := by
  rcases prune_cases hwf windowStart with ⟨o, h, -⟩ | ⟨h, -⟩ <;> rw [h] at hrange
  · simp only [Option.some.injEq, Prod.mk.injEq] at hrange
    omega
  · cases hrange

/-- After `prune`, a span is the ongoing one, started no earlier than the
window, or one that had ended before and whose index is past the range
`prune` returns. -/
theorem mem_iter_prune {sp : SlashingSpans} (hwf : sp.Wf) {windowStart : ℕ} {span : SlashingSpan}
    (h : span ∈ (sp.prune windowStart).2.iter) :
    span = ⟨sp.spanIndex, max sp.lastStart windowStart, none⟩ ∨
      (span ∈ priorSpans sp.spanIndex sp.lastStart sp.prior ∧
        ∀ startIndex endIndex, (sp.prune windowStart).1 = some (startIndex, endIndex) →
          endIndex ≤ span.index) := by
  rcases prune_cases hwf windowStart with ⟨o, hprune, hempty⟩ | ⟨hprune, hempty⟩ <;>
    rw [hprune] at h ⊢ <;> rw [iter_eq, List.mem_cons] at h <;> rcases h with h | h
  · exact .inl h
  · -- the spans kept are counted back from the same start: all were dropped otherwise
    by_cases hw : sp.lastStart < windowStart
    · simp [hempty hw, priorSpans] at h
    have hmax : max sp.lastStart windowStart = sp.lastStart := max_eq_left (Nat.le_of_not_lt hw)
    have htake := List.sum_take_add_sum_drop sp.prior o
    dsimp only at h
    rw [hmax] at h
    obtain ⟨-, -, -, hlo, -⟩ := mem_priorSpans h ((List.take_sublist _ _).length_le.trans hwf.1)
      (by have := hwf.2; omega)
    refine .inr ⟨?_, fun startIndex endIndex hrange => ?_⟩
    · rw [priorSpans_take] at h
      exact List.mem_of_mem_take h
    · simp only [Option.some.injEq, Prod.mk.injEq] at hrange
      omega
  · exact .inl h
  · by_cases hw : sp.lastStart < windowStart
    · simp [hempty hw, priorSpans] at h
    have hmax : max sp.lastStart windowStart = sp.lastStart := max_eq_left (Nat.le_of_not_lt hw)
    dsimp only at h
    rw [hmax] at h
    exact .inr ⟨h, fun _ _ hrange => by cases hrange⟩

end SlashingSpans

end SocialNetwork.Staking
