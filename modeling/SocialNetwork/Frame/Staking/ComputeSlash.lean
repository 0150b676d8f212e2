import SocialNetwork.Frame.Staking.SlashSteps

/-!
# Slashes within a span do not compound

Over a run of `compute_slash`, every span of a stash `s` records what the
run slashed `s` for the offences in its eras. That amount is the largest
era slash of `s` reported in the span, and its reward stays within the
reward proportion (`span_slash_is_max_of_era_slashes`).

The proof follows the run call by call (`Tracks.computeSlash`). A call
about another stash keeps the view of `s` (`SameView`). A call that slashes
`s` reports its era slash once, through the spans block (`Tracks.inspectSpans`),
as the validator or as one of the nominators (`Tracks.slashNominatorsLoop`).
A call that slashes nothing may only end the ongoing span of `s`
(`Tracks.kickOutIfRecent`).

An offence is reported in an era up to `now`. A report for a later era
lands in the ongoing span, and that span is ended at `now`. The record is
then kept under a span that does not hold the era
(`future_slash_escapes_span`).
-/

namespace SocialNetwork.Staking

open Arithmetic Unsigned MaxLedger

variable {AccountId : Type} [DecidableEq AccountId]

/-- How a stash takes part in a call, as the run requires: as the validator,
it is none of its own nominators; as a nominator, it is not the offender
and backs it at most once. Backing it twice, the stash is reported twice in
one call, and its era slash, added to with wrapping, may end below what the
first report recorded (`twice_backed_span_slash_above_era_slashes`). -/
def Role.Keeps (role : Role) (s : AccountId) (params : SlashParams AccountId) : Prop :=
  match role with
  | .validator => ∀ nominator ∈ params.exposure.others, nominator.who ≠ s
  | .nominator => params.stash ≠ s ∧ (params.exposure.others.map (·.who)).count s ≤ 1

instance (role : Role) (s : AccountId) (params : SlashParams AccountId) :
    Decidable (role.Keeps s params) :=
  match role with
  | .validator =>
    inferInstanceAs (Decidable (∀ nominator ∈ params.exposure.others, nominator.who ≠ s))
  | .nominator =>
    inferInstanceAs (Decidable (params.stash ≠ s ∧ (params.exposure.others.map (·.who)).count s ≤ 1))

/-- How a call of a run appears in the log of `s`: its era, what it recorded
for `s`, and the era slash of `s` after it. -/
def SlashEntry.ofTrace (role : Role) (s : AccountId)
    (x : SlashParams AccountId × Option (UnappliedSlash AccountId) × SlashingState AccountId) :
    SlashEntry :=
  ⟨x.1.slashEra, role.recorded s x.2.1, role.eraSlash x.2.2 x.1.slashEra s⟩

theorem slashNominatorsLoop_cons (T : SlashParams AccountId) (priorSlashP : Perbill)
    (nominator : IndividualExposure AccountId) (rest : List (IndividualExposure AccountId))
    (rewardPayout : ℕ) (st : SlashingState AccountId) :
    slashNominatorsLoop T priorSlashP (nominator :: rest) rewardPayout st =
      ((((slashNominatorsLoop T priorSlashP rest
          (slashNominator T priorSlashP nominator rewardPayout st).1.2
          (slashNominator T priorSlashP nominator rewardPayout st).2).1.1),
        (nominator.who, (slashNominator T priorSlashP nominator rewardPayout st).1.1) ::
          (slashNominatorsLoop T priorSlashP rest
            (slashNominator T priorSlashP nominator rewardPayout st).1.2
            (slashNominator T priorSlashP nominator rewardPayout st).2).1.2),
        (slashNominatorsLoop T priorSlashP rest
          (slashNominator T priorSlashP nominator rewardPayout st).1.2
          (slashNominator T priorSlashP nominator rewardPayout st).2).2) := rfl

theorem slashNominatorsLoop_who (params : SlashParams AccountId) (priorSlashP : Perbill) :
    ∀ (nominators : List (IndividualExposure AccountId)) (rewardPayout : ℕ)
      (st : SlashingState AccountId),
      (slashNominatorsLoop params priorSlashP nominators rewardPayout st).1.2.map Prod.fst =
        nominators.map (·.who)
  | [], _, _ => rfl
  | nominator :: rest, rewardPayout, st => by
    rw [slashNominatorsLoop_cons, List.map_cons, List.map_cons,
      slashNominatorsLoop_who params priorSlashP rest]

theorem computeSlashes_cons (T : SlashConfig AccountId) (params : SlashParams AccountId)
    (rest : List (SlashParams AccountId)) (st : SlashingState AccountId) :
    computeSlashes T (params :: rest) st =
      ((params, computeSlash T params st) :: (computeSlashes T rest (computeSlash T params st).2).1,
        (computeSlashes T rest (computeSlash T params st).2).2) := rfl

theorem slashNominatorsLoop_filter_eq_nil {s : AccountId} (params : SlashParams AccountId)
    (priorSlashP : Perbill) (nominators : List (IndividualExposure AccountId))
    (h : ∀ n ∈ nominators, n.who ≠ s) (rewardPayout : ℕ) (st : SlashingState AccountId) :
    (slashNominatorsLoop params priorSlashP nominators rewardPayout st).1.2.filter (·.1 = s) = [] := by
  rw [List.filter_eq_nil_iff]
  intro x hx
  have hwho : x.1 ∈ nominators.map (·.who) := by
    rw [← slashNominatorsLoop_who params priorSlashP nominators]
    exact List.mem_map_of_mem hx
  obtain ⟨n, hn, hnx⟩ := List.mem_map.mp hwho
  simpa [← hnx] using h n hn

section Step

variable {role : Role} {r : Perbill} {s : AccountId} {log : List SlashEntry}

/-! ## Calls about other stashes -/

theorem sameView_kickOutIfRecent (T : SlashConfig AccountId) {st : SlashingState AccountId}
    {params : SlashParams AccountId} (h : params.stash ≠ s) :
    SameView role s st (kickOutIfRecent T params st) := by
  unfold kickOutIfRecent
  rw [fetchSpans_eq]
  dsimp only
  have hfetch : SameView role s st (st.setSlashingSpans params.stash
      ((st.slashingSpans params.stash).getD (.new params.windowStart))) :=
    sameView_setSlashingSpans h _
  split_ifs
  · exact hfetch.trans ((sameView_chillAndDisable T _).trans (sameView_drop h))
  · exact hfetch.trans (sameView_drop h)

theorem sameView_slashNominator {st : SlashingState AccountId} (params : SlashParams AccountId)
    (priorSlashP : Perbill) {nominator : IndividualExposure AccountId} (h : nominator.who ≠ s)
    (rewardPayout : ℕ) :
    SameView role s st (slashNominator params priorSlashP nominator rewardPayout st).2 := by
  unfold slashNominator
  exact (sameView_setNominatorSlashInEra (.inl h) _ _).trans
    (sameView_inspectSpans h _ _ _ _ _ _ fun _ => .refl _)

theorem sameView_slashNominatorsLoop (params : SlashParams AccountId) (priorSlashP : Perbill) :
    ∀ (nominators : List (IndividualExposure AccountId)), (∀ n ∈ nominators, n.who ≠ s) →
      ∀ (rewardPayout : ℕ) (st : SlashingState AccountId),
        SameView role s st (slashNominatorsLoop params priorSlashP nominators rewardPayout st).2
  | [], _, _, st => .refl st
  | nominator :: rest, h, rewardPayout, st => by
    rw [slashNominatorsLoop_cons]
    exact (sameView_slashNominator params priorSlashP (h nominator (List.mem_cons_self ..)) _).trans
      (sameView_slashNominatorsLoop params priorSlashP rest
        (fun n hn => h n (List.mem_cons_of_mem _ hn)) _ _)

/-! ## The spans block of `s` -/

/-- The spans block for `s`, after its era slash for `era` was set to
`slash`: the report joins the log, with what the block returns as the slash
of `s`. -/
theorem Tracks.inspectSpans {st₀ : SlashingState AccountId} (h : Tracks role r s st₀ log)
    (st : SlashingState AccountId) (hspans : st.slashingSpans s = st₀.slashingSpans s)
    (hspanSlash : ∀ i, st.spanSlash (s, i) = st₀.spanSlash (s, i)) {era slash : ℕ}
    (heraSlash : ∀ e, role.eraSlash st e s = if e = era then slash else role.eraSlash st₀ e s)
    (hslash : slash < 2 ^ balanceBits) {now : ℕ} (hnow : era ≤ now) (windowStart paidOut : ℕ)
    {onEnd : SlashingState AccountId → SlashingState AccountId}
    (honEnd : ∀ st, SameView role s st (onEnd st)) :
    Tracks role r s (inspectSpans s windowStart now paidOut r era slash onEnd st).2
      (log ++ [⟨era, (inspectSpans s windowStart now paidOut r era slash onEnd st).1.1, slash⟩]) := by
  set sp := (st₀.slashingSpans s).getD (.new windowStart)
  have htracked : Tracked role r s st₀ sp log := h.tracked windowStart
  unfold Staking.inspectSpans
  rw [fetchSpans_eq, hspans]
  dsimp only
  set spans₀ : InspectingSpans AccountId := ⟨false, windowStart, s, sp, paidOut, 0, r⟩
  set st₁ := st.setSlashingSpans s sp
  have hstored : st₁.slashingSpans s = some sp := by simp [st₁]
  have hrecords : ∀ i, st₁.spanSlash (s, i) = st₀.spanSlash (s, i) := by simp [st₁, hspanSlash]
  have heras : ∀ e, role.eraSlash st₁ e s = if e = era then slash else role.eraSlash st₀ e s := by
    simp [st₁, heraSlash]
  have hspec := SlashingSpans.find?_containsEra_spec sp era
  cases he : spans₀.eraSpan era with
  | none =>
    -- no span holds the era: nothing is compared, and the spans stay clean
    rw [show sp.iter.find? _ = none from he] at hspec
    rw [spans₀.compareAndUpdateSpanSlash_of_eraSpan_none he]
    dsimp only
    rw [if_neg (by simp), spans₀.drop_of_clean rfl, tracks_of_some hstored]
    exact htracked.reportOutside hspec slash heras hrecords
  | some target =>
    rw [show sp.iter.find? _ = some target from he] at hspec
    obtain ⟨ht, hc⟩ := hspec
    obtain ⟨spans₁, heq, hstash, -, hslashOf, hspans₁, hclean⟩ :=
      spans₀.compareAndUpdateSpanSlash_of_eraSpan he slash st₁ (by simp [spans₀])
    set st₂ := st₁.setSpanSlash (s, target.index)
      ((st₁.spanSlash (s, target.index)).afterReport r slash)
    have hreported : Tracked role r s st₂
        (if target.index = sp.spanIndex then (sp.endSpan now).2 else sp)
        (log ++ [⟨era, (st₀.spanSlash (s, target.index)).reportAmount slash, slash⟩]) := by
      refine htracked.reportAt ht hc hnow hslash (by simp [st₂, heras]) fun i => ?_
      by_cases hi : i = target.index
      · subst hi
        simp [st₂, hrecords]
      · simp [st₂, hi, hrecords]
    have hamount : spans₁.slashOf = (st₀.spanSlash (s, target.index)).reportAmount slash := by
      have := (st₀.spanSlash (s, target.index)).reportAmount_le slash
      rw [hslashOf]
      show wrappingAdd balanceBits 0 ((st₁.spanSlash (s, target.index)).reportAmount slash) = _
      rw [hrecords, wrappingAdd_of_lt (by omega), Nat.zero_add]
    have hindex : spans₁.spanIndex = sp.spanIndex := by
      rw [InspectingSpans.spanIndex, hspans₁]
    rw [heq]
    dsimp only
    by_cases hongoing : target.index = sp.spanIndex
    · -- the ongoing span ends: the spans are dirty and written back pruned
      rw [if_pos (by rw [hindex, hongoing])]
      rw [if_pos hongoing] at hreported
      have hlt : sp.lastStart < now + 1 := by
        have := SlashingSpans.lastStart_le_of_index_eq htracked.wf ht hongoing hc
        omega
      have hended : (spans₁.endSpan now).spans =
          { (sp.endSpan now).2 with lastNonzeroSlash := spans₁.spans.lastNonzeroSlash } := by
        rw [InspectingSpans.endSpan, hspans₁, SlashingSpans.endSpan_lastNonzeroSlash]
      have hdirty : (spans₁.endSpan now).dirty = true := by
        rw [InspectingSpans.endSpan, hspans₁, SlashingSpans.endSpan_lastNonzeroSlash,
          SlashingSpans.endSpan_of_lt hlt]
        rfl
      have hdrop := Tracked.drop (spans₁.endSpan now)
        (hended ▸ (hreported.congr (honEnd st₂).spanSlash (honEnd st₂).eraSlash).lastNonzeroSlash _)
        hstash (fun hclean' => by rw [hdirty] at hclean'; cases hclean')
      rw [show (spans₁.endSpan now).slashOf = _ from hamount]
      exact hdrop
    · -- a span that ended: the spans are written back only if dirty
      rw [if_neg (by rw [hindex]; simpa using hongoing)]
      rw [if_neg hongoing] at hreported
      have hdrop := Tracked.drop spans₁ (hspans₁ ▸ hreported.lastNonzeroSlash _) hstash
        (fun hd => by
          rw [hclean hd]
          simpa [st₂] using hstored)
      rw [hamount]
      exact hdrop

/-- `kick_out_if_recent` for `s`: nothing is recorded, and an offence in
the ongoing span ends it. -/
theorem Tracks.kickOutIfRecent (T : SlashConfig AccountId) {st : SlashingState AccountId}
    (h : Tracks role r s st log) {params : SlashParams AccountId} (hs : params.stash = s)
    (hnow : params.slashEra ≤ params.now) :
    Tracks role r s (kickOutIfRecent T params st)
      (log ++ [⟨params.slashEra, 0, role.eraSlash st params.slashEra s⟩]) := by
  subst hs
  set sp := (st.slashingSpans params.stash).getD (.new params.windowStart)
  have htracked := (h.tracked params.windowStart).quiet params.slashEra
  unfold Staking.kickOutIfRecent
  rw [fetchSpans_eq]
  dsimp only
  set spans₀ : InspectingSpans AccountId :=
    ⟨false, params.windowStart, params.stash, sp, 0, 0, params.rewardProportion⟩
  set st₁ := st.setSlashingSpans params.stash sp
  split_ifs with hrecent
  · -- an offence in the ongoing span: it ends at `now`
    obtain ⟨target, he, hi⟩ := Option.map_eq_some_iff.mp hrecent
    have hspec := SlashingSpans.find?_containsEra_spec sp params.slashEra
    rw [show sp.iter.find? _ = some target from he] at hspec
    have hstart : sp.lastStart ≤ params.slashEra :=
      SlashingSpans.lastStart_le_of_index_eq htracked.wf hspec.1 hi hspec.2
    have hlt : sp.lastStart < params.now + 1 := by omega
    have hended : Tracked role r params.stash (chillAndDisable T params.stash st₁)
        (sp.endSpan params.now).2 _ :=
      (htracked.endSpan (show sp.lastStart ≤ params.now by omega)).congr
        (fun i => by simp [st₁]) (fun e => by simp [st₁])
    refine Tracked.drop (spans₀.endSpan params.now) hended rfl fun hclean => ?_
    simp [spans₀, InspectingSpans.endSpan, SlashingSpans.endSpan_of_lt hlt] at hclean
  · -- otherwise the spans stay clean, as fetched
    rw [spans₀.drop_of_clean rfl, tracks_of_some (show st₁.slashingSpans params.stash = some sp by
      simp [st₁])]
    exact htracked.congr (fun _ => rfl) (fun e => by simp [st₁])

/-! ## The nominators of an offender -/

/-- One nominator of `slash_nominators`, when it is `s`: its era slash
grows, and is reported to its spans. -/
theorem Tracks.slashNominator {st : SlashingState AccountId} (h : Tracks .nominator r s st log)
    {params : SlashParams AccountId} (hr : params.rewardProportion = r)
    (hnow : params.slashEra ≤ params.now) (priorSlashP : Perbill)
    {nominator : IndividualExposure AccountId} (hwho : nominator.who = s) (rewardPayout : ℕ) :
    Tracks .nominator r s (slashNominator params priorSlashP nominator rewardPayout st).2
      (log ++ [⟨params.slashEra, (slashNominator params priorSlashP nominator rewardPayout st).1.1,
        Role.nominator.eraSlash (slashNominator params priorSlashP nominator rewardPayout st).2
          params.slashEra s⟩]) := by
  subst hwho hr
  unfold Staking.slashNominator
  dsimp only
  rw [Role.eraSlash_inspectSpans _ _ _ _ _ _ _ _ _
      fun st => (rfl : Role.nominator.eraSlash (id st) = Role.nominator.eraSlash st),
    Role.eraSlash_setNominatorSlashInEra, if_pos ⟨rfl, rfl⟩]
  refine h.inspectSpans _ ?_ ?_ ?_ wrappingAdd_lt hnow _ _ ?_
  · rfl
  · exact fun _ => rfl
  · intro e
    rw [Role.eraSlash_setNominatorSlashInEra]
    by_cases he : e = params.slashEra <;> simp [he]
  · exact fun _ => .refl _

/-- `slash_nominators` over nominators among which `s` is once: its one
report joins the log, with its entry among those slashed. -/
theorem Tracks.slashNominatorsLoop {params : SlashParams AccountId}
    (hr : params.rewardProportion = r) (hnow : params.slashEra ≤ params.now) (priorSlashP : Perbill) :
    ∀ (nominators : List (IndividualExposure AccountId)) (rewardPayout : ℕ)
      (st : SlashingState AccountId) (log : List SlashEntry), Tracks .nominator r s st log →
      (nominators.map (·.who)).count s = 1 →
      Tracks .nominator r s (slashNominatorsLoop params priorSlashP nominators rewardPayout st).2
        (log ++ [⟨params.slashEra,
          ((((slashNominatorsLoop params priorSlashP nominators rewardPayout st).1.2.filter
            (·.1 = s)).map (·.2)).sum),
          Role.nominator.eraSlash (slashNominatorsLoop params priorSlashP nominators rewardPayout st).2
            params.slashEra s⟩])
  | [], _, _, _, _, hcount => by simp at hcount
  | nominator :: rest, rewardPayout, st, log, h, hcount => by
    rw [slashNominatorsLoop_cons]
    dsimp only
    by_cases hwho : nominator.who = s
    · -- `s` itself: reported here, and the rest leave it
      have hrest : ∀ n ∈ rest, n.who ≠ s := by
        intro n hn hn'
        have : (rest.map (·.who)).count s = 0 := by simpa [hwho] using hcount
        exact List.count_eq_zero.mp this (List.mem_map.mpr ⟨n, hn, hn'⟩)
      have hfirst := h.slashNominator hr hnow priorSlashP hwho rewardPayout
      generalize Staking.slashNominator params priorSlashP nominator rewardPayout st = first at hfirst ⊢
      have hview : SameView .nominator s first.2
          (Staking.slashNominatorsLoop params priorSlashP rest first.1.2 first.2).2 :=
        sameView_slashNominatorsLoop params priorSlashP rest hrest _ _
      -- the rest report amounts for their own stashes only
      have hnone := slashNominatorsLoop_filter_eq_nil params priorSlashP rest hrest first.1.2 first.2
      rw [List.filter_cons_of_pos (by simpa using hwho), hnone, hview.eraSlash]
      simpa using hfirst.congr hview
    · -- another nominator: `s` keeps its view, and is among the rest
      have hcount' : (rest.map (·.who)).count s = 1 := by simpa [hwho] using hcount
      have hview : SameView .nominator s st
          (Staking.slashNominator params priorSlashP nominator rewardPayout st).2 :=
        sameView_slashNominator params priorSlashP hwho rewardPayout
      rw [List.filter_cons_of_neg (by simpa using hwho)]
      exact Tracks.slashNominatorsLoop hr hnow priorSlashP rest _ _ log (h.congr hview) hcount'

/-! ## One call, and a run -/

theorem Tracks.computeSlash (T : SlashConfig AccountId) {st : SlashingState AccountId}
    (h : Tracks role r s st log) {params : SlashParams AccountId} (hkeeps : role.Keeps s params)
    (hnow : params.slashEra ≤ params.now) (hr : params.rewardProportion = r)
    (hown : params.exposure.own < 2 ^ balanceBits) :
    Tracks role r s (computeSlash T params st).2
      (log ++ [SlashEntry.ofTrace role s (params, computeSlash T params st)]) := by
  subst hr
  unfold SlashEntry.ofTrace Staking.computeSlash
  dsimp only
  split_ifs with hzero hnew
  · -- nothing to slash: the ongoing span may end
    rw [Role.eraSlash_kickOutIfRecent]
    by_cases hs : params.stash = s
    · exact h.kickOutIfRecent T hs hnow
    · exact (h.quiet params.slashEra).congr (sameView_kickOutIfRecent T hs)
  · -- a new maximum proportion for the validator in its era
    set st₁ := st.setValidatorSlashInEra params.slashEra params.stash
      (params.slash, params.slash.mul params.exposure.own)
    have hownSlash : params.slash.mul params.exposure.own < 2 ^ balanceBits :=
      lt_of_le_of_lt (PerThing.mul_le_self _ _) hown
    cases role with
    | validator =>
      by_cases hs : params.stash = s
      · -- `s` is the offender: its own era slash is reported, its nominators leave it
        subst hs
        have hreport := h.inspectSpans st₁ rfl (fun _ => rfl) (fun e => by
            rw [Role.eraSlash_setValidatorSlashInEra]
            by_cases he : e = params.slashEra <;> simp [he])
          hownSlash hnow params.windowStart 0 fun _ => sameView_chillAndDisable T params.stash
        have hera : Role.validator.eraSlash
            (Staking.inspectSpans params.stash params.windowStart params.now 0 params.rewardProportion
              params.slashEra (params.slash.mul params.exposure.own) (chillAndDisable T params.stash)
              st₁).2 params.slashEra params.stash = params.slash.mul params.exposure.own := by
          rw [Role.eraSlash_inspectSpans _ _ _ _ _ _ _ _ _ fun _ => by simp,
            Role.eraSlash_setValidatorSlashInEra, if_pos ⟨rfl, rfl⟩]
        generalize Staking.inspectSpans params.stash params.windowStart params.now 0 params.rewardProportion
          params.slashEra (params.slash.mul params.exposure.own) (chillAndDisable T params.stash)
          st₁ = first at hreport hera ⊢
        obtain ⟨⟨valSlashed, rewardPayout⟩, st₂⟩ := first
        have hview : ∀ priorSlashP, SameView .validator params.stash st₂
            (slashNominators params priorSlashP st₂).2 :=
          fun priorSlashP => sameView_slashNominatorsLoop params priorSlashP _ hkeeps 0 st₂
        dsimp only at hreport hera ⊢
        rw [(hview _).eraSlash, hera]
        simpa [Role.recorded] using hreport.congr (hview _)
      · -- another offender: `s` is none of its nominators
        have hview : SameView .validator s st (Staking.inspectSpans params.stash params.windowStart
            params.now 0 params.rewardProportion params.slashEra (params.slash.mul params.exposure.own)
            (chillAndDisable T params.stash) st₁).2 :=
          (sameView_setValidatorSlashInEra (.inl hs) _ _).trans
            (sameView_inspectSpans hs _ _ _ _ _ _ fun _ => sameView_chillAndDisable T params.stash)
        generalize Staking.inspectSpans params.stash params.windowStart params.now 0
          params.rewardProportion params.slashEra (params.slash.mul params.exposure.own)
          (chillAndDisable T params.stash) st₁ = first at hview ⊢
        obtain ⟨⟨valSlashed, rewardPayout⟩, st₂⟩ := first
        have hrest : ∀ priorSlashP, SameView .validator s st₂
            (slashNominators params priorSlashP st₂).2 :=
          fun priorSlashP => sameView_slashNominatorsLoop params priorSlashP _ hkeeps 0 st₂
        dsimp only at hview ⊢
        rw [(hrest _).eraSlash, hview.eraSlash]
        simpa [Role.recorded, hs] using (h.quiet params.slashEra).congr (hview.trans (hrest _))
    | nominator =>
      -- `s` backs the offender at most once
      obtain ⟨hs, hcount⟩ := hkeeps
      have hview : SameView .nominator s st (Staking.inspectSpans params.stash params.windowStart
          params.now 0 params.rewardProportion params.slashEra (params.slash.mul params.exposure.own)
          (chillAndDisable T params.stash) st₁).2 :=
        (sameView_setValidatorSlashInEra (.inr rfl) _ _).trans
          (sameView_inspectSpans hs _ _ _ _ _ _ fun _ => sameView_chillAndDisable T params.stash)
      generalize Staking.inspectSpans params.stash params.windowStart params.now 0
        params.rewardProportion params.slashEra (params.slash.mul params.exposure.own)
        (chillAndDisable T params.stash) st₁ = first at hview ⊢
      obtain ⟨⟨valSlashed, rewardPayout⟩, st₂⟩ := first
      dsimp only at hview ⊢
      unfold slashNominators
      rcases Nat.le_one_iff_eq_zero_or_eq_one.mp hcount with hnone | hone
      · -- not a nominator of this offender
        have hnot : ∀ n ∈ params.exposure.others, n.who ≠ s := fun n hn hwho =>
          List.count_eq_zero.mp hnone (List.mem_map.mpr ⟨n, hn, hwho⟩)
        have hrest : ∀ priorSlashP, SameView .nominator s st₂
            (Staking.slashNominatorsLoop params priorSlashP params.exposure.others 0 st₂).2 :=
          fun priorSlashP => sameView_slashNominatorsLoop params priorSlashP _ hnot 0 st₂
        simp only [Role.recorded, slashNominatorsLoop_filter_eq_nil params _ _ hnot, List.map_nil,
          List.sum_nil]
        rw [(hrest _).eraSlash, hview.eraSlash]
        exact (h.quiet params.slashEra).congr (hview.trans (hrest _))
      · simpa [Role.recorded] using
          Tracks.slashNominatorsLoop rfl hnow _ _ 0 st₂ log (h.congr hview) hone
  · -- no new maximum: nothing happens
    exact h.quiet params.slashEra

/-- A run of `compute_slash` adds each call's entry for `s` to the log, in
order. -/
theorem Tracks.computeSlashes (T : SlashConfig AccountId) :
    ∀ (calls : List (SlashParams AccountId)) (st : SlashingState AccountId) (log : List SlashEntry),
      Tracks role r s st log →
      (∀ c ∈ calls, role.Keeps s c ∧ c.slashEra ≤ c.now ∧ c.rewardProportion = r ∧
        c.exposure.own < 2 ^ balanceBits) →
      Tracks role r s (computeSlashes T calls st).2
        (log ++ (computeSlashes T calls st).1.map (SlashEntry.ofTrace role s))
  | [], st, log, h, _ => by simpa [Staking.computeSlashes] using h
  | params :: rest, st, log, h, hcalls => by
    obtain ⟨hkeeps, hnow, hr, hown⟩ := hcalls params List.mem_cons_self
    have hstep := h.computeSlash T hkeeps hnow hr hown
    have hrun := Tracks.computeSlashes T rest _ _ hstep fun c hc =>
      hcalls c (List.mem_cons_of_mem _ hc)
    rw [computeSlashes_cons]
    simpa using hrun

end Step

/-- Slashes within a span do not compound. Over any run of `compute_slash`
from a state where `s` has no spans, records or era slashes, with offences
reported up to their era, one reward proportion, and `s` taking part in one
role, each span of `s` has slashed the sum of the amounts recorded for `s`
by the calls in its eras, which is the largest era slash of `s` after those
calls; and its reward is within the reward proportion of it. -/
theorem span_slash_is_max_of_era_slashes (T : SlashConfig AccountId) (role : Role) (s : AccountId)
    (r : Perbill) (calls : List (SlashParams AccountId)) (st : SlashingState AccountId)
    (hspans : st.slashingSpans s = none) (hrecords : ∀ i, st.spanSlash (s, i) = default)
    (heras : ∀ era, role.eraSlash st era s = 0)
    (hcalls : ∀ c ∈ calls, role.Keeps s c ∧ c.slashEra ≤ c.now ∧ c.rewardProportion = r ∧
      c.exposure.own < 2 ^ balanceBits) :
    ∀ sp, (computeSlashes T calls st).2.slashingSpans s = some sp → ∀ span ∈ sp.iter,
      ((computeSlashes T calls st).2.spanSlash (s, span.index)).slashed =
          (((computeSlashes T calls st).1.filter fun x => span.containsEra x.1.slashEra).map
            fun x => role.recorded s x.2.1).sum ∧
        ((computeSlashes T calls st).2.spanSlash (s, span.index)).slashed =
          (((computeSlashes T calls st).1.filter fun x => span.containsEra x.1.slashEra).map
            fun x => role.eraSlash x.2.2 x.1.slashEra s).foldl max 0 ∧
        ((computeSlashes T calls st).2.spanSlash (s, span.index)).paidOut ≤
          r.mul ((computeSlashes T calls st).2.spanSlash (s, span.index)).slashed := by
  intro sp hsp span hspan
  have hstart : Tracks role r s st [] := by
    unfold Tracks
    rw [hspans]
    exact ⟨hrecords, heras, fun _ hx => absurd hx List.not_mem_nil⟩
  have hrun := hstart.computeSlashes T calls st [] hcalls
  rw [List.nil_append, tracks_of_some hsp] at hrun
  obtain ⟨⟨hsum, hmax⟩, hpaid⟩ := hrun.accounted span hspan
  refine ⟨?_, ?_, hpaid⟩
  · simpa [List.filter_map, Function.comp_def, SlashEntry.ofTrace] using hsum
  · simpa [List.filter_map, Function.comp_def, SlashEntry.ofTrace] using hmax

def noDisabling : SlashConfig ℕ := ⟨fun _ => some false⟩

/-- Stash `1`, exposed with `100` of its own, slashed by half for era `0` in
era `1`, a tenth of the slash going to the reporters. -/
def halfSlash : SlashParams ℕ :=
  ⟨1, PerThing.fromParts 500000000, ⟨100, 100, []⟩, 0, 0, 1, PerThing.fromParts 100000000⟩

def fullSlashLater : SlashParams ℕ :=
  ⟨1, PerThing.fromParts 1000000000, ⟨100, 100, []⟩, 1, 0, 1, PerThing.fromParts 100000000⟩

/-- Two slashes of one span: the second records only the `50` above the
first, so the span has slashed `100`, the larger era slash, and paid `6` of
the `10` its reward proportion allows. -/
theorem span_slash_is_max_of_era_slashes_twoSlashes :
    ((computeSlashes noDisabling [halfSlash, fullSlashLater] .empty).1.map
        fun x => Role.validator.recorded 1 x.2.1) = [50, 50] ∧
    ((computeSlashes noDisabling [halfSlash, fullSlashLater] .empty).2.spanSlash (1, 0)).slashed = 100 ∧
    ((computeSlashes noDisabling [halfSlash, fullSlashLater] .empty).2.spanSlash (1, 0)).paidOut = 6 ∧
    (∀ c ∈ [halfSlash, fullSlashLater], Role.validator.Keeps 1 c ∧ c.slashEra ≤ c.now ∧
      c.rewardProportion = PerThing.fromParts 100000000 ∧ c.exposure.own < 2 ^ balanceBits) ∧
    ∀ sp, (computeSlashes noDisabling [halfSlash, fullSlashLater] .empty).2.slashingSpans 1 = some sp →
      ∀ span ∈ sp.iter,
        ((computeSlashes noDisabling [halfSlash, fullSlashLater] .empty).2.spanSlash (1, span.index)).slashed =
            (((computeSlashes noDisabling [halfSlash, fullSlashLater] .empty).1.filter
              fun x => span.containsEra x.1.slashEra).map fun x => Role.validator.recorded 1 x.2.1).sum ∧
          ((computeSlashes noDisabling [halfSlash, fullSlashLater] .empty).2.spanSlash (1, span.index)).slashed =
            (((computeSlashes noDisabling [halfSlash, fullSlashLater] .empty).1.filter
              fun x => span.containsEra x.1.slashEra).map
                fun x => Role.validator.eraSlash x.2.2 x.1.slashEra 1).foldl max 0 ∧
          ((computeSlashes noDisabling [halfSlash, fullSlashLater] .empty).2.spanSlash (1, span.index)).paidOut ≤
            (PerThing.fromParts 100000000 : Perbill).mul
              ((computeSlashes noDisabling [halfSlash, fullSlashLater] .empty).2.spanSlash (1, span.index)).slashed := by
  have hcalls : ∀ c ∈ [halfSlash, fullSlashLater], Role.validator.Keeps 1 c ∧ c.slashEra ≤ c.now ∧
      c.rewardProportion = PerThing.fromParts 100000000 ∧ c.exposure.own < 2 ^ balanceBits := by
    decide
  exact ⟨rfl, rfl, rfl, hcalls, span_slash_is_max_of_era_slashes noDisabling .validator 1
    (PerThing.fromParts 100000000) [halfSlash, fullSlashLater] .empty rfl (fun _ => rfl) (fun _ => rfl) hcalls⟩

def twiceBacked : SlashParams ℕ :=
  ⟨1, PerThing.fromParts 1000000000, ⟨100, 100, [⟨2, 2 ^ 128 - 1⟩, ⟨2, 2 ^ 128 - 1⟩]⟩, 0, 0, 1,
    PerThing.zero⟩

/-- A nominator reported twice in one call: the second report wraps its era
slash to `2 ^ 128 - 2`, below the `2 ^ 128 - 1` the first recorded in the
span, and the call leaves only the second. -/
theorem twice_backed_span_slash_above_era_slashes :
    twiceBacked.stash ≠ 2 ∧ (twiceBacked.exposure.others.map (·.who)).count 2 = 2 ∧
      ∃ sp, (computeSlashes noDisabling [twiceBacked] .empty).2.slashingSpans 2 = some sp ∧
        ∃ span ∈ sp.iter, span.containsEra twiceBacked.slashEra ∧
          (((computeSlashes noDisabling [twiceBacked] .empty).1.filter
              fun x => span.containsEra x.1.slashEra).map
            fun x => Role.nominator.eraSlash x.2.2 x.1.slashEra 2) = [2 ^ 128 - 2] ∧
          ((computeSlashes noDisabling [twiceBacked] .empty).2.spanSlash (2, span.index)).slashed =
            2 ^ 128 - 1 := by
  refine ⟨by decide, by decide, ⟨1, 2, 0, [2]⟩, rfl, ⟨0, 0, some 2⟩, by decide, by decide, rfl, rfl⟩

def futureSlash : SlashParams ℕ :=
  ⟨1, PerThing.fromParts 1000000000, ⟨100, 100, []⟩, 5, 0, 0, PerThing.zero⟩

/-- An offence for an era after `now` is compared with the ongoing span,
which then ends at `now`: the slash of `100` is recorded, but the span that
holds era `5` has slashed nothing. -/
theorem future_slash_escapes_span :
    ∃ sp, (computeSlashes noDisabling [futureSlash] .empty).2.slashingSpans 1 = some sp ∧
      ∃ span ∈ sp.iter, span.containsEra futureSlash.slashEra ∧
        ((computeSlashes noDisabling [futureSlash] .empty).2.spanSlash (1, span.index)).slashed = 0 ∧
        (((computeSlashes noDisabling [futureSlash] .empty).1.filter
          fun x => span.containsEra x.1.slashEra).map fun x => Role.validator.recorded 1 x.2.1).sum =
            100 := by
  refine ⟨⟨1, 1, 5, [1]⟩, by decide, ⟨1, 1, none⟩, by decide, by decide,
    by decide, by decide⟩

end SocialNetwork.Staking
