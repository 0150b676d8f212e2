import SocialNetwork.Frame.Staking.Pallet

/-!
# `pallet_staking::slashing`: slashing spans and `compute_slash`

The slashing of `src/frame/staking/src/slashing.rs`. A stash's eras are cut
into slashing spans: an ongoing span, and before it the spans that ended,
their lengths kept latest first (`SlashingSpans.prior`). A stash is slashed
at most once per span. The slash of an offence in era `e` is compared with
the largest slash recorded for `e`'s span (`SpanSlash`), and only what
exceeds it is applied. `ValidatorSlashInEra` keeps a validator's largest
slash proportion per era; `NominatorSlashInEra` keeps the slash a nominator
has taken per era, summed over the validators it backed.

An offence in the ongoing span ends it: the next span starts at the era
after `now` (`SlashingSpans.endSpan`). `InspectingSpans` holds a stash's
spans while they are compared. It writes them back, pruned against the
bonding window, when it is dropped, but only if something changed.

`compute_slash` and `slash_nominators` share their spans block, which is
`inspectSpans` here. Chilling a stash removes it from `Validators` and
`Nominators`; those maps are kept only by whether a stash is in them.
`SessionInterface::disable_validator` belongs to the runtime and is a
parameter. Era indices (`EraIndex`) and span indices (`SpanIndex`) are
`u32` in the source; they are natural numbers here, and `now + 1` stays
below `u32::MAX`. Balances are `u128`, and the source's `+=` on them wraps.
-/

namespace SocialNetwork.Staking

open Arithmetic Unsigned

/-- `REWARD_F1`: the part of a span's reward paid on the first report. -/
def rewardF1 : Perbill := PerThing.fromPercent 50

/-- `SlashingSpan`: the eras from `start`, `length` of them, with no end for
the ongoing span. -/
structure SlashingSpan where
  index : ℕ
  start : ℕ
  length : Option ℕ
  deriving DecidableEq, Repr

/-- `contains_era`. -/
def SlashingSpan.containsEra (span : SlashingSpan) (era : ℕ) : Bool :=
  decide (span.start ≤ era) && span.length.all fun l => decide (era < span.start + l)

/-- `SlashingSpans`: the index and first era of the ongoing span, the era of
the last non-zero slash, and the lengths of the spans before, latest first. -/
structure SlashingSpans where
  spanIndex : ℕ
  lastStart : ℕ
  lastNonzeroSlash : ℕ
  prior : List ℕ
  deriving DecidableEq, Repr

namespace SlashingSpans

/-- `new`: one span, from the start of the bonding window. -/
def new (windowStart : ℕ) : SlashingSpans := ⟨0, windowStart, 0, []⟩

/-- `end_span`: a new span from the era after `now`, unless the ongoing one
starts there or later. Returns whether a span began. -/
def endSpan (self : SlashingSpans) (now : ℕ) : Bool × SlashingSpans :=
  let nextStart := now + 1
  if nextStart ≤ self.lastStart then (false, self)
  else
    let lastLength := nextStart - self.lastStart
    (true, { self with prior := lastLength :: self.prior, lastStart := nextStart,
                       spanIndex := self.spanIndex + 1 })

/-- The spans that ended, rebuilt from their lengths back from the start of
the span after each. -/
def priorSpans : ℕ → ℕ → List ℕ → List SlashingSpan
  | _, _, [] => []
  | index, lastStart, length :: prior =>
    ⟨index - 1, lastStart - length, some length⟩ :: priorSpans (index - 1) (lastStart - length) prior

/-- `iter`: every span, the ongoing one first. -/
def iter (self : SlashingSpans) : List SlashingSpan :=
  ⟨self.spanIndex, self.lastStart, none⟩ :: priorSpans self.spanIndex self.lastStart self.prior

/-- `prune`: the spans that ended by `windowStart` are dropped, and the
ongoing span starts no earlier than `windowStart`. Returns the range of the
dropped indices. -/
def prune (self : SlashingSpans) (windowStart : ℕ) :
    Option (ℕ × ℕ) × SlashingSpans :=
  let oldIdx := (self.iter.drop 1).findIdx? fun span =>
    span.length.any fun len => decide (span.start + len ≤ windowStart)
  let earliestSpanIndex := self.spanIndex - self.prior.length
  let readjust (spans : SlashingSpans) : SlashingSpans :=
    { spans with lastStart := max spans.lastStart windowStart }
  match oldIdx with
  | some o =>
    let spans := { self with prior := self.prior.take o }
    (some (earliestSpanIndex, spans.spanIndex - spans.prior.length), readjust spans)
  | none => (none, readjust self)

end SlashingSpans

/-- `SpanRecord`: what a span has slashed, and the reward paid for it. -/
structure SpanRecord where
  slashed : ℕ
  paidOut : ℕ
  deriving DecidableEq, Repr

instance : Inhabited SpanRecord := ⟨⟨0, 0⟩⟩

/-- `UnappliedSlash`. -/
structure UnappliedSlash (AccountId : Type) where
  validator : AccountId
  own : ℕ
  others : List (AccountId × ℕ)
  reporters : List AccountId
  payout : ℕ
  deriving DecidableEq, Repr

/-- `Forcing`. -/
inductive Forcing where
  | notForcing | forceNew | forceNone | forceAlways
  deriving DecidableEq, Repr

/-- `SlashParams`. -/
structure SlashParams (AccountId : Type) where
  stash : AccountId
  slash : Perbill
  exposure : Exposure AccountId
  slashEra : ℕ
  windowStart : ℕ
  now : ℕ
  rewardProportion : Perbill
  deriving DecidableEq

/-- The runtime's `SessionInterface::disable_validator`, `none` for its
`Err`. -/
structure SlashConfig (AccountId : Type) where
  disableValidator : AccountId → Option Bool

/-- The storage the slashing reads and writes. -/
structure SlashingState (AccountId : Type) where
  validatorSlashInEra : ℕ → AccountId → Option (Perbill × ℕ)
  nominatorSlashInEra : ℕ → AccountId → Option ℕ
  slashingSpans : AccountId → Option SlashingSpans
  spanSlash : AccountId × ℕ → SpanRecord
  validators : AccountId → Bool
  nominators : AccountId → Bool
  forceEra : Forcing

variable {AccountId : Type} [DecidableEq AccountId]

namespace SlashingState

/-- The storage before any offence: no era slashes, spans or records, and
no validators or nominators. -/
def empty : SlashingState AccountId :=
  ⟨fun _ _ => none, fun _ _ => none, fun _ => none, fun _ => default, fun _ => false, fun _ => false,
    .notForcing⟩

variable (st : SlashingState AccountId)

/-- `ValidatorSlashInEra::insert`. -/
def setValidatorSlashInEra (era : ℕ) (stash : AccountId) (v : Perbill × ℕ) :
    SlashingState AccountId :=
  let inEra := Function.update (st.validatorSlashInEra era) stash (some v)
  { st with validatorSlashInEra := Function.update st.validatorSlashInEra era inEra }

/-- `NominatorSlashInEra::insert`. -/
def setNominatorSlashInEra (era : ℕ) (stash : AccountId) (v : ℕ) : SlashingState AccountId :=
  let inEra := Function.update (st.nominatorSlashInEra era) stash (some v)
  { st with nominatorSlashInEra := Function.update st.nominatorSlashInEra era inEra }

/-- `SlashingSpans::insert`. -/
def setSlashingSpans (stash : AccountId) (spans : SlashingSpans) : SlashingState AccountId :=
  { st with slashingSpans := Function.update st.slashingSpans stash (some spans) }

/-- `SpanSlash::insert`; `remove` writes the default. -/
def setSpanSlash (key : AccountId × ℕ) (record : SpanRecord) : SlashingState AccountId :=
  { st with spanSlash := Function.update st.spanSlash key record }

/-- `chill_stash`. -/
def chillStash (stash : AccountId) : SlashingState AccountId :=
  { st with validators := Function.update st.validators stash false,
            nominators := Function.update st.nominators stash false }

/-- `ensure_new_era`. -/
def ensureNewEra : SlashingState AccountId :=
  match st.forceEra with
  | .forceAlways | .forceNew => st
  | _ => { st with forceEra := .forceNew }

end SlashingState

/-- `InspectingSpans`: a stash's spans while they are compared, with the
running payout and slash of the caller. -/
structure InspectingSpans (AccountId : Type) where
  dirty : Bool
  windowStart : ℕ
  stash : AccountId
  spans : SlashingSpans
  paidOut : ℕ
  slashOf : ℕ
  rewardProportion : Perbill

/-- `fetch_spans`: the stash's spans, created and stored if it has none. -/
def fetchSpans (stash : AccountId) (windowStart : ℕ) (paidOut slashOf : ℕ)
    (rewardProportion : Perbill) (st : SlashingState AccountId) :
    InspectingSpans AccountId × SlashingState AccountId :=
  match st.slashingSpans stash with
  | some spans => (⟨false, windowStart, stash, spans, paidOut, slashOf, rewardProportion⟩, st)
  | none =>
    let spans := SlashingSpans.new windowStart
    (⟨false, windowStart, stash, spans, paidOut, slashOf, rewardProportion⟩,
      st.setSlashingSpans stash spans)

/-- The reward of a report on a span: `REWARD_F1` of what the span's reward
has not paid yet. -/
def spanReward (rewardProportion : Perbill) (slash paidOut : ℕ) : ℕ :=
  rewardF1.mul (saturatingSub (rewardProportion.mul slash) paidOut)

namespace InspectingSpans

variable (self : InspectingSpans AccountId)

/-- `span_index`. -/
def spanIndex : ℕ := self.spans.spanIndex

/-- `end_span`. -/
def endSpan (now : ℕ) : InspectingSpans AccountId :=
  { self with spans := (self.spans.endSpan now).2, dirty := (self.spans.endSpan now).1 || self.dirty }

/-- `add_slash`. -/
def addSlash (amount : ℕ) (slashEra : ℕ) : InspectingSpans AccountId :=
  { self with slashOf := wrappingAdd balanceBits self.slashOf amount,
              spans := { self.spans with
                lastNonzeroSlash := max self.spans.lastNonzeroSlash slashEra } }

/-- `era_span`: the span that holds `era`. -/
def eraSpan (era : ℕ) : Option SlashingSpan := self.spans.iter.find? (·.containsEra era)

/-- The end of `compare_and_update_span_slash`: a reward is paid into the
record and the payout, and a record that changed is written. -/
def settle (key : AccountId × ℕ) (spanRecord : SpanRecord) (reward : ℕ) (changed : Bool)
    (st : SlashingState AccountId) : InspectingSpans AccountId × SlashingState AccountId :=
  if reward ≠ 0 then
    ({ self with paidOut := wrappingAdd balanceBits self.paidOut reward, dirty := true },
      st.setSpanSlash key
        { spanRecord with paidOut := wrappingAdd balanceBits spanRecord.paidOut reward })
  else if changed then ({ self with dirty := true }, st.setSpanSlash key spanRecord)
  else (self, st)

/-- `compare_and_update_span_slash`: a slash above the span's record is a new
maximum, and only the difference is applied. Returns the index of the span
that holds `slashEra`. -/
def compareAndUpdateSpanSlash (slashEra : ℕ) (slash : ℕ) (st : SlashingState AccountId) :
    (Option ℕ × InspectingSpans AccountId) × SlashingState AccountId :=
  match self.eraSpan slashEra with
  | none => ((none, self), st)
  | some targetSpan =>
    let spanSlashKey := (self.stash, targetSpan.index)
    let spanRecord := st.spanSlash spanSlashKey
    let r :=
      if spanRecord.slashed < slash then
        let difference := slash - spanRecord.slashed
        let reward := spanReward self.rewardProportion slash spanRecord.paidOut
        (self.addSlash difference slashEra).settle spanSlashKey { spanRecord with slashed := slash }
          reward true st
      else if spanRecord.slashed = slash then
        self.settle spanSlashKey spanRecord (spanReward self.rewardProportion slash spanRecord.paidOut)
          false st
      else self.settle spanSlashKey spanRecord 0 false st
    ((some targetSpan.index, r.1), r.2)

def removeSpanSlashes (stash : AccountId) : List ℕ → SlashingState AccountId →
    SlashingState AccountId
  | [], st => st
  | i :: rest, st => removeSpanSlashes stash rest (st.setSpanSlash (stash, i) default)

/-- `Drop`: spans that were slashed are pruned and written back. -/
def drop (st : SlashingState AccountId) : SlashingState AccountId :=
  if !self.dirty then st
  else
    let (pruned, spans) := self.spans.prune self.windowStart
    let st := match pruned with
      | some (startIndex, endIndex) =>
        removeSpanSlashes self.stash (List.range' startIndex (endIndex - startIndex)) st
      | none => st
    st.setSlashingSpans self.stash spans

end InspectingSpans

section Compute

variable (T : SlashConfig AccountId)

/-- `chill_stash`, then `disable_validator`, which may force a new era. -/
def chillAndDisable (stash : AccountId) (st : SlashingState AccountId) : SlashingState AccountId :=
  let st := st.chillStash stash
  if (T.disableValidator stash).getD false then st.ensureNewEra else st

/-- The spans block of `compute_slash` and `slash_nominators`: the stash's
era slash is compared with its span, an offence in the ongoing span ends it
(with `onEnd`), and the spans are dropped. Returns what the stash was
slashed and the payout. -/
def inspectSpans (stash : AccountId) (windowStart now : ℕ) (paidOut : ℕ)
    (rewardProportion : Perbill) (slashEra : ℕ) (slash : ℕ)
    (onEnd : SlashingState AccountId → SlashingState AccountId) (st : SlashingState AccountId) :
    (ℕ × ℕ) × SlashingState AccountId :=
  let (spans, st) := fetchSpans stash windowStart paidOut 0 rewardProportion st
  let ((targetSpan, spans), st) := spans.compareAndUpdateSpanSlash slashEra slash st
  let (spans, st) :=
    if targetSpan = some spans.spanIndex then (spans.endSpan now, onEnd st) else (spans, st)
  ((spans.slashOf, spans.paidOut), spans.drop st)

/-- `kick_out_if_recent`: no slash, but an offence in the ongoing span ends
it and chills the stash. -/
def kickOutIfRecent (params : SlashParams AccountId) (st : SlashingState AccountId) :
    SlashingState AccountId :=
  let (spans, st) := fetchSpans params.stash params.windowStart 0 0 params.rewardProportion st
  if (spans.eraSpan params.slashEra).map (·.index) = some spans.spanIndex then
    (spans.endSpan params.now).drop (chillAndDisable T params.stash st)
  else spans.drop st

/-- One nominator of `slash_nominators`: its era slash grows by what the
validator's new maximum adds to its exposure, and is compared with its span.
Returns what it was slashed and the running payout. -/
def slashNominator (params : SlashParams AccountId) (priorSlashP : Perbill)
    (nominator : IndividualExposure AccountId) (rewardPayout : ℕ) (st : SlashingState AccountId) :
    (ℕ × ℕ) × SlashingState AccountId :=
  let stash := nominator.who
  let ownSlashPrior := priorSlashP.mul nominator.value
  let ownSlashByValidator := params.slash.mul nominator.value
  let ownSlashDifference := saturatingSub ownSlashByValidator ownSlashPrior
  let eraSlash :=
    wrappingAdd balanceBits ((st.nominatorSlashInEra params.slashEra stash).getD 0) ownSlashDifference
  let st := st.setNominatorSlashInEra params.slashEra stash eraSlash
  -- a nominator is not chilled: its nomination is ignored from now on
  inspectSpans stash params.windowStart params.now rewardPayout params.rewardProportion
    params.slashEra eraSlash id st

/-- The loop of `slash_nominators` over the exposure's nominators, in
order. Returns the payout and what each was slashed. -/
def slashNominatorsLoop (params : SlashParams AccountId) (priorSlashP : Perbill) :
    List (IndividualExposure AccountId) → ℕ → SlashingState AccountId →
      (ℕ × List (AccountId × ℕ)) × SlashingState AccountId
  | [], rewardPayout, st => ((rewardPayout, []), st)
  | nominator :: rest, rewardPayout, st =>
    let ((nomSlashed, rewardPayout), st) :=
      slashNominator params priorSlashP nominator rewardPayout st
    let ((rewardPayout, nominatorsSlashed), st) :=
      slashNominatorsLoop params priorSlashP rest rewardPayout st
    ((rewardPayout, (nominator.who, nomSlashed) :: nominatorsSlashed), st)

/-- `slash_nominators`. -/
def slashNominators (params : SlashParams AccountId) (priorSlashP : Perbill)
    (st : SlashingState AccountId) : (ℕ × List (AccountId × ℕ)) × SlashingState AccountId :=
  slashNominatorsLoop params priorSlashP params.exposure.others 0 st

/-- `compute_slash`: nothing unless the slash proportion is a new maximum for
the validator in its era; then the validator and its nominators are
compared with their spans. -/
def computeSlash (params : SlashParams AccountId) (st : SlashingState AccountId) :
    Option (UnappliedSlash AccountId) × SlashingState AccountId :=
  let ownSlash := params.slash.mul params.exposure.own
  if params.slash.mul params.exposure.total = 0 then
    (none, kickOutIfRecent T params st)
  else
    let priorSlashP :=
      ((st.validatorSlashInEra params.slashEra params.stash).map (·.1)).getD PerThing.zero
    if priorSlashP.parts < params.slash.parts then
      let st := st.setValidatorSlashInEra params.slashEra params.stash (params.slash, ownSlash)
      let ((valSlashed, rewardPayout), st) :=
        inspectSpans params.stash params.windowStart params.now 0 params.rewardProportion
          params.slashEra ownSlash (chillAndDisable T params.stash) st
      let ((nominatorsPayout, nominatorsSlashed), st) := slashNominators params priorSlashP st
      (some ⟨params.stash, valSlashed, nominatorsSlashed, [],
        wrappingAdd balanceBits rewardPayout nominatorsPayout⟩, st)
    else (none, st)

/-- A run of `compute_slash` calls: each call with its result and the state
after it, and the last state. -/
def computeSlashes : List (SlashParams AccountId) → SlashingState AccountId →
    List (SlashParams AccountId × Option (UnappliedSlash AccountId) × SlashingState AccountId) ×
      SlashingState AccountId
  | [], st => ([], st)
  | params :: rest, st =>
    let (result, st) := computeSlash T params st
    let (trace, st') := computeSlashes rest st
    ((params, result, st) :: trace, st')

end Compute

end SocialNetwork.Staking
