import SocialNetwork.Lib.Dispatch

/-!
# Calls that simulate calls

Two machines with the same entry points over different stores: the concrete
`apply` simulates the abstract `spec` under a relation `R` of their stores
when, from related stores, each call ends the same way on both sides (the
same value, the same error, or a panic on both) and in related stores. A
sequence of calls then ends the same way too (`Simulates.execute`), so that
what the abstract machine guarantees, such as never panicking, holds of the
concrete one (`Simulates.execute_eq_some`).
-/

namespace Dispatch

variable {ε σ τ α κ : Type}

def ResultRel (R : σ → τ → Prop) : EStateM.Result (Exit ε) σ α → EStateM.Result (Exit ε) τ α → Prop
  | .ok a s, .ok b t => a = b ∧ R s t
  | .error e s, .error e' t => e = e' ∧ R s t
  | _, _ => False

/-- Each entry point of `apply`, from stores related by `R`, ends as the
same entry point of `spec` does. -/
def Simulates (R : σ → τ → Prop) (apply : κ → Call ε σ Unit) (spec : κ → Call ε τ Unit) : Prop :=
  ∀ c s t, R s t → ResultRel R ((apply c).run s) ((spec c).run t)

def NeverPanics (m : Call ε τ α) : Prop := ∀ t t', m.run t ≠ .error .panic t'

section Runs

variable {R : σ → τ → Prop} {apply : κ → Call ε σ Unit} {spec : κ → Call ε τ Unit}

/-- **Simulation of runs.** From related stores, a sequence of calls ends
alike on both sides: both panic, or both end in related stores. The
induction is on the calls, the related stores generalized. -/
theorem Simulates.execute (h : Simulates R apply spec) :
    ∀ (cs : List κ) {s : σ} {t : τ}, R s t →
      Option.Rel R (Dispatch.execute apply cs s) (Dispatch.execute spec cs t)
  | [], _, _, hst => .some hst
  | c :: cs, s, t, hst => by
    have hc := h c s t hst
    simp only [Dispatch.execute]
    rcases hs : (apply c).run s with ⟨a, s'⟩ | ⟨e | e, s'⟩ <;>
      rcases ht : (spec c).run t with ⟨b, t'⟩ | ⟨e' | e', t'⟩ <;>
      rw [hs, ht] at hc <;> simp only [ResultRel, reduceCtorEq, false_and] at hc
    · exact Simulates.execute h cs hc.2
    · exact Simulates.execute h cs hc.2
    · exact .none

theorem execute_isSome_of_neverPanics (hspec : ∀ c, NeverPanics (spec c)) :
    ∀ (cs : List κ) (t : τ), (Dispatch.execute spec cs t).isSome
  | [], _ => rfl
  | c :: cs, t => by
    simp only [Dispatch.execute]
    rcases ht : (spec c).run t with ⟨b, t'⟩ | ⟨e | e, t'⟩
    · exact execute_isSome_of_neverPanics hspec cs t'
    · exact execute_isSome_of_neverPanics hspec cs t'
    · exact absurd ht (hspec c t t')

/-- Simulating a machine that never panics, the concrete one never panics
either, and every run ends in a store related to the abstract one's. -/
theorem Simulates.execute_eq_some (h : Simulates R apply spec) (hspec : ∀ c, NeverPanics (spec c))
    (cs : List κ) {s : σ} {t : τ} (hst : R s t) :
    ∃ s' t', Dispatch.execute apply cs s = some s' ∧ Dispatch.execute spec cs t = some t' ∧ R s' t' := by
  obtain ⟨t', ht'⟩ := Option.isSome_iff_exists.mp (execute_isSome_of_neverPanics hspec cs t)
  have hrel := h.execute cs hst
  rw [ht'] at hrel
  cases hs' : Dispatch.execute apply cs s with
  | none =>
    rw [hs'] at hrel
    cases hrel
  | some s' =>
    rw [hs'] at hrel
    cases hrel with
    | some hr => exact ⟨s', t', rfl, ht', hr⟩

/-- A store the concrete machine reaches, from one related to an abstract
initial store, is related to a store the abstract machine reaches. The
induction is on the steps. -/
theorem Simulates.reachable {init : σ → Prop} {init' : τ → Prop} (h : Simulates R apply spec)
    (hinit : ∀ s, init s → ∃ t, init' t ∧ R s t) {s : σ} (hs : Reachable apply init s) :
    ∃ t, Reachable spec init' t ∧ R s t := by
  obtain ⟨s₀, hs₀, hrun⟩ := hs
  induction hrun with
  | refl =>
    obtain ⟨t, ht, hst⟩ := hinit s₀ hs₀
    exact ⟨t, .start ht, hst⟩
  | tail _ hstep ih =>
    obtain ⟨t, ht, hst⟩ := ih
    obtain ⟨c, hc⟩ := hstep
    have hr := h c _ t hst
    rcases hc with ⟨a, ha⟩ | ⟨e, he⟩
    · rw [ha] at hr
      rcases ht' : (spec c).run t with ⟨b, t'⟩ | ⟨e', t'⟩ <;> rw [ht'] at hr <;> simp only [ResultRel] at hr
      exact ⟨t', ht.step c (.inl ⟨b, ht'⟩), hr.2⟩
    · rw [he] at hr
      rcases ht' : (spec c).run t with ⟨b, t'⟩ | ⟨e', t'⟩ <;> rw [ht'] at hr <;> simp only [ResultRel] at hr
      obtain ⟨rfl, hrel⟩ := hr
      exact ⟨t', ht.step c (.inr ⟨_, ht'⟩), hrel⟩

end Runs

end Dispatch
