import SocialNetwork.Lib.Dispatch

/-!
# Calls that do not panic

`Wp` counts a panic as a success: it is the rule of partial correctness,
for invariants that a panicking block cannot break. `Wpt` is its total
form: the call ends with `Ok` or `Err`, and never panics. Its rules follow
those of `Wp` one combinator at a time; `Wpt.wp` gives back the partial
form, and `Wpt.not_panic` the absence of a panic.
-/

namespace Dispatch

variable {ε σ α β : Type}

/-- The weakest precondition of `m` for `Q` on `Ok` and `R` on `Err`,
with no panic. -/
def Wpt (m : Call ε σ α) (Q : α → σ → Prop) (R : ε → σ → Prop) (s : σ) : Prop :=
  match m.run s with
  | .ok a s' => Q a s'
  | .error (.error e) s' => R e s'
  | .error .panic _ => False

section Wpt

variable {Q Q' : α → σ → Prop} {R R' : ε → σ → Prop} {s : σ}

@[simp] theorem wpt_pure (a : α) : Wpt (pure a : Call ε σ α) Q R s = Q a s := rfl

@[simp] theorem wpt_bind (m : Call ε σ α) (k : α → Call ε σ β) {Q : β → σ → Prop} :
    Wpt (m >>= k) Q R s = Wpt m (fun a s' => Wpt (k a) Q R s') R s := by
  unfold Wpt
  rw [EStateM.run_bind]
  rcases m.run s with ⟨a, s'⟩ | ⟨e | e, s'⟩ <;> rfl

@[simp] theorem wpt_get {Q : σ → σ → Prop} : Wpt (get : Call ε σ σ) Q R s = Q s s := rfl

@[simp] theorem wpt_modify (f : σ → σ) {Q : PUnit → σ → Prop} :
    Wpt (modify f : Call ε σ PUnit) Q R s = Q () (f s) := rfl

@[simp] theorem wpt_fail (e : ε) : Wpt (fail e : Call ε σ α) Q R s = R e s := rfl

@[simp] theorem wpt_ensure {c : Prop} [Decidable c] (e : ε) {Q : Unit → σ → Prop} :
    Wpt (ensure c e : Call ε σ Unit) Q R s = if c then Q () s else R e s := by
  by_cases h : c <;> simp [h, ensure]

@[simp] theorem wpt_okOr_some (a : α) (e : ε) : Wpt (okOr (some a) e : Call ε σ α) Q R s = Q a s :=
  rfl

@[simp] theorem wpt_okOr_none (e : ε) : Wpt (okOr none e : Call ε σ α) Q R s = R e s := rfl

@[simp] theorem wpt_unwrap_some (a : α) : Wpt (unwrap (some a) : Call ε σ α) Q R s = Q a s := rfl

@[simp] theorem wpt_ite {c : Prop} [Decidable c] (m₁ m₂ : Call ε σ α) :
    Wpt (if c then m₁ else m₂) Q R s = if c then Wpt m₁ Q R s else Wpt m₂ Q R s := by
  by_cases h : c <;> simp [h]

theorem Wpt.mono {m : Call ε σ α} (h : Wpt m Q R s) (hQ : ∀ a s', Q a s' → Q' a s')
    (hR : ∀ e s', R e s' → R' e s') : Wpt m Q' R' s := by
  unfold Wpt at *
  rcases hr : m.run s with ⟨a, s'⟩ | ⟨e | e, s'⟩ <;> rw [hr] at h
  · exact hQ a s' h
  · exact hR e s' h
  · exact h

theorem Wpt.wp {m : Call ε σ α} (h : Wpt m Q R s) : Wp m Q R s := by
  unfold Wpt at h
  unfold Wp
  rcases hr : m.run s with ⟨a, s'⟩ | ⟨e | e, s'⟩ <;> rw [hr] at h
  · exact h
  · exact h
  · trivial

theorem Wpt.not_panic {m : Call ε σ α} (h : Wpt m Q R s) (s' : σ) : m.run s ≠ .error .panic s' := by
  intro hr
  unfold Wpt at h
  rw [hr] at h
  exact h

end Wpt

end Dispatch
