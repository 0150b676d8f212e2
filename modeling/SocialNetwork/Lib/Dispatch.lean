import Mathlib.Logic.Relation
import Mathlib.Data.List.Forall2

/-!
# Calls that keep their writes when they fail

A runtime entry point reads and writes a store and ends in one of three
ways: it returns `Ok`, it returns `Err(e)`, or it panics. Nothing is rolled
back on `Err`: every write made before the error stays, exactly as in a
dispatchable that is not `#[transactional]`. A panic aborts the block, so
the state it leaves is of no interest.

`Call ε σ α` is Lean's `EStateM` over the store `σ`, whose errors already
carry the state they were raised in. On top of it this file gives the
combinators that runtime code spells as `?`, `ensure!`, `ok_or`, `unwrap`
and `let _ =`, a way to run a call over one part of a larger store, and
the rules used to reason about calls:

* `Keeps f m`: `m` never changes the part `f` of the store;
* `Preserves P m`: every state `m` leaves, from one satisfying `P`,
  satisfies `P`;
* `Reachable`: the states a sequence of calls can lead to, with the
  induction rule that turns a one-step invariant into an invariant of every
  run.
-/

namespace Dispatch

/-- How a call ends when it does not return `Ok`. -/
inductive Exit (ε : Type) where
  /-- `Err(e)`: the writes made so far stay. -/
  | error (e : ε)
  /-- A panic: the block is invalid. -/
  | panic
  deriving DecidableEq, Repr

abbrev Call (ε σ α : Type) := EStateM (Exit ε) σ α

variable {ε ε' σ τ α β γ : Type}

def fail (e : ε) : Call ε σ α := throw (.error e)

def panic : Call ε σ α := throw .panic

def ensure (c : Prop) [Decidable c] (e : ε) : Call ε σ Unit :=
  if c then pure () else fail e

def okOr (o : Option α) (e : ε) : Call ε σ α :=
  match o with
  | some a => pure a
  | none => fail e

def ofExcept (r : Except ε α) : Call ε σ α :=
  match r with
  | .ok a => pure a
  | .error e => fail e

def unwrap (o : Option α) : Call ε σ α :=
  match o with
  | some a => pure a
  | none => panic

def divide (a b : Nat) : Call ε σ Nat := if b = 0 then panic else pure (a / b)

/-- `let _ = m;`: run `m` and drop its `Err`, keeping the writes it made.
A panic is not an error value and still aborts. -/
def dropResult (m : Call ε σ α) : Call ε σ Unit := fun s =>
  match m s with
  | .ok _ s' => .ok () s'
  | .error (.error _) s' => .ok () s'
  | .error .panic s' => .error .panic s'

def mapError (f : ε → ε') (m : Call ε σ α) : Call ε' σ α := fun s =>
  match m s with
  | .ok a s' => .ok a s'
  | .error (.error e) s' => .error (.error (f e)) s'
  | .error .panic s' => .error .panic s'

/-- `match m { Ok(a) => .., Err(e) => .. }`: the call's error as a value,
with the writes it made. A panic still aborts. -/
def attempt (m : Call ε σ α) : Call ε σ (Except ε α) := fun s =>
  match m s with
  | .ok a s' => .ok (.ok a) s'
  | .error (.error e) s' => .ok (.error e) s'
  | .error .panic s' => .error .panic s'

def expect (m : Call ε σ α) : Call ε' σ α := fun s =>
  match m s with
  | .ok a s' => .ok a s'
  | .error _ s' => .error .panic s'

/-- Run a call over the part `view` of a larger store, writing its result
back with `update`. -/
def zoom (view : σ → τ) (update : σ → τ → σ) (m : Call ε τ α) : Call ε σ α := fun s =>
  match m (view s) with
  | .ok a t => .ok a (update s t)
  | .error e t => .error e (update s t)

/-- The store `m` leaves where it returns `Ok`, and `none` where it fails:
what a loop that `expect`s each of its calls goes on with. -/
def okStore (m : Call ε σ α) (s : σ) : Option σ :=
  match m.run s with
  | .ok _ s' => some s'
  | .error _ _ => none

/-! ## Running the combinators -/

section Run

variable {s : σ} {e : ε} {a : α}

@[simp] theorem run_fail : (fail e : Call ε σ α).run s = .error (.error e) s := rfl

@[simp] theorem run_panic : (panic : Call ε σ α).run s = .error .panic s := rfl

@[simp] theorem run_ensure_pos {c : Prop} [Decidable c] (h : c) :
    (ensure c e : Call ε σ Unit).run s = .ok () s := by
  simp [ensure, h]

@[simp] theorem run_ensure_neg {c : Prop} [Decidable c] (h : ¬ c) :
    (ensure c e : Call ε σ Unit).run s = .error (.error e) s := by
  simp [ensure, h]

@[simp] theorem run_okOr_some : (okOr (some a) e : Call ε σ α).run s = .ok a s := rfl

@[simp] theorem run_okOr_none : (okOr none e : Call ε σ α).run s = .error (.error e) s := rfl

@[simp] theorem run_ofExcept_ok : (ofExcept (.ok a) : Call ε σ α).run s = .ok a s := rfl

@[simp] theorem run_ofExcept_error :
    (ofExcept (.error e) : Call ε σ α).run s = .error (.error e) s := rfl

@[simp] theorem run_unwrap_some : (unwrap (some a) : Call ε σ α).run s = .ok a s := rfl

@[simp] theorem run_unwrap_none : (unwrap none : Call ε σ α).run s = .error .panic s := rfl

theorem run_bind_ok {m : Call ε σ α} {k : α → Call ε σ β} {s' : σ} (h : m.run s = .ok a s') :
    (m >>= k).run s = (k a).run s' := by
  rw [EStateM.run_bind, h]

theorem run_bind_error {m : Call ε σ α} {k : α → Call ε σ β} {x : Exit ε} {s' : σ}
    (h : m.run s = .error x s') : (m >>= k).run s = .error x s' := by
  rw [EStateM.run_bind, h]

@[simp] theorem run_get_bind (k : σ → Call ε σ β) : (get >>= k).run s = (k s).run s := rfl

@[simp] theorem run_set_bind (s' : σ) (k : PUnit → Call ε σ β) :
    (set s' >>= k).run s = (k ⟨⟩).run s' := rfl

@[simp] theorem run_set (s' : σ) : (set s' : Call ε σ PUnit).run s = .ok ⟨⟩ s' := rfl

@[simp] theorem run_modify (f : σ → σ) : (modify f : Call ε σ PUnit).run s = .ok ⟨⟩ (f s) := rfl

@[simp] theorem run_modify_bind (f : σ → σ) (k : PUnit → Call ε σ β) :
    (modify f >>= k).run s = (k ⟨⟩).run (f s) := rfl

theorem run_dropResult (m : Call ε σ α) :
    (dropResult m).run s =
      match m.run s with
      | .ok _ s' => .ok () s'
      | .error (.error _) s' => .ok () s'
      | .error .panic s' => .error .panic s' := rfl

theorem run_mapError (f : ε → ε') (m : Call ε σ α) :
    (mapError f m).run s =
      match m.run s with
      | .ok a s' => .ok a s'
      | .error (.error e) s' => .error (.error (f e)) s'
      | .error .panic s' => .error .panic s' := rfl

theorem run_attempt (m : Call ε σ α) :
    (attempt m).run s =
      match m.run s with
      | .ok a s' => .ok (.ok a) s'
      | .error (.error e) s' => .ok (.error e) s'
      | .error .panic s' => .error .panic s' := rfl

theorem run_expect (m : Call ε σ α) :
    (expect m : Call ε' σ α).run s =
      match m.run s with
      | .ok a s' => .ok a s'
      | .error _ s' => .error .panic s' := rfl

theorem run_zoom (view : σ → τ) (update : σ → τ → σ) (m : Call ε τ α) :
    (zoom view update m).run s =
      match m.run (view s) with
      | .ok a t => .ok a (update s t)
      | .error e t => .error e (update s t) := rfl

theorem okStore_of_run {m : Call ε σ α} {s' : σ} (h : m.run s = .ok a s') : okStore m s = some s' := by
  simp [okStore, h]

theorem okStore_eq_some_iff {m : Call ε σ α} {s' : σ} : okStore m s = some s' ↔ ∃ a, m.run s = .ok a s' := by
  unfold okStore
  rcases h : m.run s with ⟨a, t⟩ | ⟨e, t⟩ <;> simp

/-- A loop over `l` whose calls each return `Ok` and leave the store returns
their results in order, each related to its input as the calls say. -/
theorem run_mapM_of_forall {f : α → Call ε σ β} {R : α → β → Prop} :
    ∀ {l : List α}, (∀ a ∈ l, ∃ b, (f a).run s = .ok b s ∧ R a b) →
      ∃ bs, (l.mapM f).run s = .ok bs s ∧ List.Forall₂ R l bs
  | [], _ => ⟨[], rfl, .nil⟩
  | a :: l, h => by
    obtain ⟨b, hb, hR⟩ := h a List.mem_cons_self
    obtain ⟨bs, hbs, hRs⟩ := run_mapM_of_forall fun a' ha' => h a' (List.mem_cons_of_mem _ ha')
    refine ⟨b :: bs, ?_, .cons hR hRs⟩
    rw [List.mapM_cons, run_bind_ok hb, run_bind_ok hbs]
    rfl

end Run

/-! ## Frames: what a call leaves alone -/

def after : EStateM.Result ε σ α → σ
  | .ok _ s => s
  | .error _ s => s

@[simp] theorem after_ok (a : α) (s : σ) : after (.ok a s : EStateM.Result ε σ α) = s := rfl

@[simp] theorem after_error (e : ε) (s : σ) : after (.error e s : EStateM.Result ε σ α) = s := rfl

def Keeps (f : σ → γ) (m : Call ε σ α) : Prop :=
  ∀ s, f (after (m.run s)) = f s

section Keeps

variable {f : σ → γ}

theorem keeps_pure (a : α) : Keeps f (pure a : Call ε σ α) := fun _ => rfl

theorem keeps_get : Keeps f (get : Call ε σ σ) := fun _ => rfl

theorem keeps_fail (e : ε) : Keeps f (fail e : Call ε σ α) := fun _ => rfl

theorem keeps_panic : Keeps f (panic : Call ε σ α) := fun _ => rfl

theorem keeps_modify {g : σ → σ} (h : ∀ s, f (g s) = f s) : Keeps f (modify g : Call ε σ Unit) :=
  fun s => h s

theorem keeps_bind {m : Call ε σ α} {k : α → Call ε σ β} (hm : Keeps f m)
    (hk : ∀ a, Keeps f (k a)) : Keeps f (m >>= k) := by
  intro s
  have h := hm s
  simp only [EStateM.run_bind]
  cases hr : m.run s with
  | ok a s' => rw [hr] at h; exact (hk a s').trans h
  | error e s' => rw [hr] at h; exact h

theorem keeps_ensure {c : Prop} [Decidable c] (e : ε) : Keeps f (ensure c e : Call ε σ Unit) := by
  intro s; by_cases h : c <;> simp [h]

theorem keeps_okOr (o : Option α) (e : ε) : Keeps f (okOr o e : Call ε σ α) := by
  intro s; cases o <;> rfl

theorem keeps_ofExcept (r : Except ε α) : Keeps f (ofExcept r : Call ε σ α) := by
  intro s; cases r <;> rfl

theorem keeps_unwrap (o : Option α) : Keeps f (unwrap o : Call ε σ α) := by
  intro s; cases o <;> rfl

theorem keeps_dropResult {m : Call ε σ α} (hm : Keeps f m) : Keeps f (dropResult m) := by
  intro s
  have h := hm s
  rw [run_dropResult]
  rcases hr : m.run s with ⟨a, s'⟩ | ⟨e | e, s'⟩ <;> rw [hr] at h <;> exact h

theorem keeps_mapError {m : Call ε σ α} (g : ε → ε') (hm : Keeps f m) :
    Keeps f (mapError g m) := by
  intro s
  have h := hm s
  rw [run_mapError]
  rcases hr : m.run s with ⟨a, s'⟩ | ⟨e | e, s'⟩ <;> rw [hr] at h <;> exact h

/-- A call on a part of the store keeps every projection that its write-back
keeps. -/
theorem keeps_zoom {view : σ → τ} {update : σ → τ → σ} (m : Call ε τ α)
    (h : ∀ s t, f (update s t) = f s) : Keeps f (zoom view update m) := by
  intro s
  rw [run_zoom]
  rcases m.run (view s) with ⟨a, t⟩ | ⟨e, t⟩ <;> exact h s t

theorem keeps_ite {c : Prop} [Decidable c] {m₁ m₂ : Call ε σ α} (h₁ : Keeps f m₁)
    (h₂ : Keeps f m₂) : Keeps f (if c then m₁ else m₂) := by
  by_cases hc : c <;> simp [hc, h₁, h₂]

theorem keeps_divide (a b : Nat) : Keeps f (divide a b : Call ε σ Nat) :=
  keeps_ite keeps_panic (keeps_pure _)

theorem keeps_forM {l : List α} {g : α → Call ε σ PUnit} (h : ∀ a ∈ l, Keeps f (g a)) :
    Keeps f (l.forM g) := by
  induction l with
  | nil => exact keeps_pure _
  | cons a l ih =>
      show Keeps f (g a >>= fun _ => l.forM g)
      exact keeps_bind (h a List.mem_cons_self) fun _ =>
        ih fun b hb => h b (List.mem_cons_of_mem a hb)

end Keeps

/-! ## Weakest preconditions

`Wp m Q R s`: run from `s`, `m` returns `Ok a` in a state satisfying `Q a`,
returns `Err e` in a state satisfying `R e`, or panics. A panic is let
through, as `Leaves` lets it through: a block that panics is no step. The
rules compute `Wp` through a call one combinator at a time, so that a proof
about a call says what each continuation needs and never unfolds `EStateM`. -/

def Wp (m : Call ε σ α) (Q : α → σ → Prop) (R : ε → σ → Prop) (s : σ) : Prop :=
  match m.run s with
  | .ok a s' => Q a s'
  | .error (.error e) s' => R e s'
  | .error .panic _ => True

section Wp

variable {Q Q' : α → σ → Prop} {R R' : ε → σ → Prop} {s : σ}

@[simp] theorem wp_pure (a : α) : Wp (pure a : Call ε σ α) Q R s = Q a s := rfl

@[simp] theorem wp_bind (m : Call ε σ α) (k : α → Call ε σ β) {Q : β → σ → Prop} :
    Wp (m >>= k) Q R s = Wp m (fun a s' => Wp (k a) Q R s') R s := by
  unfold Wp
  rw [EStateM.run_bind]
  rcases m.run s with ⟨a, s'⟩ | ⟨e | e, s'⟩ <;> rfl

@[simp] theorem wp_map (f : α → β) (m : Call ε σ α) {Q : β → σ → Prop} :
    Wp (f <$> m) Q R s = Wp m (fun a s' => Q (f a) s') R s := by
  rw [map_eq_pure_bind, wp_bind]
  rfl

@[simp] theorem wp_get {Q : σ → σ → Prop} : Wp (get : Call ε σ σ) Q R s = Q s s := rfl

@[simp] theorem wp_set (s' : σ) {Q : PUnit → σ → Prop} :
    Wp (set s' : Call ε σ PUnit) Q R s = Q () s' := rfl

@[simp] theorem wp_modify (f : σ → σ) {Q : PUnit → σ → Prop} :
    Wp (modify f : Call ε σ PUnit) Q R s = Q () (f s) := rfl

@[simp] theorem wp_fail (e : ε) : Wp (fail e : Call ε σ α) Q R s = R e s := rfl

@[simp] theorem wp_panic : Wp (panic : Call ε σ α) Q R s = True := rfl

@[simp] theorem wp_ensure {c : Prop} [Decidable c] (e : ε) {Q : Unit → σ → Prop} :
    Wp (ensure c e : Call ε σ Unit) Q R s = if c then Q () s else R e s := by
  by_cases h : c <;> simp [h, ensure]

@[simp] theorem wp_okOr_some (a : α) (e : ε) : Wp (okOr (some a) e : Call ε σ α) Q R s = Q a s :=
  rfl

@[simp] theorem wp_okOr_none (e : ε) : Wp (okOr none e : Call ε σ α) Q R s = R e s := rfl

@[simp] theorem wp_ofExcept_ok (a : α) : Wp (ofExcept (.ok a) : Call ε σ α) Q R s = Q a s := rfl

@[simp] theorem wp_ofExcept_error (e : ε) : Wp (ofExcept (.error e) : Call ε σ α) Q R s = R e s :=
  rfl

@[simp] theorem wp_unwrap_some (a : α) : Wp (unwrap (some a) : Call ε σ α) Q R s = Q a s := rfl

@[simp] theorem wp_unwrap_none : Wp (unwrap none : Call ε σ α) Q R s = True := rfl

@[simp] theorem wp_divide (a b : Nat) {Q : Nat → σ → Prop} :
    Wp (divide a b : Call ε σ Nat) Q R s = (b ≠ 0 → Q (a / b) s) := by
  by_cases h : b = 0 <;> simp [h, divide]

@[simp] theorem wp_ite {c : Prop} [Decidable c] (m₁ m₂ : Call ε σ α) :
    Wp (if c then m₁ else m₂) Q R s = if c then Wp m₁ Q R s else Wp m₂ Q R s := by
  by_cases h : c <;> simp [h]

theorem wp_dropResult (m : Call ε σ α) {Q : Unit → σ → Prop} :
    Wp (dropResult m) Q R s = Wp m (fun _ s' => Q () s') (fun _ s' => Q () s') s := by
  unfold Wp
  rw [run_dropResult]
  rcases m.run s with ⟨a, s'⟩ | ⟨e | e, s'⟩ <;> rfl

theorem wp_mapError (f : ε → ε') (m : Call ε σ α) {R : ε' → σ → Prop} :
    Wp (mapError f m) Q R s = Wp m Q (fun e s' => R (f e) s') s := by
  unfold Wp
  rw [run_mapError]
  rcases m.run s with ⟨a, s'⟩ | ⟨e | e, s'⟩ <;> rfl

theorem wp_zoom {view : σ → τ} {update : σ → τ → σ} (m : Call ε τ α) :
    Wp (zoom view update m) Q R s =
      Wp m (fun a t => Q a (update s t)) (fun e t => R e (update s t)) (view s) := by
  unfold Wp
  rw [run_zoom]
  rcases m.run (view s) with ⟨a, t⟩ | ⟨e | e, t⟩ <;> rfl

theorem wp_attempt (m : Call ε σ α) {Q : Except ε α → σ → Prop} :
    Wp (attempt m) Q R s = Wp m (fun a s' => Q (.ok a) s') (fun e s' => Q (.error e) s') s := by
  unfold Wp
  rw [run_attempt]
  rcases m.run s with ⟨a, s'⟩ | ⟨e | e, s'⟩ <;> rfl

theorem Wp.of_forall {m : Call ε σ α} (hQ : ∀ a s', Q a s') (hR : ∀ e s', R e s') : Wp m Q R s := by
  unfold Wp
  rcases m.run s with ⟨a, s'⟩ | ⟨e | e, s'⟩
  · exact hQ a s'
  · exact hR e s'
  · trivial

theorem Wp.mono {m : Call ε σ α} (h : Wp m Q R s) (hQ : ∀ a s', Q a s' → Q' a s')
    (hR : ∀ e s', R e s' → R' e s') : Wp m Q' R' s := by
  unfold Wp at *
  rcases hr : m.run s with ⟨a, s'⟩ | ⟨e | e, s'⟩ <;> rw [hr] at h
  · exact hQ a s' h
  · exact hR e s' h
  · trivial

/-- A step of a block whose outcome the postcondition does not depend on:
the rest must establish it from any state, and every error must meet `R`. -/
theorem wp_bind_of_forall {m : Call ε σ α} {k : α → Call ε σ β} {Q : β → σ → Prop}
    (hk : ∀ a s', Wp (k a) Q R s') (hR : ∀ e s', R e s') : Wp (m >>= k) Q R s := by
  rw [wp_bind]
  exact Wp.of_forall hk hR

theorem wp_ensure_bind {c : Prop} [Decidable c] {e : ε} {k : Unit → Call ε σ α}
    (hpos : c → Wp (k ()) Q R s) (hneg : ¬ c → R e s) : Wp (ensure c e >>= k) Q R s := by
  rw [wp_bind, wp_ensure]
  by_cases h : c
  · rw [if_pos h]
    exact hpos h
  · rw [if_neg h]
    exact hneg h

theorem wp_ofExcept_bind {r : Except ε α} {k : α → Call ε σ β} {Q : β → σ → Prop}
    (hok : ∀ a, r = .ok a → Wp (k a) Q R s) (herr : ∀ e, r = .error e → R e s) :
    Wp (ofExcept r >>= k) Q R s := by
  rw [wp_bind]
  cases r with
  | ok a => exact hok a rfl
  | error e => exact herr e rfl

/-- `if c { m }` in the middle of a block, which goes on with `k` either
way: whatever `P` `m` establishes, `k` may assume, as it may of the state
before when `c` does not hold. -/
theorem wp_ite_bind {c : Prop} [Decidable c] {m : Call ε σ Unit} {k : Unit → Call ε σ α}
    {P : σ → Prop} (hm : Wp m (fun _ s' => P s') R s) (hk : ∀ s', P s' → Wp (k ()) Q R s')
    (hs : P s) : Wp (if c then m >>= k else k ()) Q R s := by
  by_cases h : c
  · rw [if_pos h, wp_bind]
    exact Wp.mono hm (fun _ s' h => hk s' h) (fun _ _ h => h)
  · rw [if_neg h]
    exact hk s hs

/-- A call that keeps the part `f` of the store ends, however it ends, in a
state with the same `f`. -/
theorem Keeps.wp {γ : Type} {f : σ → γ} {m : Call ε σ α} (h : Keeps f m) :
    Wp m (fun _ s' => f s' = f s) (fun _ s' => f s' = f s) s := by
  have hs := h s
  unfold Wp
  unfold after at hs
  rcases hr : m.run s with ⟨a, s'⟩ | ⟨e | e, s'⟩ <;> rw [hr] at hs
  · exact hs
  · exact hs
  · trivial

/-- A call that writes nothing ends, however it ends, in the state it started
from. -/
theorem Keeps.wp_of {m : Call ε σ α} (hm : Keeps id m) (hQ : ∀ a, Q a s) (hR : ∀ e, R e s) :
    Wp m Q R s := by
  refine Wp.mono (Keeps.wp hm) (fun a s' (h : s' = s) => ?_) (fun e s' (h : s' = s) => ?_)
  · rw [h]
    exact hQ a
  · rw [h]
    exact hR e

/-- A call that writes nothing, then the rest of a block: the rest runs from
the same state, and an error of the call leaves that state. -/
theorem wp_bind_of_keeps {m : Call ε σ α} {k : α → Call ε σ β} {Q : β → σ → Prop}
    (hm : Keeps id m) (hk : ∀ a, Wp (k a) Q R s) (hR : ∀ e, R e s) : Wp (m >>= k) Q R s := by
  rw [wp_bind]
  exact Keeps.wp_of hm hk hR

theorem Wp.of_ok {m : Call ε σ α} {a : α} {s' : σ} (h : Wp m Q R s) (hr : m.run s = .ok a s') :
    Q a s' := by
  unfold Wp at h
  rw [hr] at h
  exact h

theorem Wp.of_error {m : Call ε σ α} {e : ε} {s' : σ} (h : Wp m Q R s)
    (hr : m.run s = .error (.error e) s') : R e s' := by
  unfold Wp at h
  rw [hr] at h
  exact h

/-- **Loop rule.** An invariant that every iteration of a `for` loop keeps
holds when the loop ends. -/
theorem wp_forM {β : Type} {f : β → Call ε σ PUnit} {I : σ → Prop} :
    ∀ {l : List β} {s : σ}, (∀ b ∈ l, ∀ s, I s → Wp (f b) (fun _ => I) R s) → I s →
      Wp (l.forM f) (fun _ => I) R s
  | [], _, _, hs => hs
  | b :: l, _, h, hs => by
      rw [List.forM, wp_bind]
      exact Wp.mono (h b List.mem_cons_self _ hs)
        (fun _ s' hs' => wp_forM (fun b' hb' => h b' (List.mem_cons_of_mem _ hb')) hs')
        (fun _ _ he => he)

end Wp

/-! ## Invariants of calls and of runs -/

/-- `m`, run from `s`, ends in `s'` by returning `Ok` or `Err`. A call that
panics leaves no state: its block is invalid. -/
def Leaves (m : Call ε σ α) (s s' : σ) : Prop :=
  (∃ a, m.run s = .ok a s') ∨ ∃ e, m.run s = .error (.error e) s'

def Preserves (P : σ → Prop) (m : Call ε σ α) : Prop :=
  ∀ s s', P s → Leaves m s s' → P s'

/-- What a call establishes of every state it ends in holds of each state
it leaves. -/
theorem Leaves.of_wp {P : σ → Prop} {m : Call ε σ α} {s s' : σ}
    (h : Wp m (fun _ => P) (fun _ => P) s) (hl : Leaves m s s') : P s' := by
  unfold Wp at h
  rcases hl with ⟨a, ha⟩ | ⟨e, he⟩
  · rw [ha] at h
    exact h
  · rw [he] at h
    exact h

theorem Wp.leaves (m : Call ε σ α) (s : σ) :
    Wp m (fun _ s' => Leaves m s s') (fun _ s' => Leaves m s s') s := by
  unfold Wp Leaves
  rcases hr : m.run s with ⟨a, s'⟩ | ⟨e | e, s'⟩
  · exact .inl ⟨a, rfl⟩
  · exact .inr ⟨e, rfl⟩
  · trivial

/-- A call preserves `P` when, from every state satisfying `P`, it ends
in one satisfying `P`, however it ends. -/
theorem preserves_of_wp {P : σ → Prop} {m : Call ε σ α}
    (h : ∀ s, P s → Wp m (fun _ => P) (fun _ => P) s) : Preserves P m :=
  fun s _ hs hl => Leaves.of_wp (h s hs) hl

def Step {κ : Type} (apply : κ → Call ε σ Unit) (s s' : σ) : Prop :=
  ∃ c, Leaves (apply c) s s'

def Reachable {κ : Type} (apply : κ → Call ε σ Unit) (init : σ → Prop) (s : σ) : Prop :=
  ∃ s₀, init s₀ ∧ Relation.ReflTransGen (Step apply) s₀ s

section Runs

variable {κ : Type} {apply : κ → Call ε σ Unit} {init I : σ → Prop}

/-- **Invariant rule.** A property of the initial states that every call
preserves holds in every reachable state. -/
theorem Reachable.invariant (h0 : ∀ s, init s → I s) (h : ∀ c, Preserves I (apply c))
    {s : σ} (hs : Reachable apply init s) : I s := by
  obtain ⟨s₀, hinit, hrun⟩ := hs
  induction hrun with
  | refl => exact h0 s₀ hinit
  | tail _ hstep ih =>
      obtain ⟨c, hc⟩ := hstep
      exact h c _ _ ih hc

theorem Reachable.start {s : σ} (hs : init s) : Reachable apply init s := ⟨s, hs, .refl⟩

theorem Reachable.step {s s' : σ} (hs : Reachable apply init s) (c : κ)
    (hc : Leaves (apply c) s s') : Reachable apply init s' := by
  obtain ⟨s₀, hinit, hrun⟩ := hs
  exact ⟨s₀, hinit, hrun.tail ⟨c, hc⟩⟩

/-- Run the calls `cs` one after another from `s`, each from the state the
one before left; `none` when one of them panics. -/
def execute (apply : κ → Call ε σ Unit) : List κ → σ → Option σ
  | [], s => some s
  | c :: cs, s =>
      match (apply c).run s with
      | .ok _ s' => execute apply cs s'
      | .error (.error _) s' => execute apply cs s'
      | .error .panic _ => none

theorem Reachable.execute {s s' : σ} (hs : Reachable apply init s) :
    ∀ {cs : List κ}, Dispatch.execute apply cs s = some s' → Reachable apply init s' := by
  intro cs
  induction cs generalizing s with
  | nil =>
      intro h
      simp only [Dispatch.execute, Option.some.injEq] at h
      exact h ▸ hs
  | cons c cs ih =>
      intro h
      simp only [Dispatch.execute] at h
      split at h
      · exact ih (hs.step c (.inl ⟨_, ‹_›⟩)) h
      · exact ih (hs.step c (.inr ⟨_, ‹_›⟩)) h
      · cases h

/-- The states reachable from one satisfying `init` by a sequence of calls
every state of which, the first included, satisfies `G`. -/
def ReachableWithin (apply : κ → Call ε σ Unit) (init G : σ → Prop) (s : σ) : Prop :=
  ∃ s₀, init s₀ ∧ G s₀ ∧ Relation.ReflTransGen (fun a b => Step apply a b ∧ G b) s₀ s

theorem ReachableWithin.start {G : σ → Prop} {s : σ} (hs : init s) (hg : G s) :
    ReachableWithin apply init G s :=
  ⟨s, hs, hg, .refl⟩

theorem ReachableWithin.step {G : σ → Prop} {s s' : σ} (hs : ReachableWithin apply init G s) (c : κ)
    (hc : Leaves (apply c) s s') (hg : G s') : ReachableWithin apply init G s' := by
  obtain ⟨s₀, hinit, hg₀, hrun⟩ := hs
  exact ⟨s₀, hinit, hg₀, hrun.tail ⟨⟨c, hc⟩, hg⟩⟩

theorem ReachableWithin.reachable {G : σ → Prop} {s : σ} (hs : ReachableWithin apply init G s) :
    Reachable apply init s := by
  obtain ⟨s₀, hinit, -, hrun⟩ := hs
  refine ⟨s₀, hinit, ?_⟩
  induction hrun with
  | refl => exact .refl
  | tail _ hstep ih => exact ih.tail hstep.1

/-- **Guarded invariant rule.** A property of the initial states that every
call keeps whenever it ends in a state satisfying `G` holds in every state
reachable within `G`. -/
theorem ReachableWithin.invariant {G : σ → Prop} (h0 : ∀ s, init s → I s)
    (h : ∀ c s s', I s → Leaves (apply c) s s' → G s' → I s') {s : σ}
    (hs : ReachableWithin apply init G s) : I s := by
  obtain ⟨s₀, hinit, -, hrun⟩ := hs
  induction hrun with
  | refl => exact h0 s₀ hinit
  | tail _ hstep ih =>
      obtain ⟨⟨c, hc⟩, hg⟩ := hstep
      exact h c _ _ ih hc hg

theorem execute_cons_of_ok {c : κ} {cs : List κ} {s s' : σ} {a : Unit} (h : (apply c).run s = .ok a s') :
    Dispatch.execute apply (c :: cs) s = Dispatch.execute apply cs s' := by
  simp only [Dispatch.execute, h]

theorem execute_cons_of_error {c : κ} {cs : List κ} {s s' : σ} {e : ε}
    (h : (apply c).run s = .error (.error e) s') :
    Dispatch.execute apply (c :: cs) s = Dispatch.execute apply cs s' := by
  simp only [Dispatch.execute, h]

/-- A run of two sequences is the run of the second from where the first
ended. -/
theorem execute_append (cs cs' : List κ) (s : σ) :
    Dispatch.execute apply (cs ++ cs') s = (Dispatch.execute apply cs s).bind (Dispatch.execute apply cs') := by
  induction cs generalizing s with
  | nil => rfl
  | cons c cs ih =>
    simp only [List.cons_append, Dispatch.execute]
    split
    · exact ih _
    · exact ih _
    · rfl

/-- **Invariant rule for runs.** What each call of a run preserves holds
where the run ends. -/
theorem execute_invariant {I : σ → Prop} :
    ∀ {cs : List κ} {s s' : σ}, (∀ c ∈ cs, Preserves I (apply c)) → I s →
      Dispatch.execute apply cs s = some s' → I s'
  | [], s, s', _, hs, h => by
    simp only [Dispatch.execute, Option.some.injEq] at h
    exact h ▸ hs
  | c :: cs, s, s', hcs, hs, h => by
    have hc := hcs c List.mem_cons_self
    have hrest : ∀ c' ∈ cs, Preserves I (apply c') := fun c' hc' => hcs c' (List.mem_cons_of_mem _ hc')
    simp only [Dispatch.execute] at h
    split at h
    · exact execute_invariant hrest (hc s _ hs (.inl ⟨_, ‹_›⟩)) h
    · exact execute_invariant hrest (hc s _ hs (.inr ⟨_, ‹_›⟩)) h
    · cases h

theorem exists_of_execute_eq {p : σ → Prop} [DecidablePred p] {s₀ : σ} (cs : List κ)
    (h : (Dispatch.execute apply cs s₀).map (fun s => decide (p s)) = some true) :
    ∃ s, Dispatch.execute apply cs s₀ = some s ∧ p s := by
  cases hr : Dispatch.execute apply cs s₀ with
  | none => simp [hr] at h
  | some s =>
      simp only [hr, Option.map_some, Option.some.injEq, decide_eq_true_eq] at h
      exact ⟨s, rfl, h⟩

/-- Whether a call from `s` returned `Err(e)` in a state `s'` with
`p e s s'`. -/
def errorAnd (p : ε → σ → σ → Prop) [∀ e s s', Decidable (p e s s')] (s : σ) :
    EStateM.Result (Exit ε) σ α → Bool
  | .error (.error e) s' => decide (p e s s')
  | _ => false

/-- A run that ends in a state `s` from which the call `m` returns an
error `e`, in a state `s'` with `p e s s'`. -/
theorem exists_error_of_execute {α : Type} {p : ε → σ → σ → Prop} [∀ e s s', Decidable (p e s s')]
    {s₀ : σ} (cs : List κ) (m : Call ε σ α)
    (h : (Dispatch.execute apply cs s₀).map (fun s => errorAnd p s (m.run s)) = some true) :
    ∃ s s' e, Dispatch.execute apply cs s₀ = some s ∧ m.run s = .error (.error e) s' ∧ p e s s' := by
  cases hr : Dispatch.execute apply cs s₀ with
  | none => simp [hr] at h
  | some s =>
      simp only [hr, Option.map_some, Option.some.injEq] at h
      cases hm : m.run s with
      | ok a s' => simp [hm, errorAnd] at h
      | error x s' =>
          cases x with
          | error e =>
              rw [hm, errorAnd, decide_eq_true_eq] at h
              exact ⟨s, s', e, rfl, hm, h⟩
          | panic => simp [hm, errorAnd] at h

def panics : EStateM.Result (Exit ε) σ α → Bool
  | .error .panic _ => true
  | _ => false

theorem Reachable.exists_panic_of_execute {α : Type} {s₀ : σ} {cs : List κ} (m : Call ε σ α)
    (h0 : init s₀) (h : (Dispatch.execute apply cs s₀).map (fun s => panics (m.run s)) = some true) :
    ∃ s s', Reachable apply init s ∧ m.run s = .error .panic s' := by
  cases hr : Dispatch.execute apply cs s₀ with
  | none => simp [hr] at h
  | some s =>
      simp only [hr, Option.map_some, Option.some.injEq] at h
      cases hm : m.run s with
      | ok a s' => simp [hm, panics] at h
      | error x s' =>
          cases x with
          | error e => simp [hm, panics] at h
          | panic => exact ⟨s, s', (Reachable.start h0).execute hr, hm⟩

def panicsAnd (p : σ → σ → Prop) [∀ s s', Decidable (p s s')] (s : σ) :
    EStateM.Result (Exit ε) σ α → Bool
  | .error .panic s' => decide (p s s')
  | _ => false

/-- A run from an initial state to a state `s` from which the call `m`
panics, in a state `s'` with `p s s'`. -/
theorem Reachable.exists_panicsAnd_of_execute {α : Type} {p : σ → σ → Prop}
    [∀ s s', Decidable (p s s')] {s₀ : σ} {cs : List κ} (m : Call ε σ α) (h0 : init s₀)
    (h : (Dispatch.execute apply cs s₀).map (fun s => panicsAnd p s (m.run s)) = some true) :
    ∃ s s', Reachable apply init s ∧ m.run s = .error .panic s' ∧ p s s' := by
  cases hr : Dispatch.execute apply cs s₀ with
  | none => simp [hr] at h
  | some s =>
      simp only [hr, Option.map_some, Option.some.injEq] at h
      cases hm : m.run s with
      | ok a s' => simp [hm, panicsAnd] at h
      | error x s' =>
          cases x with
          | error e => simp [hm, panicsAnd] at h
          | panic =>
              rw [hm, panicsAnd, decide_eq_true_eq] at h
              exact ⟨s, s', (Reachable.start h0).execute hr, hm, h⟩

/-- A run from an initial state that ends where `p` holds shows a
reachable state where `p` holds. -/
theorem Reachable.exists_of_execute {p : σ → Prop} [DecidablePred p] {s₀ : σ} {cs : List κ}
    (h0 : init s₀) (h : (Dispatch.execute apply cs s₀).map (fun s => decide (p s)) = some true) :
    ∃ s, Reachable apply init s ∧ p s := by
  cases hr : Dispatch.execute apply cs s₀ with
  | none => simp [hr] at h
  | some s =>
      simp only [hr, Option.map_some, Option.some.injEq, decide_eq_true_eq] at h
      exact ⟨s, (Reachable.start h0).execute hr, h⟩

def okAnd (p : σ → σ → Prop) [∀ s s', Decidable (p s s')] (s : σ) :
    EStateM.Result (Exit ε) σ α → Bool
  | .ok _ s' => decide (p s s')
  | .error _ _ => false

/-- A run from an initial state to a state `s`, and one more call that
returns `Ok` from `s` to a state `s'` with `p s s'`. -/
theorem Reachable.exists_ok_of_execute {p : σ → σ → Prop} [∀ s s', Decidable (p s s')] {s₀ : σ}
    {cs : List κ} {c : κ} (h0 : init s₀)
    (h : (Dispatch.execute apply cs s₀).map (fun s => okAnd p s ((apply c).run s)) = some true) :
    ∃ s s', Reachable apply init s ∧ (apply c).run s = .ok () s' ∧ p s s' := by
  cases hr : Dispatch.execute apply cs s₀ with
  | none => simp [hr] at h
  | some s =>
      simp only [hr, Option.map_some, Option.some.injEq] at h
      cases hc : (apply c).run s with
      | ok a s' =>
          rw [hc, okAnd, decide_eq_true_eq] at h
          exact ⟨s, s', (Reachable.start h0).execute hr, hc, h⟩
      | error e s' => simp [hc, okAnd] at h

/-- A run from an initial state to a state `s`, and a second run of calls
`cs'` from `s` to a state `s'` with `p s s'`. -/
theorem Reachable.exists_of_execute_then {p : σ → σ → Prop} [∀ s s', Decidable (p s s')] {s₀ : σ}
    {cs' : List κ} (cs : List κ) (h0 : init s₀)
    (h : ((Dispatch.execute apply cs s₀).bind fun s =>
      (Dispatch.execute apply cs' s).map fun s' => decide (p s s')) = some true) :
    ∃ s s', Reachable apply init s ∧ Dispatch.execute apply cs' s = some s' ∧ p s s' := by
  cases hr : Dispatch.execute apply cs s₀ with
  | none => simp [hr] at h
  | some s =>
      cases hr' : Dispatch.execute apply cs' s with
      | none => simp [hr, hr'] at h
      | some s' =>
          simp only [hr, hr', Option.bind_some, Option.map_some, Option.some.injEq,
            decide_eq_true_eq] at h
          exact ⟨s, s', (Reachable.start h0).execute hr, hr', h⟩

def returnsAnd (p : α → σ → Prop) [∀ a s, Decidable (p a s)] : EStateM.Result (Exit ε) σ α → Bool
  | .ok a s' => decide (p a s')
  | .error _ _ => false

theorem exists_of_returnsAnd {p : α → σ → Prop} [∀ a s, Decidable (p a s)] {m : Call ε σ α} {s : σ}
    (h : returnsAnd p (m.run s) = true) : ∃ a s', m.run s = .ok a s' ∧ p a s' := by
  cases hr : m.run s with
  | ok a s' =>
      rw [hr, returnsAnd, decide_eq_true_eq] at h
      exact ⟨a, s', rfl, h⟩
  | error e s' => simp [hr, returnsAnd] at h

end Runs

end Dispatch
