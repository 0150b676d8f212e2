import SocialNetwork.Lib.Dispatch

/-!
# The outputs of a run

`execute` runs calls one after another and keeps the last state. Calls that
also output something, as the calls of a pallet deposit events, are run by
`collect`, which keeps what the calls that return `Ok` output, in order,
with the last state. A call that returns `Err` outputs nothing, and the
state it leaves is kept, as `execute` keeps it. With the outputs dropped,
`collect` is `execute` (`map_snd_collect`).
-/

namespace Dispatch

variable {ε σ κ α β : Type}

/-- Run the calls `cs` from `s`, each from the state the one before left,
with what the calls that return `Ok` output, in order, and the last state;
`none` when one of them panics. -/
def collect (apply : κ → Call ε σ (List β)) : List κ → σ → Option (List β × σ)
  | [], s => some ([], s)
  | c :: cs, s =>
      match (apply c).run s with
      | .ok out s' => (collect apply cs s').map fun r => (out ++ r.1, r.2)
      | .error (.error _) s' => collect apply cs s'
      | .error .panic _ => none

theorem run_map (f : α → β) (m : Call ε σ α) (s : σ) :
    (f <$> m).run s = match m.run s with
      | .ok a s' => .ok (f a) s'
      | .error e s' => .error e s' := by
  rw [map_eq_pure_bind, EStateM.run_bind]
  cases m.run s <;> rfl

/-- Dropping the outputs of a run gives the run `execute` makes of the same
calls with their outputs dropped. -/
theorem map_snd_collect {apply : κ → Call ε σ (List β)} {apply' : κ → Call ε σ Unit}
    (h : ∀ c, apply' c = (fun _ => ()) <$> apply c) (cs : List κ) (s : σ) :
    (collect apply cs s).map Prod.snd = execute apply' cs s := by
  induction cs generalizing s with
  | nil => rfl
  | cons c cs ih =>
    simp only [collect, execute, h c, run_map]
    rcases (apply c).run s with ⟨out, s'⟩ | ⟨e | e, s'⟩
    · dsimp only
      rw [← ih s', Option.map_map]
      rfl
    · exact ih s'
    · rfl

end Dispatch
