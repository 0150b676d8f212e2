import SocialNetwork.Frame.Balances.Pallet

/-!
# `pallet_balances`: `TotalIssuance` on a failed mutation

`try_mutate_exists` learns that a mutation cannot stand only after its
closure has run: when the data of an account stops providing and the
account has consumers, `dec_providers` refuses with `ConsumerRemaining`
(`run_tryMutateExists_of_consumers`). Storage is not rolled back, so what
the closure wrote stays written, and the closure's result is dropped with
the error.

`set_balance` drops its imbalances inside the closure. Setting such an
account below the existential deposit therefore fails, leaves the account
as it was, and still takes its whole balance off `TotalIssuance`
(`run_setBalance_wipeout_of_consumers`): from a state where the issuance is
the sum of the balances, the failed call leaves one where it is not
(`set_balance_error_burns_issuance`).
-/

namespace SocialNetwork.Balances

open Dispatch Unsigned

variable {AccountId : Type} [DecidableEq AccountId]

namespace State

variable (s : State AccountId) (who : AccountId)

theorem info_of_lookup {a : AccountInfo} (h : s.account.lookup who = some a) : s.info who = a := by
  simp [info, h]

omit [DecidableEq AccountId] in
@[simp] theorem dropNegative_account (amount : ℕ) : (s.dropNegative amount).account = s.account :=
  rfl

omit [DecidableEq AccountId] in
@[simp] theorem dropNegative_totalIssuance (amount : ℕ) :
    (s.dropNegative amount).totalIssuance = s.totalIssuance - amount := rfl

omit [DecidableEq AccountId] in
theorem dropChange_zero (old : ℕ) : s.dropChange old 0 = s.dropNegative old := by
  by_cases h : old = 0
  · subst h
    simp [dropChange, dropNegative, saturatingSub]
  · have hpos : 0 < old := Nat.pos_of_ne_zero h
    simp [dropChange, hpos]

omit [DecidableEq AccountId] in
theorem issued_of_account_eq {s s' : State AccountId} (h : s'.account = s.account) :
    s'.issued = s.issued := by
  simp [issued, h]

end State

omit [DecidableEq AccountId] in
theorem run_dropOnError_of_error {α : Type} {m : BalancesCall AccountId α}
    {f : State AccountId → State AccountId} {s s' : State AccountId} {e : DispatchError}
    (h : m.run s = .error (.error e) s') : (dropOnError m f).run s = .error (.error e) (f s') := by
  simp only [EStateM.run] at h ⊢
  simp [dropOnError, h]

theorem run_decProviders_of_consumers {s : State AccountId} {who : AccountId} {a : AccountInfo}
    (h : s.account.lookup who = some a) (hp : a.providers = 1) (hc : a.consumers ≠ 0) :
    (decProviders who).run s = .error (.error .consumerRemaining) s := by
  simp [decProviders, h, hp, hc]

/-- When the data of an account with one provider and some consumers stops
providing, `try_mutate_exists` fails with `ConsumerRemaining`, keeping what
the closure wrote and dropping its result. -/
theorem run_tryMutateExists_of_consumers {R : Type} {s s₁ : State AccountId} {who : AccountId}
    {a : AccountInfo} {f : Option AccountData → BalancesCall AccountId (R × Option AccountData)}
    {drop : R → State AccountId → State AccountId} {r : R}
    (h : s.account.lookup who = some a) (hdata : a.data ≠ default) (hp : a.providers = 1)
    (hc : a.consumers ≠ 0) (hf : (f (some a.data)).run s = .ok (r, none) s₁)
    (hacc : s₁.account = s.account) :
    (tryMutateExists who f drop).run s = .error (.error .consumerRemaining) (drop r s₁) := by
  have hinfo : s.info who = a := State.info_of_lookup s who h
  have hdec : (dropOnError (decProviders who) (drop r)).run s₁ =
      .error (.error .consumerRemaining) (drop r s₁) :=
    run_dropOnError_of_error (run_decProviders_of_consumers (hacc ▸ h) hp hc)
  simp only [tryMutateExists, run_get_bind, hinfo, hdata, ne_eq, not_false_eq_true,
    decide_true, if_true]
  rw [run_bind_ok hf]
  exact run_bind_error hdec

omit [DecidableEq AccountId] in
theorem run_postMutation_of_total_zero (T : Config) {s : State AccountId} {new : AccountData}
    (htotal : new.total = 0) (hed : 0 < T.existentialDeposit) :
    (postMutation T new).run s = .ok none s := by
  simp [postMutation, htotal, hed]

/-- `try_mutate_account` whose closure empties an account with one provider
and some consumers: `ConsumerRemaining`, after the closure's writes. -/
theorem run_tryMutateAccount_of_consumers (T : Config) {R : Type} {s s₁ : State AccountId}
    {who : AccountId} {a : AccountInfo} {g : AccountData → Bool → BalancesCall AccountId (R × AccountData)}
    {drop : R → State AccountId → State AccountId} {r : R} {d : AccountData}
    (h : s.account.lookup who = some a) (hdata : a.data ≠ default) (hp : a.providers = 1)
    (hc : a.consumers ≠ 0) (hg : (g a.data false).run s = .ok (r, d) s₁)
    (hacc : s₁.account = s.account) (htotal : d.total = 0) (hed : 0 < T.existentialDeposit) :
    (tryMutateAccount T who g drop).run s = .error (.error .consumerRemaining) (drop r s₁) := by
  unfold tryMutateAccount
  refine run_tryMutateExists_of_consumers h hdata hp hc ?_ hacc
  simp only [Option.getD_some, Option.isNone_some]
  rw [run_bind_ok hg]
  exact run_bind_ok (run_postMutation_of_total_zero T htotal hed)

/-- `set_balance` to below the existential deposit, on an account whose
data is its one provider and that has consumers: the call fails with
`ConsumerRemaining` and every account stays as it was, but the imbalances
dropped in the closure have taken the account's free and reserved balance
off `TotalIssuance`. -/
theorem run_setBalance_wipeout_of_consumers (T : Config) {s : State AccountId} {who : AccountId}
    {a : AccountInfo} {newFree newReserved : ℕ}
    (h : s.account.lookup who = some a) (hdata : a.data ≠ default) (hp : a.providers = 1)
    (hc : a.consumers ≠ 0)
    (hwipe : wrappingAdd balanceBits newFree newReserved < T.existentialDeposit) :
    (setBalance T .root who newFree newReserved).run s =
      .error (.error .consumerRemaining) ((s.dropNegative a.data.free).dropNegative a.data.reserved) := by
  have hed : 0 < T.existentialDeposit := Nat.zero_lt_of_lt hwipe
  have hroot : (ensureRoot .root : BalancesCall AccountId Unit) = pure () := rfl
  simp only [setBalance, if_pos hwipe, hroot, pure_bind, mutateAccount]
  refine run_bind_error (run_tryMutateAccount_of_consumers T (r := (0, 0))
    (d := { a.data with free := 0, reserved := 0 }) h hdata hp hc ?_ rfl rfl hed)
  simp only [write, run_modify_bind, State.dropChange_zero]
  rfl

/-! ## A failed `set_balance` -/

def unitConfig : Config := ⟨1⟩

/-- Account 1 holds 100 free, provided for by its balance alone and used by
one consumer; the 100 are all that was issued. -/
def consumedState : State ℕ :=
  ⟨(∅ : StorageMap ℕ AccountInfo).insert 1 ⟨1, 1, ⟨100, 0, 0, 0⟩⟩, 100⟩

/-- Root sets account 1 to nothing: the call fails with `ConsumerRemaining`
and account 1 keeps its 100, but the issuance that was 100 is now 0. -/
theorem set_balance_error_burns_issuance :
    consumedState.totalIssuance = consumedState.issued ∧
      ∃ s', (Command.apply unitConfig (.setBalance .root 1 0 0)).run consumedState =
          .error (.error .consumerRemaining) s' ∧
        s'.account = consumedState.account ∧ s'.totalIssuance = 0 ∧ s'.issued = 100 := by
  have hlookup : consumedState.account.lookup 1 = some ⟨1, 1, ⟨100, 0, 0, 0⟩⟩ := by
    simp [consumedState]
  have hissued : consumedState.issued = 100 := by decide
  have hrun : (setBalance unitConfig .root 1 0 0).run consumedState = _ :=
    run_setBalance_wipeout_of_consumers unitConfig hlookup (by decide) rfl (by decide) (by decide)
  refine ⟨hissued.symm, _, hrun, rfl, rfl, ?_⟩
  exact (State.issued_of_account_eq rfl).trans hissued

end SocialNetwork.Balances
