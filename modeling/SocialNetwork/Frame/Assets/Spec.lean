import SocialNetwork.Frame.Assets.Pallet

/-!
# `pallet_assets`: one rule per function

What each function of `Pallet.lean` does, in weakest-precondition form
(`Dispatch.Wp`). The storage helpers are equations; the internal functions
are rules with one hypothesis for each way they can end, which say what
the function writes and returns there. Proofs about the calls cite these
rules and never unfold a helper.

`env` is `frame_system` and `pallet_balances`: the rules let it change
arbitrarily where the source calls into it, and track only what the pallet
writes beside it.
-/

namespace SocialNetwork.Assets

open Dispatch Unsigned

variable {AccountId E α : Type} [DecidableEq AccountId]
variable {env : Env AccountId E} {s : State AccountId E}

/-! ## Storage helpers -/

section Helpers

variable {Q : α → State AccountId E → Prop} {R : DispatchError → State AccountId E → Prop}

omit [DecidableEq AccountId] in
@[simp] theorem wp_tryMutateAsset (id : ℕ)
    (f : Option (AssetDetails AccountId) →
      AssetsCall AccountId E (Option (AssetDetails AccountId) × α)) :
    Wp (tryMutateAsset id f) Q R s =
      Wp (f (s.asset id)) (fun x s' => Q x.2 (s'.setAsset id x.1)) R s := by
  simp only [tryMutateAsset, wp_bind, wp_get]
  rfl

@[simp] theorem wp_tryMutateAccount (id : ℕ) (who : AccountId)
    (f : AssetBalance → AssetsCall AccountId E (AssetBalance × α)) :
    Wp (tryMutateAccount id who f) Q R s =
      Wp (f (s.getAccount id who)) (fun x s' => Q x.2 (s'.insertAccount id who x.1)) R s := by
  simp only [tryMutateAccount, wp_bind, wp_get]
  rfl

@[simp] theorem wp_tryMutateAccountExists (id : ℕ) (who : AccountId)
    (f : Option AssetBalance → AssetsCall AccountId E (Option AssetBalance × α)) :
    Wp (tryMutateAccountExists id who f) Q R s =
      Wp (f ((s.account id).lookup who))
        (fun x s' => Q x.2 (match x.1 with
          | some v => s'.insertAccount id who v
          | none => s'.removeAccount id who)) R s := by
  simp only [tryMutateAccountExists, wp_bind, wp_get]
  congr
  funext x s'
  rcases x with ⟨_ | v, a⟩ <;> rfl

theorem lookup_of_getAccount_balance_ne_zero {id : ℕ} {who : AccountId}
    (h : (s.getAccount id who).balance ≠ 0) :
    (s.account id).lookup who = some (s.getAccount id who) := by
  unfold State.getAccount at *
  cases hl : (s.account id).lookup who with
  | none => simp [hl] at h
  | some v => rfl

omit [DecidableEq AccountId] in
@[simp] theorem wp_onEnv (m : Call DispatchError E α) :
    Wp (onEnv m) Q R s =
      Wp m (fun a e => Q a { s with env := e }) (fun err e => R err { s with env := e }) s.env :=
  wp_zoom m

omit [DecidableEq AccountId] in
@[simp] theorem wp_currency {Q : Unit → E → Prop} {R : DispatchError → E → Prop}
    (op : E → Except Balances.Error E) (e : E) :
    Wp (Env.currency op) Q R e =
      match op e with
      | .ok e' => Q () e'
      | .error err => R (.balances err) e := by
  unfold Wp
  rw [Env.run_currency]
  cases op e <;> rfl

end Helpers

/-! ## Internal functions -/

section Internal

variable {d : AssetDetails AccountId} {who : AccountId}
variable {R : DispatchError → State AccountId E → Prop}

omit [DecidableEq AccountId] in
/-- `new_account` counts one more account, and one more zombie when it
makes one; only `frame_system` changes. -/
theorem newAccount_spec {Q : Bool × AssetDetails AccountId → State AccountId E → Prop}
    (hok : ∀ (z : Bool) (e : E), (z = true → d.zombies < d.maxZombies) →
      Q (z, { d with accounts := d.accounts + 1, zombies := d.zombies + z.toNat })
        { s with env := e })
    (herr : ∀ err, R err s) :
    Wp (newAccount env who d) Q R s := by
  unfold newAccount
  cases hc : checkedAdd 32 d.accounts 1 with
  | none => simpa [hc] using herr _
  | some accounts =>
      obtain rfl : accounts = d.accounts + 1 := ((checkedAdd_eq_some_iff).mp hc).2.symm
      simp only [wp_bind, wp_okOr_some, wp_get, wp_ite, wp_ensure, wp_set, wp_pure]
      split_ifs with hex hz
      · -- an account of `frame_system`: a consumer reference instead of a zombie
        cases hi : env.incConsumers s.env who with
        | none => simpa [hi] using herr _
        | some e => simpa [hi] using hok false e (by simp)
      · exact hok true s.env (fun _ => hz)
      · exact herr _

omit [DecidableEq AccountId] in
/-- `dezombify` may turn a zombie into a consumer of `frame_system`, and
never the other way. -/
theorem dezombify_spec {Q : Bool × AssetDetails AccountId → State AccountId E → Prop}
    {isZombie : Bool}
    (hok : ∀ (z : Bool) (e : E), (z = true → isZombie = true) →
      Q (z, { d with zombies := d.zombies + z.toNat - isZombie.toNat }) { s with env := e }) :
    Wp (dezombify env who d isZombie) Q R s := by
  unfold dezombify
  simp only [wp_bind, wp_get, wp_ite, wp_set, wp_pure]
  split_ifs with h
  · simpa [h.1] using hok false _ (by simp)
  · simpa using hok isZombie s.env id

omit [DecidableEq AccountId] in
theorem deadAccount_spec {Q : AssetDetails AccountId → State AccountId E → Prop}
    {isZombie : Bool}
    (hok : ∀ e : E,
      Q { d with zombies := d.zombies - isZombie.toNat, accounts := d.accounts - 1 }
        { s with env := e }) :
    Wp (deadAccount env who d isZombie) Q R s := by
  unfold deadAccount
  cases isZombie with
  | true => simpa using hok s.env
  | false => simpa using hok (env.decConsumers s.env who)

/-- The closure shared by `do_mint`, `do_transfer` and `force_transfer`
credits `amount` to `who`; an entry whose balance was zero is a new account,
counted by `new_account`. -/
theorem creditAccount_spec {id amount : ℕ} {Q : AssetDetails AccountId → State AccountId E → Prop}
    (hnew : (s.getAccount id who).balance = 0 →
      d.minBalance ≤ saturatingAdd balanceBits (s.getAccount id who).balance amount →
      ∀ (z : Bool) (e : E), (z = true → d.zombies < d.maxZombies) →
        Q { d with accounts := d.accounts + 1, zombies := d.zombies + z.toNat }
          ({ s with env := e }.insertAccount id who
            { s.getAccount id who with
              balance := saturatingAdd balanceBits (s.getAccount id who).balance amount,
              isZombie := z }))
    (hold : (s.getAccount id who).balance ≠ 0 →
      d.minBalance ≤ saturatingAdd balanceBits (s.getAccount id who).balance amount →
      Q d (s.insertAccount id who
        { s.getAccount id who with
          balance := saturatingAdd balanceBits (s.getAccount id who).balance amount }))
    (herr : ∀ err, R err s) :
    Wp (creditAccount env id who amount d) Q R s := by
  unfold creditAccount
  simp only [wp_tryMutateAccount, wp_bind, wp_ensure, wp_ite, wp_pure]
  split_ifs with hmin hzero
  · apply newAccount_spec
    · intro z e hz
      exact hnew hzero hmin z e hz
    · exact herr
  · exact hold hzero hmin
  · exact herr _

/-- The end of `do_transfer` and `force_transfer`: an emptied source entry
is removed and uncounted, any other is written back, perhaps dezombified. -/
theorem settleSource_spec {id : ℕ} {source : AccountId} {src : AssetBalance}
    {Q : AssetDetails AccountId → State AccountId E → Prop}
    (hdead : src.balance = 0 → ∀ e : E,
      Q { d with zombies := d.zombies - src.isZombie.toNat, accounts := d.accounts - 1 }
        ({ s with env := e }.removeAccount id source))
    (hkeep : src.balance ≠ 0 → ∀ (z : Bool) (e : E), (z = true → src.isZombie = true) →
      Q { d with zombies := d.zombies + z.toNat - src.isZombie.toNat }
        ({ s with env := e }.insertAccount id source { src with isZombie := z })) :
    Wp (settleSource env id source src d) Q R s := by
  unfold settleSource
  split_ifs with hzero
  · simp only [wp_bind, wp_modify, wp_pure]
    exact deadAccount_spec (hdead hzero)
  · simp only [wp_bind, wp_modify, wp_pure]
    exact dezombify_spec (hkeep hzero)

omit [DecidableEq AccountId] in
/-- The dust rule: what the source keeps is all of its balance or none of
it when it would fall below the minimum, and the rest is moved. -/
theorem sweepDust_spec (amount : ℕ) (src : AssetBalance) :
    ∃ rest, sweepDust amount src d = (amount + src.balance - rest, { src with balance := rest }) ∧
      rest ≤ src.balance ∧ (rest = 0 ∨ d.minBalance ≤ rest) := by
  unfold sweepDust
  split_ifs with hdust
  · exact ⟨0, by simp, by omega, by simp⟩
  · exact ⟨src.balance, by simp, le_rfl, by omega⟩

end Internal

end SocialNetwork.Assets
