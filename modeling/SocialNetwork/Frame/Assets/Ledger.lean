import SocialNetwork.Frame.Assets.Spec

/-!
# `pallet_assets`: the ledger agrees with the details

`AssetDetails` keeps four counters beside the `Account` entries of its
asset: the supply, the number of accounts, the number of zombies, and the
bound on zombies. `Agrees d m` says that the details `d` of an asset are
those of its entries `m`: the supply is the sum of the balances (as the
source documents it, "the total supply across all accounts"), the counts
are counts of entries, and every entry holds at least the minimum balance.
`Consistent` asks it of every asset, and that an id without details has no
entries.

Every entry point keeps `Consistent` (`entry_preserves_consistent`), so it
holds in every state reachable from a consistent one. `GenesisConfig.build`
is consistent when it lists no balances; with balances it is not: it writes
the entries and leaves the supply and the counts at zero
(`genesis_supply_ne_balance`).
-/

namespace SocialNetwork.Assets

open Dispatch Unsigned StorageMap

variable {AccountId E : Type} [DecidableEq AccountId]

def entryWeight (_ : AssetBalance) : ℕ := 1

def zombieWeight (v : AssetBalance) : ℕ := v.isZombie.toNat

/-- The details `d` of an asset are those of its entries `m`. -/
structure Agrees (d : AssetDetails AccountId) (m : StorageMap AccountId AssetBalance) : Prop where
  supply_eq : d.supply = total AssetBalance.balance m
  accounts_eq : d.accounts = total entryWeight m
  zombies_eq : d.zombies = total zombieWeight m
  zombies_le : d.zombies ≤ d.maxZombies
  minBalance_le : ∀ who v, m.lookup who = some v → d.minBalance ≤ v.balance
  minBalance_pos : 0 < d.minBalance

/-- The entries of an asset id agree with its details, whose supply is a
`u128`, and an id without details has none. -/
def AssetLedger : Option (AssetDetails AccountId) → StorageMap AccountId AssetBalance → Prop
  | some d, m => Agrees d m ∧ d.supply ≤ maxValue balanceBits
  | none, m => m = ∅

def Consistent (s : State AccountId E) : Prop := ∀ id, AssetLedger (s.asset id) (s.account id)

/-! ## One asset -/

namespace Agrees

variable {d d' : AssetDetails AccountId} {m : StorageMap AccountId AssetBalance} {who : AccountId}

/-- An entry holds a positive balance, so `Account::get` reads zero exactly
for a missing entry. -/
theorem notMem_of_balance_eq_zero (h : Agrees d m)
    (hb : ((m.lookup who).getD default).balance = 0) : who ∉ m := by
  rw [← Finmap.lookup_eq_none]
  cases hl : m.lookup who with
  | none => rfl
  | some v =>
      have := h.minBalance_le who v hl
      have := h.minBalance_pos
      simp only [hl, Option.getD_some] at hb
      omega

theorem entry_le (h : Agrees d m) {u : AssetBalance} (hu : m.lookup who = some u) :
    u.balance ≤ d.supply ∧ 1 ≤ d.accounts ∧ u.isZombie.toNat ≤ d.zombies := by
  have hb := valueAt_le_total (f := AssetBalance.balance) m who
  have ha := valueAt_le_total (f := entryWeight) m who
  have hz := valueAt_le_total (f := zombieWeight) m who
  rw [valueAt_of_lookup hu] at hb ha hz
  rw [h.supply_eq, h.accounts_eq, h.zombies_eq]
  exact ⟨hb, ha, hz⟩

/-- A new entry is a zombie only below `max_zombies`, so the count stays
within it. -/
theorem zombies_add_le (h : Agrees d m) {z : Bool} (hz : z = true → d.zombies < d.maxZombies) :
    d.zombies + z.toNat ≤ d.maxZombies := by
  cases z with
  | false => simpa using h.zombies_le
  | true => simpa using hz rfl

/-- Writing the entry `v` at `who`: each counter moves by what `v` adds
and what the old entry took away. -/
theorem insert (h : Agrees d m) {v : AssetBalance}
    (hsupply : d'.supply + valueAt AssetBalance.balance m who = d.supply + v.balance)
    (haccounts : d'.accounts + valueAt entryWeight m who = d.accounts + 1)
    (hzombies : d'.zombies + valueAt zombieWeight m who = d.zombies + zombieWeight v)
    (hzle : d'.zombies ≤ d'.maxZombies) (hmin : d'.minBalance = d.minBalance)
    (hv : d.minBalance ≤ v.balance) : Agrees d' (m.insert who v) where
  supply_eq := by
    have := total_insert (f := AssetBalance.balance) m who v
    have := h.supply_eq
    omega
  accounts_eq := by
    have := total_insert (f := entryWeight) m who v
    have := h.accounts_eq
    simp only [entryWeight] at *
    omega
  zombies_eq := by
    have := total_insert (f := zombieWeight) m who v
    have := h.zombies_eq
    omega
  zombies_le := hzle
  minBalance_le k u hk := by
    by_cases hkw : k = who
    · subst hkw
      simp only [Finmap.lookup_insert, Option.some.injEq] at hk
      subst hk
      omega
    · rw [Finmap.lookup_insert_of_ne _ hkw] at hk
      have := h.minBalance_le k u hk
      omega
  minBalance_pos := hmin ▸ h.minBalance_pos

theorem erase (h : Agrees d m)
    (hsupply : d'.supply + valueAt AssetBalance.balance m who = d.supply)
    (haccounts : d'.accounts + valueAt entryWeight m who = d.accounts)
    (hzombies : d'.zombies + valueAt zombieWeight m who = d.zombies)
    (hzle : d'.zombies ≤ d'.maxZombies) (hmin : d'.minBalance = d.minBalance) :
    Agrees d' (m.erase who) where
  supply_eq := by
    have := total_erase (f := AssetBalance.balance) m who
    have := h.supply_eq
    omega
  accounts_eq := by
    have := total_erase (f := entryWeight) m who
    have := h.accounts_eq
    omega
  zombies_eq := by
    have := total_erase (f := zombieWeight) m who
    have := h.zombies_eq
    omega
  zombies_le := hzle
  minBalance_le k u hk := by
    by_cases hkw : k = who
    · subst hkw; simp at hk
    · rw [Finmap.lookup_erase_ne hkw] at hk
      have := h.minBalance_le k u hk
      omega
  minBalance_pos := hmin ▸ h.minBalance_pos

/-- Details that keep the counters, the bound and the minimum balance
agree with the same entries. -/
theorem of_counters (h : Agrees d m) (hsupply : d'.supply = d.supply)
    (haccounts : d'.accounts = d.accounts) (hzombies : d'.zombies = d.zombies)
    (hzle : d'.zombies ≤ d'.maxZombies) (hmin : d'.minBalance = d.minBalance) : Agrees d' m where
  supply_eq := hsupply ▸ h.supply_eq
  accounts_eq := haccounts ▸ h.accounts_eq
  zombies_eq := hzombies ▸ h.zombies_eq
  zombies_le := hzle
  minBalance_le := hmin ▸ h.minBalance_le
  minBalance_pos := hmin ▸ h.minBalance_pos

end Agrees

/-! ## The whole store -/

variable {s s' : State AccountId E}

theorem Consistent.agrees (hs : Consistent s) {id : ℕ} {d : AssetDetails AccountId}
    (hd : s.asset id = some d) : Agrees d (s.account id) := by
  have := hs id
  rw [hd] at this
  exact this.1

theorem Consistent.supply_le (hs : Consistent s) {id : ℕ} {d : AssetDetails AccountId}
    (hd : s.asset id = some d) : d.supply ≤ maxValue balanceBits := by
  have := hs id
  rw [hd] at this
  exact this.2

theorem Consistent.account_eq_empty (hs : Consistent s) {id : ℕ} (hd : s.asset id = none) :
    s.account id = ∅ := by
  have := hs id
  rw [hd] at this
  exact this

/-- A call that writes the details and entries of one asset id keeps the
invariant when that asset's ledger agrees. -/
theorem Consistent.of_update (hs : Consistent s) (id : ℕ)
    (hasset : ∀ i, i ≠ id → s'.asset i = s.asset i)
    (haccount : ∀ i, i ≠ id → s'.account i = s.account i)
    (h : AssetLedger (s'.asset id) (s'.account id)) : Consistent s' := by
  intro i
  by_cases hi : i = id
  · subst hi; exact h
  · rw [hasset i hi, haccount i hi]; exact hs i

theorem Consistent.of_storage (hs : Consistent s) (hasset : s'.asset = s.asset)
    (haccount : s'.account = s.account) : Consistent s' := by
  intro i
  rw [hasset, haccount]
  exact hs i

/-- The end of a `try_mutate` of the details of `id`: the closure wrote only
entries of `id`, and the details it returns agree with them. -/
theorem Consistent.setAsset (hs : Consistent s) {id : ℕ} {d' : AssetDetails AccountId}
    (hasset : s'.asset = s.asset) (haccount : ∀ i, i ≠ id → s'.account i = s.account i)
    (h : Agrees d' (s'.account id)) (hle : d'.supply ≤ maxValue balanceBits) :
    Consistent (s'.setAsset id (some d')) := by
  refine hs.of_update id (fun i hi => ?_) (fun i hi => ?_) ?_
  · simp [hasset, hi]
  · simp [haccount i hi]
  · simpa using ⟨h, hle⟩

theorem Consistent.setMaxAssetId (hs : Consistent s) (n : ℕ) :
    Consistent { s with maxAssetId := n } :=
  hs.of_storage rfl rfl

theorem Consistent.setAsset_of_counters (hs : Consistent s) {id : ℕ}
    {d d' : AssetDetails AccountId} (hd : s.asset id = some d) (hasset : s'.asset = s.asset)
    (haccount : s'.account = s.account) (hsupply : d'.supply = d.supply)
    (haccounts : d'.accounts = d.accounts) (hzombies : d'.zombies = d.zombies)
    (hzle : d'.zombies ≤ d'.maxZombies) (hmin : d'.minBalance = d.minBalance) :
    Consistent (s'.setAsset id (some d')) := by
  refine hs.setAsset hasset (fun i _ => by rw [haccount]) ?_ (hsupply ▸ hs.supply_le hd)
  rw [haccount]
  exact (hs.agrees hd).of_counters hsupply haccounts hzombies hzle hmin

/-- Details with zero counters over an asset id without entries keep the
invariant: what `create` and the genesis write. -/
theorem Consistent.setAsset_new (hs : Consistent s) {id : ℕ} {d : AssetDetails AccountId}
    (hempty : s.account id = ∅) (hasset : s'.asset = s.asset) (haccount : s'.account = s.account)
    (hsupply : d.supply = 0) (haccounts : d.accounts = 0) (hzombies : d.zombies = 0)
    (hmin : 0 < d.minBalance) : Consistent (s'.setAsset id (some d)) := by
  refine hs.setAsset hasset (fun i _ => by rw [haccount]) ?_ (by omega)
  rw [haccount, hempty]
  exact ⟨by simp [hsupply], by simp [haccounts], by simp [hzombies], by omega, by simp, hmin⟩

section Calls

variable {env : Env AccountId E} {T : Config AccountId}

/-- The end of `moveBalance`, once `dest` is credited in `s₁`. The source
entry `u` is still there, so the entries agree with details whose supply
counts the amount moved a second time. Removing the source entry, or
writing back the `rest` left in it, keeps the ledger. -/
theorem settleSource_consistent (hs : Consistent s) {s₁ : State AccountId E} {id rest : ℕ}
    {source : AccountId} {u : AssetBalance} {d : AssetDetails AccountId}
    {R : DispatchError → State AccountId E → Prop}
    (hasset : s₁.asset = s.asset) (haccount : ∀ i, i ≠ id → s₁.account i = s.account i)
    (hsrc : ∀ f : AssetBalance → ℕ, valueAt f (s₁.account id) source = f u)
    (h : Agrees { d with supply := d.supply + (u.balance - rest) } (s₁.account id))
    (hrest : rest ≤ u.balance) (hdust : rest = 0 ∨ d.minBalance ≤ rest) (hacc : 1 ≤ d.accounts)
    (huz : u.isZombie.toNat ≤ d.zombies) (hmax : d.supply ≤ maxValue balanceBits) :
    Wp (settleSource env id source { u with balance := rest } d)
      (fun d' s' => Consistent (s'.setAsset id (some d'))) R s₁ := by
  have hzle := h.zombies_le
  simp only at hzle
  apply settleSource_spec
  · -- emptied: the entry is removed and uncounted
    intro hdead e
    simp only at hdead
    refine hs.setAsset (by simpa using hasset) (fun i hi => by simpa [hi] using haccount i hi) ?_
      (by simpa using hmax)
    simp only [State.removeAccount_account, Function.update_self]
    exact h.erase (by simp [hsrc]; omega) (by simp [hsrc, entryWeight]; omega)
      (by simp [hsrc, zombieWeight]; omega) (by simp; omega) rfl
  · -- kept, and perhaps no longer a zombie
    intro hkeep z e hz
    simp only at hkeep hz
    have hzs : z.toNat ≤ u.isZombie.toNat := by
      cases z with
      | false => simp
      | true => simp [hz rfl]
    refine hs.setAsset (by simpa using hasset) (fun i hi => by simpa [hi] using haccount i hi) ?_
      (by simpa using hmax)
    simp only [State.insertAccount_account, Function.update_self]
    exact h.insert (by simp [hsrc]; omega) (by simp [hsrc, entryWeight])
      (by simp [hsrc, zombieWeight]; omega) (by simp; omega) rfl (by simp; omega)

theorem moveBalance_consistent (hs : Consistent s) {id amount : ℕ} {source dest : AccountId}
    {d : AssetDetails AccountId} {u : AssetBalance} (hd : s.asset id = some d)
    (hne : dest ≠ source) (hu : (s.account id).lookup source = some u) (hamt : amount ≤ u.balance) :
    Wp (moveBalance env id source dest amount { u with balance := u.balance - amount } d)
      (fun d' s' => Consistent (s'.setAsset id (some d'))) (fun _ => Consistent) s := by
  have h := hs.agrees hd
  have hmax := hs.supply_le hd
  have hzle := h.zombies_le
  -- what the source entry weighs in the totals, before and after `dest` is written
  have hsrc : ∀ (f : AssetBalance → ℕ) (v : AssetBalance),
      valueAt f ((s.account id).insert dest v) source = f u := fun f v => by
    rw [valueAt_insert_of_ne hne.symm, valueAt_of_lookup hu]
  obtain ⟨hub, hacc, huz⟩ := h.entry_le hu
  obtain ⟨rest, hsweep, hrest, hdust⟩ :=
    sweepDust_spec (d := d) amount { u with balance := u.balance - amount }
  simp only at hrest
  have hmoved : amount + (u.balance - amount) - rest = u.balance - rest := by omega
  simp only [moveBalance, hsweep, wp_bind, hmoved]
  apply creditAccount_spec
  · -- `dest` had no entry: `new_account` counts it
    intro hzero hmin z e hz
    have hdest : dest ∉ s.account id := h.notMem_of_balance_eq_zero hzero
    have hnb : saturatingAdd balanceBits (s.getAccount id dest).balance (u.balance - rest) =
        u.balance - rest := by
      rw [hzero, saturatingAdd_of_le (by omega)]
      omega
    have hzd := h.zombies_add_le hz
    rw [hnb] at hmin ⊢
    have h₁ : Agrees
        { d with
          supply := d.supply + (u.balance - rest)
          accounts := d.accounts + 1
          zombies := d.zombies + z.toNat }
        ((s.account id).insert dest
          { s.getAccount id dest with balance := u.balance - rest, isZombie := z }) :=
      h.insert (by simp [hdest]) (by simp [hdest]) (by simp [hdest, zombieWeight]) hzd rfl hmin
    refine settleSource_consistent (u := u) hs rfl (fun i hi => by simp [hi])
      (fun f => by simp [hsrc]) (by simpa using h₁) (by omega) hdust (by simp) (by simp; omega)
      (by simpa using hmax)
  · -- `dest` had an entry: only its balance changes
    intro hzero hmin
    have hdest := lookup_of_getAccount_balance_ne_zero hzero
    have hnb : saturatingAdd balanceBits (s.getAccount id dest).balance (u.balance - rest) =
        (s.getAccount id dest).balance + (u.balance - rest) := by
      have := valueAt_add_valueAt_le_total (f := AssetBalance.balance) (s.account id) hne
      rw [valueAt_of_lookup hdest, valueAt_of_lookup hu, ← h.supply_eq] at this
      exact saturatingAdd_of_le (by omega)
    rw [hnb] at hmin ⊢
    have h₁ : Agrees { d with supply := d.supply + (u.balance - rest) }
        ((s.account id).insert dest
          { s.getAccount id dest with balance := (s.getAccount id dest).balance + (u.balance - rest) }) :=
      h.insert (by simp [hdest]; omega) (by simp [hdest, entryWeight])
        (by simp [hdest, zombieWeight]) (by simpa using hzle) rfl hmin
    refine settleSource_consistent (u := u) hs rfl (fun i hi => by simp [hi])
      (fun f => by simp [hsrc]) (by simpa using h₁) (by omega) hdust hacc huz hmax
  · exact fun _ => hs

theorem doTransfer_consistent (hs : Consistent s) (id : ℕ) (source dest : AccountId) (amount : ℕ) :
    Wp (doTransfer env id source dest amount) (fun _ => Consistent) (fun _ => Consistent) s := by
  unfold doTransfer
  simp only [wp_bind, wp_ensure, wp_get]
  by_cases hzero : amount = 0
  · simpa [hzero] using hs
  by_cases hfrozen : (s.getAccount id source).isFrozen = false
  swap
  · simpa [hzero, hfrozen] using hs
  rw [if_pos hzero, if_pos hfrozen]
  cases hb : checkedSub (s.getAccount id source).balance amount with
  | none => simpa using hs
  | some balance =>
      obtain ⟨hle, rfl⟩ := checkedSub_eq_some_iff.mp hb
      simp only [wp_okOr_some, wp_tryMutateAsset]
      cases hd : s.asset id with
      | none => simpa using hs
      | some d =>
          simp only [wp_okOr_some, wp_bind, wp_ensure, wp_ite, wp_pure]
          by_cases hdfrozen : d.isFrozen = false
          swap
          · simpa [hdfrozen] using hs
          rw [if_pos hdfrozen]
          by_cases hself : dest = source
          · -- a transfer to oneself writes the details back unchanged
            rw [if_pos hself]
            exact hs.setAsset rfl (fun _ _ => rfl) (hs.agrees hd) (hs.supply_le hd)
          · -- the source holds `amount ≠ 0`, so it has an entry
            rw [if_neg hself]
            have hu := lookup_of_getAccount_balance_ne_zero
              (by omega : (s.getAccount id source).balance ≠ 0)
            exact (moveBalance_consistent hs hd hself hu hle).mono (fun _ _ h => h) (fun _ _ h => h)

theorem doMint_consistent (hs : Consistent s) (id : ℕ) (issuer beneficiary : AccountId)
    (amount : ℕ) (check : CheckAssetIssuer) :
    Wp (doMint env id issuer beneficiary amount check) (fun _ => Consistent) (fun _ => Consistent) s := by
  unfold doMint
  simp only [wp_tryMutateAsset]
  cases hd : s.asset id with
  | none => simpa using hs
  | some d =>
      have h := hs.agrees hd
      have hzle := h.zombies_le
      simp only [wp_okOr_some, wp_bind, wp_ensure]
      by_cases hperm : check = .no ∨ issuer = d.issuer
      swap
      · simpa [hperm] using hs
      rw [if_pos hperm]
      cases hc : checkedAdd balanceBits d.supply amount with
      | none => simpa using hs
      | some supply =>
          obtain ⟨hfit, rfl⟩ := checkedAdd_eq_some_iff.mp hc
          simp only [wp_okOr_some]
          apply creditAccount_spec
          · -- a new entry
            intro hzero hmin z e hz
            have hdest : beneficiary ∉ s.account id := h.notMem_of_balance_eq_zero hzero
            have hnb : saturatingAdd balanceBits (s.getAccount id beneficiary).balance amount = amount := by
              rw [hzero, saturatingAdd_of_le (by omega)]
              omega
            have hzd := h.zombies_add_le hz
            rw [hnb] at hmin ⊢
            simp only [wp_pure]
            refine hs.setAsset (by simp) (fun i hi => by simp [hi]) ?_ (by simpa using hfit)
            simp only [State.insertAccount_account, Function.update_self]
            exact h.insert (by simp [hdest]) (by simp [hdest]) (by simp [hdest, zombieWeight])
              (by simpa using hzd) rfl (by simpa using hmin)
          · -- an existing entry
            intro hzero hmin
            have hdest := lookup_of_getAccount_balance_ne_zero hzero
            have hnb : saturatingAdd balanceBits (s.getAccount id beneficiary).balance amount =
                (s.getAccount id beneficiary).balance + amount := by
              have := (h.entry_le hdest).1
              exact saturatingAdd_of_le (by omega)
            rw [hnb] at hmin ⊢
            simp only [wp_pure]
            refine hs.setAsset (by simp) (fun i hi => by simp [hi]) ?_ (by simpa using hfit)
            simp only [State.insertAccount_account, Function.update_self]
            exact h.insert (by simp [hdest]; omega) (by simp [hdest, entryWeight])
              (by simp [hdest, zombieWeight]) (by simpa using hzle) rfl (by simpa using hmin)
          · exact fun _ => hs

/-- `do_burn` keeps the ledger: the supply shrinks by what is burned, dust
included. -/
theorem doBurn_consistent (hs : Consistent s) (id : ℕ) (caller who : AccountId) (amount : ℕ)
    (check : CheckAssetIssuer) :
    Wp (doBurn env id caller who amount check) (fun _ => Consistent) (fun _ => Consistent) s := by
  unfold doBurn
  simp only [wp_tryMutateAsset]
  cases hd : s.asset id with
  | none => simpa using hs
  | some d =>
      have h := hs.agrees hd
      have hmax := hs.supply_le hd
      simp only [wp_okOr_some, wp_bind, wp_ensure]
      by_cases hperm : check = .no ∨ caller = d.admin
      swap
      · simpa [hperm] using hs
      rw [if_pos hperm, wp_tryMutateAccountExists]
      cases hu : (s.account id).lookup who with
      | none => simpa using hs
      | some u =>
          obtain ⟨hub, hacc, huz⟩ := h.entry_le hu
          have hzle := h.zombies_le
          simp only [wp_okOr_some, wp_bind, wp_ite, wp_pure]
          split_ifs with hdust
          · -- below the minimum: the whole balance is burned and the entry removed
            apply deadAccount_spec
            intro e
            refine hs.setAsset (by simp) (fun i hi => by simp [hi]) ?_
              (by simp [saturatingSub]; omega)
            simp only [State.removeAccount_account, Function.update_self]
            exact h.erase (by simp [hu, saturatingSub]; omega) (by simp [hu, entryWeight]; omega)
              (by simp [hu, zombieWeight]; omega) (by simp; omega) rfl
          · -- the entry keeps what is left
            refine hs.setAsset (by simp) (fun i hi => by simp [hi]) ?_
              (by simp [saturatingSub]; omega)
            simp only [State.insertAccount_account, Function.update_self]
            exact h.insert (by simp [hu, saturatingSub]; omega) (by simp [hu, entryWeight])
              (by simp [hu, zombieWeight]) (by simpa using hzle) rfl (by simp at hdust ⊢; omega)

theorem doCreate_consistent (hs : Consistent s) (id : ℕ) (owner admin : AccountId)
    (maxZombies minBalance : ℕ) :
    Wp (doCreate env T id owner admin maxZombies minBalance) (fun _ => Consistent)
      (fun _ => Consistent) s := by
  unfold doCreate
  simp only [wp_bind, wp_get, wp_ensure, wp_onEnv, wp_currency, wp_modify]
  by_cases hnone : s.asset id = none
  swap
  · simpa [hnone] using hs
  by_cases hmin : minBalance ≠ 0
  swap
  · simpa [hmin] using hs
  rw [if_pos hnone, if_pos hmin]
  split
  · -- the deposit is reserved: the asset is written, and perhaps `MaxAssetId`
    split_ifs
    · apply Consistent.setMaxAssetId
      exact hs.setAsset_new (hs.account_eq_empty hnone) rfl rfl rfl rfl rfl (Nat.pos_of_ne_zero hmin)
    · exact hs.setAsset_new (hs.account_eq_empty hnone) rfl rfl rfl rfl rfl (Nat.pos_of_ne_zero hmin)
  · exact hs

theorem forceCreate_consistent (hs : Consistent s) (origin : Origin AccountId) (id : ℕ)
    (owner : AccountId) (maxZombies minBalance : ℕ) :
    Wp (forceCreate T origin id owner maxZombies minBalance) (fun _ => Consistent)
      (fun _ => Consistent) s := by
  unfold forceCreate
  simp only [wp_bind, wp_get, wp_ensure, wp_modify]
  by_cases hforce : T.forceOrigin origin = true
  swap
  · simpa [hforce] using hs
  by_cases hnone : s.asset id = none
  swap
  · simpa [hforce, hnone] using hs
  by_cases hmin : minBalance ≠ 0
  swap
  · simpa [hforce, hnone, hmin] using hs
  rw [if_pos hforce, if_pos hnone, if_pos hmin]
  split_ifs
  · apply Consistent.setMaxAssetId
    exact hs.setAsset_new (hs.account_eq_empty hnone) rfl rfl rfl rfl rfl (Nat.pos_of_ne_zero hmin)
  · exact hs.setAsset_new (hs.account_eq_empty hnone) rfl rfl rfl rfl rfl (Nat.pos_of_ne_zero hmin)

theorem destroyAsset_consistent (hs : Consistent s) (permitted : AssetDetails AccountId → Bool)
    (id zombiesWitness : ℕ) :
    Wp (destroyAsset env permitted id zombiesWitness) (fun _ => Consistent) (fun _ => Consistent) s := by
  unfold destroyAsset
  simp only [wp_tryMutateAsset]
  cases hd : s.asset id with
  | none => simpa using hs
  | some d =>
      simp only [wp_okOr_some, wp_bind, wp_ensure, wp_get, wp_set, wp_onEnv, wp_modify, wp_pure]
      split_ifs
      · exact hs.of_update id (fun i hi => by simp [hi]) (fun i hi => by simp [hi])
          (by simp [AssetLedger])
      all_goals exact hs

theorem setAccountFrozen_consistent (hs : Consistent s) (role : AssetDetails AccountId → AccountId)
    (frozen : Bool) (origin : Origin AccountId) (id : ℕ) (who : AccountId) :
    Wp (setAccountFrozen role frozen origin id who) (fun _ => Consistent) (fun _ => Consistent) s := by
  unfold setAccountFrozen
  cases origin with
  | signed caller =>
      simp only [wp_bind, wp_ensureSigned, wp_get]
      cases hd : s.asset id with
      | none => simpa using hs
      | some d =>
          have h := hs.agrees hd
          simp only [wp_okOr_some, wp_ensure, wp_modify]
          split_ifs with hrole hmem
          · obtain ⟨u, hu⟩ := Finmap.mem_iff.mp hmem
            have hget : s.getAccount id who = u := by simp [State.getAccount, hu]
            refine hs.of_update id (fun i _ => by simp) (fun i hi => by simp [hi]) ?_
            simp only [State.insertAccount_asset, State.insertAccount_account,
              Function.update_self, hd, hget]
            exact ⟨h.insert (by simp [hu]) (by simp [hu, entryWeight]) (by simp [hu, zombieWeight])
              h.zombies_le rfl (h.minBalance_le who u hu), hs.supply_le hd⟩
          all_goals exact hs
  | root => simpa using hs
  | none => simpa using hs

theorem setAssetFrozen_consistent (hs : Consistent s) (role : AssetDetails AccountId → AccountId)
    (frozen : Bool) (origin : Origin AccountId) (id : ℕ) :
    Wp (setAssetFrozen role frozen origin id) (fun _ => Consistent) (fun _ => Consistent) s := by
  unfold setAssetFrozen
  cases origin with
  | signed caller =>
      simp only [wp_bind, wp_ensureSigned, wp_tryMutateAsset]
      cases hd : s.asset id with
      | none => simpa using hs
      | some d =>
          simp only [wp_okOr_some, wp_ensure, wp_pure]
          split_ifs
          · exact hs.setAsset_of_counters hd rfl rfl rfl rfl rfl (hs.agrees hd).zombies_le rfl
          · exact hs
  | root => simpa using hs
  | none => simpa using hs

theorem transferOwnership_consistent (hs : Consistent s) (origin : Origin AccountId) (id : ℕ)
    (owner : AccountId) :
    Wp (transferOwnership env origin id owner) (fun _ => Consistent) (fun _ => Consistent) s := by
  unfold transferOwnership
  cases origin with
  | signed caller =>
      simp only [wp_bind, wp_ensureSigned, wp_tryMutateAsset]
      cases hd : s.asset id with
      | none => simpa using hs
      | some d =>
          have hzle := (hs.agrees hd).zombies_le
          simp only [wp_okOr_some, wp_bind, wp_ensure, wp_ite, wp_pure, wp_onEnv, wp_currency]
          split_ifs
          · exact hs.setAsset_of_counters hd rfl rfl rfl rfl rfl hzle rfl
          · split
            · exact hs.setAsset_of_counters hd rfl rfl rfl rfl rfl hzle rfl
            · exact hs
          · exact hs
  | root => simpa using hs
  | none => simpa using hs

theorem setTeam_consistent (hs : Consistent s) (origin : Origin AccountId) (id : ℕ)
    (issuer admin freezer : AccountId) :
    Wp (setTeam origin id issuer admin freezer) (fun _ => Consistent) (fun _ => Consistent) s := by
  unfold setTeam
  cases origin with
  | signed caller =>
      simp only [wp_bind, wp_ensureSigned, wp_tryMutateAsset]
      cases hd : s.asset id with
      | none => simpa using hs
      | some d =>
          simp only [wp_okOr_some, wp_ensure, wp_pure]
          split_ifs
          · exact hs.setAsset_of_counters hd rfl rfl rfl rfl rfl (hs.agrees hd).zombies_le rfl
          · exact hs
  | root => simpa using hs
  | none => simpa using hs

theorem setMaxZombies_consistent (hs : Consistent s) (origin : Origin AccountId) (id maxZombies : ℕ) :
    Wp (setMaxZombies env T origin id maxZombies) (fun _ => Consistent) (fun _ => Consistent) s := by
  unfold setMaxZombies
  cases origin with
  | signed caller =>
      simp only [wp_bind, wp_ensureSigned, wp_tryMutateAsset]
      cases hd : s.asset id with
      | none => simpa using hs
      | some d =>
          simp only [wp_okOr_some, wp_bind, wp_ensure, wp_ite, wp_pure, wp_onEnv, wp_currency,
            wp_modify]
          split_ifs with howner hzle
          · split
            · exact hs.setAsset_of_counters hd rfl rfl rfl rfl rfl hzle rfl
            · exact hs
          · exact hs.setAsset_of_counters hd rfl rfl rfl rfl rfl hzle rfl
          all_goals exact hs
  | root => simpa using hs
  | none => simpa using hs

theorem setMetadata_consistent (hs : Consistent s) (origin : Origin AccountId) (id : ℕ)
    (name symbol : List UInt8) (decimals : ℕ) :
    Wp (setMetadata env T origin id name symbol decimals) (fun _ => Consistent)
      (fun _ => Consistent) s := by
  unfold setMetadata
  cases origin with
  | signed caller =>
      simp only [wp_bind, wp_ensureSigned, wp_ensure, wp_get]
      cases hd : s.asset id with
      | none => split_ifs <;> simpa using hs
      | some d =>
          simp only [wp_okOr_some, wp_bind, wp_ite, wp_onEnv, wp_currency, wp_modify]
          split_ifs with hname hsymbol howner hclear hmore
          · exact hs.of_storage rfl rfl
          · -- a reservation that fails leaves the storage as it was
            split
            · exact hs.of_storage rfl rfl
            · exact hs
          · exact hs.of_storage rfl rfl
          all_goals exact hs
  | root => simpa using hs
  | none => simpa using hs

theorem forceTransfer_consistent (hs : Consistent s) (origin : Origin AccountId) (id : ℕ)
    (source dest : AccountId) (amount : ℕ) :
    Wp (forceTransfer env origin id source dest amount) (fun _ => Consistent)
      (fun _ => Consistent) s := by
  unfold forceTransfer
  cases origin with
  | signed caller =>
      simp only [wp_bind, wp_ensureSigned, wp_get, wp_ensure]
      by_cases hzero : min amount (s.getAccount id source).balance = 0
      · simpa [hzero] using hs
      rw [if_pos hzero]
      by_cases hself : dest = source
      · simpa [hself] using hs
      simp only [hself, if_false, wp_tryMutateAsset]
      cases hd : s.asset id with
      | none => simpa using hs
      | some d =>
          simp only [wp_okOr_some, wp_bind, wp_ensure, wp_pure]
          split_ifs
          · -- the source holds a positive balance, so it has an entry
            have hu := lookup_of_getAccount_balance_ne_zero
              (by omega : (s.getAccount id source).balance ≠ 0)
            exact (moveBalance_consistent hs hd hself hu (Nat.min_le_right _ _)).mono
              (fun _ _ h => h) (fun _ _ h => h)
          · exact hs
  | root => simpa using hs
  | none => simpa using hs

/-- **Every entry point keeps the ledger**: each dispatchable of
`pallet_assets`, and the `Fungible` and `IssueAndBurn` functions the social
pallets call. -/
theorem entry_preserves_consistent (c : Entry AccountId) :
    Preserves Consistent (Entry.apply env T c) := by
  refine preserves_of_wp fun s hs => ?_
  cases c with
  | create o id admin z b =>
      exact wp_ensureSigned_bind (fun who => doCreate_consistent hs id who admin z b) hs
  | forceCreate o id owner z b => exact forceCreate_consistent hs o id owner z b
  | destroy o id w =>
      exact wp_ensureSigned_bind (fun who => destroyAsset_consistent hs _ id w) hs
  | forceDestroy o id w =>
      simp only [Entry.apply, Assets.forceDestroy, wp_bind, wp_ensure]
      split_ifs
      · exact destroyAsset_consistent hs _ id w
      · exact hs
  | mint o id who amount =>
      exact wp_ensureSigned_bind (fun caller => doMint_consistent hs id caller who amount _) hs
  | burn o id who amount =>
      exact wp_ensureSigned_bind (fun caller => doBurn_consistent hs id caller who amount _) hs
  | transfer o id who amount =>
      exact wp_ensureSigned_bind (fun caller => doTransfer_consistent hs id caller who amount) hs
  | forceTransfer o id source dest amount =>
      exact forceTransfer_consistent hs o id source dest amount
  | freeze o id who => exact setAccountFrozen_consistent hs _ _ o id who
  | thaw o id who => exact setAccountFrozen_consistent hs _ _ o id who
  | freezeAsset o id => exact setAssetFrozen_consistent hs _ _ o id
  | thawAsset o id => exact setAssetFrozen_consistent hs _ _ o id
  | transferOwnership o id owner => exact transferOwnership_consistent hs o id owner
  | setTeam o id issuer admin freezer => exact setTeam_consistent hs o id issuer admin freezer
  | setMaxZombies o id z => exact setMaxZombies_consistent hs o id z
  | setMetadata o id name symbol decimals => exact setMetadata_consistent hs o id name symbol decimals
  | fungibleTransfer token source dest value => exact doTransfer_consistent hs token source dest value
  | fungibleTransferFrom token source operator dest value =>
      simp only [Entry.apply, Fungible.transferFrom, wp_bind, wp_get]
      cases checkedSub (s.allowances token source operator) value with
      | none => simpa using hs
      | some allowance =>
          simp only [wp_okOr_some, wp_bind, wp_ite, wp_modify]
          split_ifs
          · exact (doTransfer_consistent hs token source dest value).mono
              (fun _ _ h => h.of_storage rfl rfl) (fun _ _ h => h)
          · exact hs.of_storage rfl rfl
  | createNewAsset owner z b =>
      simp only [Entry.apply, IssueAndBurn.createNewAsset, wp_bind, wp_get, wp_pure]
      exact doCreate_consistent hs _ owner owner z b
  | issue token who value =>
      simp only [Entry.apply, IssueAndBurn.issue, wp_bind, wp_get, wp_ensure]
      split_ifs
      · exact doMint_consistent hs token who who value _
      · exact hs
  | issueAndBurnBurn token who value =>
      simp only [Entry.apply, IssueAndBurn.burn, wp_bind, wp_get, wp_ensure]
      split_ifs
      · exact doBurn_consistent hs token who who value _
      · exact hs

end Calls

/-! ## Runs -/

/-- The asset classes of the genesis, inserted over a store without
entries. -/
theorem foldl_setAsset_consistent :
    ∀ (l : List (ℕ × AccountId × AccountId × ℕ × ℕ)) (s : State AccountId E), Consistent s →
      (∀ i, s.account i = ∅) → (∀ a ∈ l, 0 < a.2.2.2.2) →
      Consistent (l.foldl (fun s a => s.setAsset a.1 (some (GenesisConfig.assetDetails a))) s)
  | [], _, hs, _, _ => hs
  | a :: l, s, hs, hempty, hmin => by
      have hnext : Consistent (s.setAsset a.1 (some (GenesisConfig.assetDetails a))) :=
        hs.setAsset_new (hempty a.1) rfl rfl rfl rfl rfl (hmin a List.mem_cons_self)
      exact foldl_setAsset_consistent l _ hnext hempty fun b hb => hmin b (List.mem_cons_of_mem a hb)

/-- A genesis that lists no balances, and only positive minimum balances,
is consistent. -/
theorem GenesisConfig.build_consistent (g : GenesisConfig AccountId) (e : E)
    (hacc : g.accounts = []) (hmin : ∀ a ∈ g.assets, 0 < a.2.2.2.2) : Consistent (g.build e) := by
  unfold GenesisConfig.build
  rw [hacc, List.foldl_nil]
  exact foldl_setAsset_consistent g.assets _ (fun _ => rfl) (fun _ => rfl) hmin

variable (env : Env AccountId E) (T : Config AccountId)

/-- **The ledger agrees with the details in every reachable state**: from a
genesis without balances, whatever sequence of dispatchables and trait calls
runs, every asset's supply is the sum of its balances, its account and
zombie counts count its entries, its zombies stay within the bound, and
every entry holds at least the minimum balance. -/
theorem consistent_of_reachable {s : State AccountId E}
    (hs : Reachable (Entry.apply env T)
      (fun s₀ => ∃ (g : GenesisConfig AccountId) (e : E),
        g.accounts = [] ∧ (∀ a ∈ g.assets, 0 < a.2.2.2.2) ∧ s₀ = g.build e) s) :
    Consistent s := by
  refine Reachable.invariant ?_ entry_preserves_consistent hs
  rintro _ ⟨g, e, hacc, hmin, rfl⟩
  exact g.build_consistent e hacc hmin

def genesisWithBalance : GenesisConfig ℕ := ⟨[(0, 1, 1, 3, 1)], [(0, 1, 100)]⟩

/-- `GenesisBuild::build` writes a balance of 100 for an asset whose supply
it leaves at zero, against the documentation of `AssetDetails::supply`. -/
theorem genesis_supply_ne_balance :
    totalSupply (genesisWithBalance.build ()) 0 = 0 ∧
      balance (genesisWithBalance.build ()) 0 1 = 100 ∧
      ¬ Consistent (genesisWithBalance.build () : State ℕ Unit) := by
  refine ⟨rfl, by decide, fun hs => ?_⟩
  have hd : (genesisWithBalance.build () : State ℕ Unit).asset 0 =
      some (GenesisConfig.assetDetails (0, 1, 1, 3, 1)) := rfl
  have := (hs.agrees hd).supply_eq
  revert this
  decide

end SocialNetwork.Assets
