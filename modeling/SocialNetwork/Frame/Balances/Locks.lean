import SocialNetwork.Frame.Balances.Pallet

/-!
# `pallet_balances`: locks

`LockableCurrency` keeps, for each account, a list of `BalanceLock`s in
`Locks`, at most one per identifier: `set_lock` replaces the lock of its
identifier, `extend_lock` merges into it the larger amount and the union of
the reasons, `remove_lock` takes it out (`mergeLock_of_mem`,
`mergeLock_of_not_mem`). Every run keeps the identifiers of an account's
locks distinct (`locks_nodup_of_reachable`).

`update_locks` writes the list, and the frozen amounts that
`ensure_can_withdraw` reads, separately. The frozen amounts go through
`mutate_account`, whose result is ignored: on an account that does not
exist its `post_mutation` finds a total below the existential deposit and
stores nothing, while `Locks` is written all the same, and `inc_consumers`
fails for want of a provider with only a warning. The lock is then on
record and frozen nowhere: once the account is funded, the whole balance
can be withdrawn (`lock_on_missing_account_not_enforced`).
-/

namespace SocialNetwork.Balances

open Dispatch Unsigned

/-- `WithdrawReasons`, a set of flags. -/
structure WithdrawReasons where
  transactionPayment : Bool
  transfer : Bool
  reserve : Bool
  fee : Bool
  tip : Bool
  deriving DecidableEq, Repr

/-- `WithdrawReasons::is_empty`. -/
def WithdrawReasons.isEmpty (r : WithdrawReasons) : Bool :=
  !(r.transactionPayment || r.transfer || r.reserve || r.fee || r.tip)

/-- `From<WithdrawReasons> for Reasons`: transaction payment alone is `Fee`,
with others `All`, and without it `Misc`. -/
def Reasons.ofWithdrawReasons (r : WithdrawReasons) : Reasons :=
  if r = ⟨true, false, false, false, false⟩ then .fee
  else if r.transactionPayment then .all
  else .misc

/-- `BitOr for Reasons`. -/
def Reasons.or (a b : Reasons) : Reasons := if a = b then a else .all

/-- `BalanceLock`; a `LockIdentifier` is a number here. -/
structure BalanceLock where
  id : ℕ
  amount : ℕ
  reasons : Reasons
  deriving DecidableEq, Repr

/-- The balances beside `Locks`. -/
structure LockState (AccountId : Type) where
  balances : State AccountId
  locks : StorageMap AccountId (List BalanceLock)

variable {AccountId : Type} [DecidableEq AccountId]

/-- `Locks::get`: no entry is no lock. -/
def LockState.locksOf (s : LockState AccountId) (who : AccountId) : List BalanceLock :=
  (s.locks.lookup who).getD []

abbrev LockCall (AccountId : Type) := Call DispatchError (LockState AccountId)

def onBalances {α : Type} (m : BalancesCall AccountId α) : LockCall AccountId α :=
  zoom (·.balances) (fun s b => { s with balances := b }) m

/-! ## `frame_system`'s consumers -/

/-- `inc_consumers`: only an account with a provider. -/
def incConsumers (who : AccountId) : BalancesCall AccountId Unit := do
  let a := (← get).info who
  if a.providers > 0 then write (·.setInfo who { a with consumers := saturatingAdd 32 a.consumers 1 })
  else fail .noProviders

/-- `dec_consumers`: `Account::mutate`, which stores the entry, the count
taken down unless it is zero already. -/
def decConsumers (who : AccountId) (s : State AccountId) : State AccountId :=
  let a := s.info who
  s.setInfo who (if a.consumers > 0 then { a with consumers := a.consumers - 1 } else a)

/-! ## The locks -/

/-- The frozen amounts of `update_locks`: the largest lock for reasons other
than fees, and the largest for fees. -/
def lockedFrozen (locks : List BalanceLock) (b : AccountData) : AccountData :=
  locks.foldl (fun b l =>
    { b with
      miscFrozen := if l.reasons = .all ∨ l.reasons = .misc then max b.miscFrozen l.amount else b.miscFrozen
      feeFrozen := if l.reasons = .all ∨ l.reasons = .fee then max b.feeFrozen l.amount else b.feeFrozen })
    { b with miscFrozen := 0, feeFrozen := 0 }

section Update

/-- `update_locks`. -/
def updateLocks (T : Config) (who : AccountId) (locks : List BalanceLock) : LockCall AccountId Unit := do
  -- "No way this can fail": the result is ignored
  dropResult (onBalances (mutateAccount T who (fun b => pure ((), lockedFrozen locks b)) keep))
  let existed := ((← get).locks.lookup who).isSome
  if locks.isEmpty then
    modify fun s => { s with locks := s.locks.erase who }
    if existed then onBalances (write (decConsumers who))
  else
    modify fun s => { s with locks := s.locks.insert who locks }
    -- a failure is only a warning
    if !existed then dropResult (onBalances (incConsumers who))

/-- One step of the `filter_map` of `set_lock` and `extend_lock`: the first
lock with the identifier meets the new one through `combine`, later ones
with it are dropped. -/
def mergeStep (id : ℕ) (combine : BalanceLock → BalanceLock → BalanceLock)
    (acc : List BalanceLock × Option BalanceLock) (l : BalanceLock) : List BalanceLock × Option BalanceLock :=
  if l.id = id then
    (match acc.2 with
      | some newLock => acc.1 ++ [combine l newLock]
      | none => acc.1, none)
  else (acc.1 ++ [l], acc.2)

/-- The locks of `set_lock` and `extend_lock`, the new one pushed when no
lock has its identifier. -/
def mergeLock (id : ℕ) (combine : BalanceLock → BalanceLock → BalanceLock) (newLock : BalanceLock)
    (locks : List BalanceLock) : List BalanceLock :=
  match locks.foldl (mergeStep id combine) ([], some newLock) with
  | (locks, some lock) => locks ++ [lock]
  | (locks, none) => locks

/-- `set_lock`; no lock of zero or for no reason. -/
def setLock (T : Config) (id : ℕ) (who : AccountId) (amount : ℕ) (reasons : WithdrawReasons) :
    LockCall AccountId Unit := do
  if amount = 0 ∨ reasons.isEmpty then pure () else
  let newLock : BalanceLock := ⟨id, amount, .ofWithdrawReasons reasons⟩
  updateLocks T who (mergeLock id (fun _ newLock => newLock) newLock ((← get).locksOf who))

/-- `extend_lock`: the larger amount and the union of the reasons. -/
def extendLock (T : Config) (id : ℕ) (who : AccountId) (amount : ℕ) (reasons : WithdrawReasons) :
    LockCall AccountId Unit := do
  if amount = 0 ∨ reasons.isEmpty then pure () else
  let newLock : BalanceLock := ⟨id, amount, .ofWithdrawReasons reasons⟩
  updateLocks T who (mergeLock id (fun l newLock => ⟨l.id, max l.amount newLock.amount,
    l.reasons.or newLock.reasons⟩) newLock ((← get).locksOf who))

/-- `remove_lock`. -/
def removeLock (T : Config) (id : ℕ) (who : AccountId) : LockCall AccountId Unit := do
  updateLocks T who (((← get).locksOf who).filter fun l => l.id ≠ id)

end Update

/-- The balance commands and the three of `LockableCurrency`. -/
inductive LockCommand (AccountId : Type) where
  | balances (c : Command AccountId)
  | setLock (id : ℕ) (who : AccountId) (amount : ℕ) (reasons : WithdrawReasons)
  | extendLock (id : ℕ) (who : AccountId) (amount : ℕ) (reasons : WithdrawReasons)
  | removeLock (id : ℕ) (who : AccountId)

/-- One command. -/
def LockCommand.apply (T : Config) : LockCommand AccountId → LockCall AccountId Unit
  | .balances c => onBalances (c.apply T)
  | .setLock id who amount reasons => Balances.setLock T id who amount reasons
  | .extendLock id who amount reasons => Balances.extendLock T id who amount reasons
  | .removeLock id who => Balances.removeLock T id who

/-! ## One lock per identifier -/

section Merge

variable {id : ℕ} {combine : BalanceLock → BalanceLock → BalanceLock}

theorem foldl_mergeStep_none (l acc : List BalanceLock) :
    l.foldl (mergeStep id combine) (acc, none) = (acc ++ l.filter fun x => x.id ≠ id, none) := by
  induction l generalizing acc with
  | nil => simp
  | cons x l ih =>
    rw [List.foldl_cons, mergeStep]
    by_cases hx : x.id = id
    · rw [if_pos hx, ih, List.filter_cons_of_neg (by simpa using hx)]
    · rw [if_neg hx, ih, List.filter_cons_of_pos (by simpa using hx), List.append_assoc]
      rfl

theorem foldl_mergeStep_of_not_mem {l : List BalanceLock} (h : ∀ x ∈ l, x.id ≠ id)
    (acc : List BalanceLock) (newLock : BalanceLock) :
    l.foldl (mergeStep id combine) (acc, some newLock) = (acc ++ l, some newLock) := by
  induction l generalizing acc with
  | nil => simp
  | cons x l ih =>
    rw [List.foldl_cons, mergeStep, if_neg (h x List.mem_cons_self)]
    rw [ih (fun y hy => h y (List.mem_cons_of_mem x hy)), List.append_assoc]
    rfl

/-- The identifier among distinct ones: its lock meets the new one in
place. -/
theorem foldl_mergeStep_of_mem {l : List BalanceLock} (hnd : (l.map BalanceLock.id).Nodup)
    (hmem : id ∈ l.map BalanceLock.id) (acc : List BalanceLock) (newLock : BalanceLock) :
    l.foldl (mergeStep id combine) (acc, some newLock) =
      (acc ++ l.map fun x => if x.id = id then combine x newLock else x, none) := by
  induction l generalizing acc with
  | nil => simp at hmem
  | cons x l ih =>
    rw [List.map_cons, List.nodup_cons] at hnd
    rw [List.foldl_cons, mergeStep, List.map_cons]
    by_cases hx : x.id = id
    · -- the rest has other identifiers
      have hrest : ∀ y ∈ l, y.id ≠ id := fun y hy hyid =>
        hnd.1 (hx ▸ hyid ▸ List.mem_map_of_mem hy)
      have hmap : (l.map fun y => if y.id = id then combine y newLock else y) = l :=
        (List.map_congr_left fun y hy => if_neg (hrest y hy)).trans (List.map_id' l)
      rw [if_pos hx]
      dsimp only
      rw [foldl_mergeStep_none, if_pos hx, List.filter_eq_self.2 (by simpa using hrest), hmap]
      simp
    · have hmem' : id ∈ l.map BalanceLock.id := by
        rcases List.mem_cons.1 (List.map_cons ▸ hmem) with h | h
        · exact absurd h.symm hx
        · exact h
      rw [if_neg hx, ih hnd.2 hmem', if_neg hx, List.append_assoc]
      rfl

theorem mergeLock_of_mem {l : List BalanceLock} (hnd : (l.map BalanceLock.id).Nodup)
    (hmem : id ∈ l.map BalanceLock.id) (newLock : BalanceLock) :
    mergeLock id combine newLock l = l.map fun x => if x.id = id then combine x newLock else x := by
  rw [mergeLock, foldl_mergeStep_of_mem hnd hmem, List.nil_append]

theorem mergeLock_of_not_mem {l : List BalanceLock} (hmem : id ∉ l.map BalanceLock.id)
    (newLock : BalanceLock) : mergeLock id combine newLock l = l ++ [newLock] := by
  have h : ∀ x ∈ l, x.id ≠ id := fun x hx hid => hmem (hid ▸ List.mem_map_of_mem hx)
  rw [mergeLock, foldl_mergeStep_of_not_mem h, List.nil_append]

end Merge

/-- Merging a lock of the identifier, with a `combine` that keeps it, keeps
the identifiers distinct. -/
theorem mergeLock_nodup (id : ℕ) (combine : BalanceLock → BalanceLock → BalanceLock) (newLock : BalanceLock)
    {l : List BalanceLock} (hnd : (l.map BalanceLock.id).Nodup) (hnew : newLock.id = id)
    (hcombine : ∀ x, x.id = id → (combine x newLock).id = id) :
    ((mergeLock id combine newLock l).map BalanceLock.id).Nodup := by
  by_cases hmem : id ∈ l.map BalanceLock.id
  · rw [mergeLock_of_mem hnd hmem, List.map_map]
    have hids : (BalanceLock.id ∘ fun x => if x.id = id then combine x newLock else x) = BalanceLock.id := by
      funext x
      by_cases hx : x.id = id
      · show (if x.id = id then combine x newLock else x).id = x.id
        rw [if_pos hx, hcombine x hx, hx]
      · show (if x.id = id then combine x newLock else x).id = x.id
        rw [if_neg hx]
    rw [hids]
    exact hnd
  · rw [mergeLock_of_not_mem hmem, List.map_append, List.nodup_append]
    refine ⟨hnd, List.nodup_singleton _, ?_⟩
    intro a ha b hb hab
    simp only [List.map_cons, List.map_nil, List.mem_singleton] at hb
    rw [hab, hb, hnew] at ha
    exact hmem ha


section Invariant

variable (T : Config)

def LocksNodup (s : LockState AccountId) : Prop :=
  ∀ who, ((s.locksOf who).map BalanceLock.id).Nodup

omit [DecidableEq AccountId] in
theorem keeps_locks_onBalances {α : Type} (m : BalancesCall AccountId α) :
    Keeps (fun s : LockState AccountId => s.locks) (onBalances m) :=
  keeps_zoom m fun _ _ => rfl

omit [DecidableEq AccountId] in
theorem wp_onBalances_locks {α : Type} (m : BalancesCall AccountId α) {s : LockState AccountId}
    {P : StorageMap AccountId (List BalanceLock) → Prop} (h : P s.locks) :
    Wp (onBalances m) (fun _ s' => P s'.locks) (fun _ s' => P s'.locks) s :=
  Wp.mono (Keeps.wp (keeps_locks_onBalances m)) (fun _ _ h' => h' ▸ h) (fun _ _ h' => h' ▸ h)

/-- `update_locks` stores the list it is given, or none for no lock; what
it does to the balances leaves `Locks` alone. It never fails. -/
theorem wp_updateLocks_locks (who : AccountId) (locks : List BalanceLock) (s : LockState AccountId) :
    Wp (updateLocks T who locks)
      (fun _ s' => s'.locks = if locks.isEmpty then s.locks.erase who else s.locks.insert who locks)
      (fun _ _ => False) s := by
  -- after the frozen amounts, from any state with the same `Locks`
  have hrest : ∀ s1 : LockState AccountId, s1.locks = s.locks →
      Wp (do
          let existed := ((← get).locks.lookup who).isSome
          if locks.isEmpty then
            modify fun s => { s with locks := s.locks.erase who }
            if existed then onBalances (write (decConsumers who))
          else
            modify fun s => { s with locks := s.locks.insert who locks }
            if !existed then dropResult (onBalances (incConsumers who)))
        (fun _ s' => s'.locks = if locks.isEmpty then s.locks.erase who else s.locks.insert who locks)
        (fun _ _ => False) s1 := by
    intro s1 h1
    simp only [wp_bind, wp_get]
    by_cases hl : locks.isEmpty = true
    · simp only [hl, if_true, wp_bind, wp_modify]
      split_ifs
      · -- `dec_consumers` is a write of the balances alone
        simp only [onBalances, write, wp_zoom, wp_modify, h1]
      · simp only [wp_pure, h1]
    · simp only [hl, Bool.false_eq_true, if_false, wp_bind, wp_modify]
      split_ifs
      · rw [wp_dropResult]
        exact wp_onBalances_locks (P := fun L => L = s.locks.insert who locks) _ (by rw [← h1])
      · simp only [wp_pure, h1]
  unfold updateLocks
  rw [wp_bind, wp_dropResult]
  exact Wp.mono (Keeps.wp (keeps_locks_onBalances _)) (fun _ s1 h1 => hrest s1 h1)
    (fun _ s1 h1 => hrest s1 h1)
def LocksNodupOf (locks : StorageMap AccountId (List BalanceLock)) : Prop :=
  ∀ who, (((locks.lookup who).getD []).map BalanceLock.id).Nodup

theorem locksNodupOf_update {locks : StorageMap AccountId (List BalanceLock)} (h : LocksNodupOf locks)
    (who : AccountId) {l : List BalanceLock} (hl : (l.map BalanceLock.id).Nodup) :
    LocksNodupOf (if l.isEmpty then locks.erase who else locks.insert who l) := by
  intro a
  split_ifs
  · by_cases ha : a = who
    · subst ha
      simp
    · rw [Finmap.lookup_erase_ne ha]
      exact h a
  · by_cases ha : a = who
    · subst ha
      simpa using hl
    · rw [Finmap.lookup_insert_of_ne _ ha]
      exact h a

/-- `update_locks` with distinct identifiers keeps every account's
distinct. -/
theorem wp_updateLocks_nodup (who : AccountId) {l : List BalanceLock}
    (hl : (l.map BalanceLock.id).Nodup) {s : LockState AccountId} (hs : LocksNodupOf s.locks) :
    Wp (updateLocks T who l) (fun _ s' => LocksNodupOf s'.locks) (fun _ s' => LocksNodupOf s'.locks) s :=
  Wp.mono (wp_updateLocks_locks T who l s)
    (fun _ _ h => h ▸ locksNodupOf_update hs who hl) (fun _ _ h => h.elim)

/-- **Step.** Every command keeps the identifiers of each account's locks
distinct. -/
theorem preserves_locksNodup (c : LockCommand AccountId) :
    Preserves (fun s : LockState AccountId => LocksNodupOf s.locks) (c.apply T) := by
  refine preserves_of_wp fun s hs => ?_
  cases c with
  | balances c => exact wp_onBalances_locks (P := LocksNodupOf) _ hs
  | setLock id who amount reasons =>
    simp only [LockCommand.apply, Balances.setLock]
    split_ifs
    · exact hs
    · -- the new lock replaces the one of its identifier
      simp only [wp_bind, wp_get]
      have hl := mergeLock_nodup id (fun _ newLock => newLock) ⟨id, amount, .ofWithdrawReasons reasons⟩
        (hs who : ((s.locksOf who).map BalanceLock.id).Nodup) rfl fun _ _ => rfl
      exact wp_updateLocks_nodup T who hl hs
  | extendLock id who amount reasons =>
    simp only [LockCommand.apply, Balances.extendLock]
    split_ifs
    · exact hs
    · -- the merged lock keeps the identifier of the one it extends
      simp only [wp_bind, wp_get]
      have hl := mergeLock_nodup id (fun l newLock => ⟨l.id, max l.amount newLock.amount,
        l.reasons.or newLock.reasons⟩) ⟨id, amount, .ofWithdrawReasons reasons⟩
        (hs who : ((s.locksOf who).map BalanceLock.id).Nodup) rfl fun _ hx => hx
      exact wp_updateLocks_nodup T who hl hs
  | removeLock id who =>
    simp only [LockCommand.apply, Balances.removeLock, wp_bind, wp_get]
    exact wp_updateLocks_nodup T who ((hs who).sublist (List.filter_sublist.map _)) hs

/-- **Run.** From a genesis without locks, no account ever holds two locks
of one identifier. -/
theorem locks_nodup_of_reachable {s : LockState AccountId}
    (hs : Reachable (LockCommand.apply T) (fun s : LockState AccountId => s.locks = ∅) s) (who : AccountId) :
    ((s.locksOf who).map BalanceLock.id).Nodup :=
  Reachable.invariant (I := fun s : LockState AccountId => LocksNodupOf s.locks)
    (fun s h a => by simp [h]) (preserves_locksNodup T) hs who

end Invariant

/-! ## The lock of one identifier -/

section Find

/-- Before the lock with the identifier is placed, the locks kept so far
have other identifiers; `set_lock`'s new lock is then the first with it. -/
theorem find?_foldl_mergeStep (newLock : BalanceLock) (l : List BalanceLock) :
    ∀ acc : List BalanceLock, acc.find? (fun x => x.id = newLock.id) = none →
      (match l.foldl (mergeStep newLock.id (fun _ newLock => newLock)) (acc, some newLock) with
        | (locks, some lock) => locks ++ [lock]
        | (locks, none) => locks).find? (fun x => x.id = newLock.id) = some newLock := by
  induction l with
  | nil =>
    intro acc hacc
    simp [List.find?_append, hacc]
  | cons x l ih =>
    intro acc hacc
    rw [List.foldl_cons, mergeStep]
    by_cases hx : x.id = newLock.id
    · -- the new lock takes the place of `x`; the rest of its identifier go
      rw [if_pos hx]
      dsimp only
      rw [foldl_mergeStep_none]
      simp [List.find?_append, hacc]
    · rw [if_neg hx]
      exact ih _ (by simp [List.find?_append, hacc, hx])

theorem find?_mergeLock (newLock : BalanceLock) (l : List BalanceLock) :
    (mergeLock newLock.id (fun _ newLock => newLock) newLock l).find? (fun x => x.id = newLock.id) =
      some newLock :=
  find?_foldl_mergeStep newLock l [] rfl

theorem find?_filter_id (id : ℕ) (l : List BalanceLock) :
    (l.filter fun x => x.id ≠ id).find? (fun x => x.id = id) = none := by
  rw [List.find?_eq_none]
  intro x hx
  simp only [List.mem_filter] at hx
  simpa using hx.2

end Find

/-- `s'` holds `l` as the locks of `who` and every other account's as `s`
does. -/
def LocksAfter (s s' : LockState AccountId) (who : AccountId) (l : List BalanceLock) : Prop :=
  ∀ a, s'.locksOf a = if a = who then l else s.locksOf a

theorem locksAfter_update (s : LockState AccountId) (who : AccountId) (l : List BalanceLock) :
    LocksAfter s ⟨s.balances, if l.isEmpty then s.locks.erase who else s.locks.insert who l⟩ who l := by
  intro a
  unfold LockState.locksOf
  by_cases ha : a = who
  · subst ha
    rw [if_pos rfl]
    split_ifs with hl
    · simp [List.isEmpty_iff.1 hl]
    · simp
  · rw [if_neg ha]
    split_ifs
    · rw [Finmap.lookup_erase_ne ha]
    · rw [Finmap.lookup_insert_of_ne _ ha]

section Spec

variable (T : Config)

/-- `update_locks` gives `who` the locks `l` and no other account new
ones. -/
theorem wp_updateLocks (who : AccountId) (l : List BalanceLock) (s : LockState AccountId) :
    Wp (updateLocks T who l) (fun _ s' => LocksAfter s s' who l) (fun _ _ => False) s := by
  have h : ∀ s' : LockState AccountId,
      s'.locks = (if l.isEmpty then s.locks.erase who else s.locks.insert who l) → LocksAfter s s' who l := by
    intro s' hs' a
    rw [← locksAfter_update s who l a]
    unfold LockState.locksOf
    rw [hs']
  exact Wp.mono (wp_updateLocks_locks T who l s) (fun _ s' => h s') (fun _ _ h => h)

theorem wp_setLock (id : ℕ) (who : AccountId) {amount : ℕ} {reasons : WithdrawReasons}
    (hamount : amount ≠ 0) (hreasons : reasons.isEmpty = false) (s : LockState AccountId) :
    Wp (setLock T id who amount reasons)
      (fun _ s' => LocksAfter s s' who
        (mergeLock id (fun _ newLock => newLock) ⟨id, amount, .ofWithdrawReasons reasons⟩ (s.locksOf who)))
      (fun _ _ => False) s := by
  have hguard : ¬ (amount = 0 ∨ reasons.isEmpty = true) := by simp [hamount, hreasons]
  simp only [setLock, if_neg hguard, wp_bind, wp_get]
  exact wp_updateLocks T who _ s

theorem wp_removeLock (id : ℕ) (who : AccountId) (s : LockState AccountId) :
    Wp (removeLock T id who)
      (fun _ s' => LocksAfter s s' who ((s.locksOf who).filter fun l => l.id ≠ id))
      (fun _ _ => False) s := by
  simp only [removeLock, wp_bind, wp_get]
  exact wp_updateLocks T who _ s

end Spec

/-! ## A lock frozen nowhere -/

/-- Account 1 has no balance when a lock of 10 is set on it for transfers:
`Locks` holds the lock, and the frozen amounts, written through an account
that does not exist, are not stored. Once 100 is deposited, all 100 are
withdrawn for a transfer, the lock still in `Locks`. -/
theorem lock_on_missing_account_not_enforced :
    ∃ s s', Reachable (LockCommand.apply ⟨1⟩) (· = (⟨⟨∅, 0⟩, ∅⟩ : LockState ℕ)) s ∧
      (LockCommand.apply ⟨1⟩ (.balances (.withdraw 1 100 .misc .allowDeath))).run s = .ok () s' ∧
      s.locksOf 1 = [⟨0, 10, .misc⟩] ∧ (s.balances.info 1).data.miscFrozen = 0 ∧
      (s.balances.info 1).data.free = 100 ∧
      s'.locksOf 1 = [⟨0, 10, .misc⟩] ∧ (s'.balances.info 1).data.free = 0 := by
  have h : (execute (LockCommand.apply ⟨1⟩) [.setLock 0 1 10 ⟨false, true, false, false, false⟩,
      .balances (.depositCreating 1 100)] (⟨⟨∅, 0⟩, ∅⟩ : LockState ℕ)).map (fun s => okAnd
        (fun s s' => s.locksOf 1 = [⟨0, 10, .misc⟩] ∧ (s.balances.info 1).data.miscFrozen = 0 ∧
          (s.balances.info 1).data.free = 100 ∧
          s'.locksOf 1 = [⟨0, 10, .misc⟩] ∧ (s'.balances.info 1).data.free = 0) s
        ((LockCommand.apply ⟨1⟩ (.balances (.withdraw 1 100 .misc .allowDeath))).run s)) = some true := by
    decide
  obtain ⟨s, s', ⟨s₀, hs₀, hsteps⟩, hrun, hp⟩ := Reachable.exists_ok_of_execute rfl h
  exact ⟨s, s', ⟨s₀, hs₀.symm, hsteps⟩, hrun, hp⟩

end SocialNetwork.Balances
