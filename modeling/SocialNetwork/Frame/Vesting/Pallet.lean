import Mathlib.Algebra.Order.Floor.Div
import SocialNetwork.Frame.Balances.Locks

/-!
# `pallet_vesting`

A vesting schedule locks `locked` up to `starting_block` and frees
`per_block` of it each block after (`VestingInfo.lockedAt`): the amount
never grows, is all of `locked` up to the start, and is zero from
`starting_block + ⌈locked / per_block⌉` on. The pallet keeps beside the
schedule a balance lock of `VESTING_ID`, which `update_lock` sets to the
amount at the current block, or removes with the schedule once that is
zero (`wp_updateLock`). After `vest`, `vest_other`, `vested_transfer` and
`force_vested_transfer`, the lock of the account they vest follows its
schedule, and no run of them, of `add_vesting_schedule` and of blocks leaves
a lock without a schedule (`noStrayLock_of_reachable`).

`remove_vesting_schedule` deletes the schedule first and then calls
`update_lock`, which finds no schedule and fails with `NotVesting` before
it touches the lock; the failure is ignored (`run_removeVestingSchedule`).
The account keeps the lock of a schedule it no longer has.
-/

namespace SocialNetwork.Vesting


open Dispatch Unsigned Balances

/-- `VestingInfo`; `BlockNumberToBalance` is the identity. -/
structure VestingInfo where
  locked : ℕ
  perBlock : ℕ
  startingBlock : ℕ
  deriving DecidableEq, Repr

/-- `locked_at`: what is still locked at block `n`, nothing once the vested
amount overflows. -/
def VestingInfo.lockedAt (v : VestingInfo) (n : ℕ) : ℕ :=
  -- no block counts toward vesting before the start
  let vestedBlockCount := saturatingSub n v.startingBlock
  match checkedMul balanceBits vestedBlockCount v.perBlock with
  | some balance => saturatingSub v.locked balance
  | none => 0

namespace VestingInfo

variable (v : VestingInfo)

theorem lockedAt_eq (n : ℕ) : v.lockedAt n =
    if (n - v.startingBlock) * v.perBlock ≤ maxValue balanceBits then
      v.locked - (n - v.startingBlock) * v.perBlock
    else 0 := by
  unfold lockedAt checkedMul saturatingSub
  dsimp only
  by_cases h : (n - v.startingBlock) * v.perBlock ≤ maxValue balanceBits
  · rw [if_pos h, if_pos h]
  · rw [if_neg h, if_neg h]

theorem lockedAt_antitone : Antitone v.lockedAt := by
  intro n m hnm
  rw [lockedAt_eq, lockedAt_eq]
  have hmul : (n - v.startingBlock) * v.perBlock ≤ (m - v.startingBlock) * v.perBlock :=
    Nat.mul_le_mul_right _ (Nat.sub_le_sub_right hnm _)
  split_ifs <;> omega

theorem lockedAt_of_le_start {n : ℕ} (h : n ≤ v.startingBlock) : v.lockedAt n = v.locked := by
  rw [lockedAt_eq, Nat.sub_eq_zero_of_le h, Nat.zero_mul, if_pos (Nat.zero_le _), Nat.sub_zero]

theorem lockedAt_eq_zero_of_le (hpos : 0 < v.perBlock) {n : ℕ}
    (h : v.startingBlock + v.locked ⌈/⌉ v.perBlock ≤ n) : v.lockedAt n = 0 := by
  have hceil : v.locked ≤ v.perBlock * (v.locked ⌈/⌉ v.perBlock) := le_smul_ceilDiv hpos
  have hvested : v.locked ≤ (n - v.startingBlock) * v.perBlock :=
    calc v.locked ≤ v.perBlock * (v.locked ⌈/⌉ v.perBlock) := hceil
      _ ≤ v.perBlock * (n - v.startingBlock) := Nat.mul_le_mul_left _ (by omega)
      _ = (n - v.startingBlock) * v.perBlock := Nat.mul_comm _ _
  rw [lockedAt_eq]
  split_ifs <;> omega

end VestingInfo

def vestingId : ℕ := 0x20676e6974736576

/-- The errors of the pallet. -/
inductive Error where
  | notVesting
  | existingVestingSchedule
  | amountLow
  deriving DecidableEq, Repr

/-- The errors of the vesting calls: `BadOrigin`, an error of the balances,
or one of the pallet. -/
inductive DispatchError where
  | badOrigin
  | balances (e : Balances.DispatchError)
  | module (e : Error)
  deriving DecidableEq, Repr

/-- The balances' configuration and `MinVestedTransfer`. -/
structure Config where
  balances : Balances.Config
  minVestedTransfer : ℕ

/-- `Vesting` beside the balances and their locks, and `frame_system`'s
block number. -/
structure State (AccountId : Type) where
  locks : LockState AccountId
  vesting : StorageMap AccountId VestingInfo
  blockNumber : ℕ

abbrev VestingCall (AccountId : Type) := Call DispatchError (State AccountId)

variable {AccountId : Type} [DecidableEq AccountId]

def onLocks {α : Type} (m : LockCall AccountId α) : VestingCall AccountId α :=
  mapError .balances (zoom (·.locks) (fun s l => { s with locks := l }) m)

/-- `ensure_signed`. -/
def ensureSigned (origin : Origin AccountId) : VestingCall AccountId AccountId :=
  mapError (fun _ => .badOrigin) (SocialNetwork.ensureSigned origin)

/-- `ensure_root`. -/
def ensureRoot (origin : Origin AccountId) : VestingCall AccountId Unit :=
  mapError (fun _ => .badOrigin) (SocialNetwork.ensureRoot origin)

section Calls

variable (T : Config)

/-- `update_lock`: the lock follows the schedule at the current block, and
goes with the schedule once nothing is locked. -/
def updateLock (who : AccountId) : VestingCall AccountId Unit := do
  let vesting ← okOr ((← get).vesting.lookup who) (.module .notVesting)
  let now := (← get).blockNumber
  let lockedNow := vesting.lockedAt now
  if lockedNow = 0 then
    onLocks (removeLock T.balances vestingId who)
    modify fun s => { s with vesting := s.vesting.erase who }
  else
    -- `WithdrawReasons::TRANSFER | WithdrawReasons::RESERVE`
    onLocks (setLock T.balances vestingId who lockedNow ⟨false, true, true, false, false⟩)

/-- `vest`. -/
def vest (origin : Origin AccountId) : VestingCall AccountId Unit := do
  let who ← ensureSigned origin
  updateLock T who

/-- `vest_other`; `Lookup` is the identity. -/
def vestOther (origin : Origin AccountId) (target : AccountId) : VestingCall AccountId Unit := do
  let _ ← ensureSigned origin
  updateLock T target

/-- `VestingSchedule::add_vesting_schedule`: nothing for nothing locked. -/
def addVestingSchedule (who : AccountId) (locked perBlock startingBlock : ℕ) :
    VestingCall AccountId Unit := do
  if locked = 0 then pure () else
  if ((← get).vesting.lookup who).isSome then fail (.module .existingVestingSchedule) else
  modify fun s => { s with vesting := s.vesting.insert who ⟨locked, perBlock, startingBlock⟩ }
  -- "it can't fail, but even if somehow it did, we don't really care"
  dropResult (updateLock T who)

/-- `VestingSchedule::remove_vesting_schedule`. -/
def removeVestingSchedule (who : AccountId) : VestingCall AccountId Unit := do
  modify fun s => { s with vesting := s.vesting.erase who }
  dropResult (updateLock T who)

/-- The body `vested_transfer` and `force_vested_transfer` share, from
`source` to `target`. `Lookup` is the identity. -/
def doVestedTransfer (source target : AccountId) (schedule : VestingInfo) :
    VestingCall AccountId Unit := do
  ensure (T.minVestedTransfer ≤ schedule.locked) (.module .amountLow)
  ensure ((← get).vesting.lookup target).isNone (.module .existingVestingSchedule)
  onLocks (onBalances (Balances.transfer T.balances source target schedule.locked .allowDeath))
  -- `expect("user does not have an existing vesting schedule; q.e.d.")`
  match ← attempt (addVestingSchedule T target schedule.locked schedule.perBlock schedule.startingBlock) with
  | .ok () => pure ()
  | .error _ => panic

/-- `vested_transfer`. -/
def vestedTransfer (origin : Origin AccountId) (target : AccountId) (schedule : VestingInfo) :
    VestingCall AccountId Unit := do
  let transactor ← ensureSigned origin
  doVestedTransfer T transactor target schedule

/-- `force_vested_transfer`. -/
def forceVestedTransfer (origin : Origin AccountId) (source target : AccountId) (schedule : VestingInfo) :
    VestingCall AccountId Unit := do
  ensureRoot origin
  doVestedTransfer T source target schedule

end Calls

/-- The dispatchables, the two functions of `VestingSchedule`, and the next
block. -/
inductive Command (AccountId : Type) where
  | vest (origin : Origin AccountId)
  | vestOther (origin : Origin AccountId) (target : AccountId)
  | vestedTransfer (origin : Origin AccountId) (target : AccountId) (schedule : VestingInfo)
  | forceVestedTransfer (origin : Origin AccountId) (source target : AccountId) (schedule : VestingInfo)
  | addVestingSchedule (who : AccountId) (locked perBlock startingBlock : ℕ)
  | removeVestingSchedule (who : AccountId)
  | nextBlock

/-- One command. -/
def Command.apply (T : Config) : Command AccountId → VestingCall AccountId Unit
  | .vest origin => Vesting.vest T origin
  | .vestOther origin target => Vesting.vestOther T origin target
  | .vestedTransfer origin target schedule => Vesting.vestedTransfer T origin target schedule
  | .forceVestedTransfer origin source target schedule =>
    Vesting.forceVestedTransfer T origin source target schedule
  | .addVestingSchedule who locked perBlock startingBlock =>
    Vesting.addVestingSchedule T who locked perBlock startingBlock
  | .removeVestingSchedule who => Vesting.removeVestingSchedule T who
  | .nextBlock => modify fun s => { s with blockNumber := s.blockNumber + 1 }

/-! ## The lock and the schedule -/

def State.vestingLock (s : State AccountId) (who : AccountId) : Option ℕ :=
  ((s.locks.locksOf who).find? fun l => l.id = vestingId).map (·.amount)

/-- `who`'s lock follows its schedule at the current block: `locked_at(now)`
with a schedule, no lock without one. -/
def Synced (s : State AccountId) (who : AccountId) : Prop :=
  s.vestingLock who = (s.vesting.lookup who).map (·.lockedAt s.blockNumber)

def NoStrayLock (s : State AccountId) : Prop :=
  ∀ who, s.vesting.lookup who = none → s.vestingLock who = none

def OnlyTouches (who : AccountId) (s s' : State AccountId) : Prop :=
  s'.blockNumber = s.blockNumber ∧
    ∀ a, a ≠ who → s'.vesting.lookup a = s.vesting.lookup a ∧ s'.locks.locksOf a = s.locks.locksOf a

theorem Synced.vestingLock_eq_none {s : State AccountId} {who : AccountId} (h : Synced s who)
    (hv : s.vesting.lookup who = none) : s.vestingLock who = none := by
  rw [h, hv, Option.map_none]

/-- A call that touches only `who`, and leaves `who` no lock without a
schedule, leaves no account one. -/
theorem NoStrayLock.of_onlyTouches {who : AccountId} {s s' : State AccountId} (hs : NoStrayLock s)
    (ht : OnlyTouches who s s') (hwho : s'.vesting.lookup who = none → s'.vestingLock who = none) :
    NoStrayLock s' := by
  intro a ha
  by_cases haw : a = who
  · subst haw
    exact hwho ha
  · obtain ⟨hv, hl⟩ := ht.2 a haw
    unfold State.vestingLock
    rw [hl]
    exact hs a (hv ▸ ha)

theorem NoStrayLock.of_locks_eq {s : State AccountId} {l : LockState AccountId} (hs : NoStrayLock s)
    (hl : l.locks = s.locks.locks) : NoStrayLock { s with locks := l } := by
  intro a ha
  have h := hs a ha
  unfold State.vestingLock LockState.locksOf at h ⊢
  rw [hl]
  exact h

section Spec

variable (T : Config)

omit [DecidableEq AccountId] in
@[simp] theorem wp_onLocks {α : Type} (m : LockCall AccountId α) {Q : α → State AccountId → Prop}
    {R : DispatchError → State AccountId → Prop} {s : State AccountId} :
    Wp (onLocks m) Q R s =
      Wp m (fun a l => Q a { s with locks := l }) (fun e l => R (.balances e) { s with locks := l }) s.locks := by
  rw [onLocks, wp_mapError, wp_zoom]

/-- `update_lock` leaves `who`'s lock following its schedule, or fails with
`NotVesting`, changing nothing, when there is none. -/
theorem wp_updateLock (who : AccountId) (s : State AccountId) :
    Wp (updateLock T who) (fun _ s' => Synced s' who ∧ OnlyTouches who s s')
      (fun e s' => e = .module .notVesting ∧ s' = s ∧ s.vesting.lookup who = none) s := by
  unfold updateLock
  simp only [wp_bind, wp_get]
  cases hv : s.vesting.lookup who with
  | none => simp
  | some v =>
    simp only [wp_okOr_some]
    split_ifs with h0
    · -- nothing is locked any more: the lock goes, then the schedule
      simp only [wp_bind, wp_onLocks]
      refine Wp.mono (wp_removeLock T.balances vestingId who s.locks) (fun _ l hl => ?_) (fun _ _ h => h.elim)
      simp only [wp_modify]
      refine ⟨?_, rfl, fun a ha => ⟨Finmap.lookup_erase_ne ha, ?_⟩⟩
      · simp [Synced, State.vestingLock, hl who]
      · exact (hl a).trans (if_neg ha)
    · simp only [wp_onLocks]
      refine Wp.mono (wp_setLock T.balances vestingId who h0 rfl s.locks) (fun _ l hl => ?_) (fun _ _ h => h.elim)
      refine ⟨?_, rfl, fun a ha => ⟨rfl, (hl a).trans (if_neg ha)⟩⟩
      have hfind := find?_mergeLock ⟨vestingId, v.lockedAt s.blockNumber,
        .ofWithdrawReasons ⟨false, true, true, false, false⟩⟩ (s.locks.locksOf who)
      simp only [Synced, State.vestingLock, hl who, if_pos, hv, Option.map_some]
      rw [hfind]
      rfl

/-- `update_lock`, from a state where no account has a lock without a
schedule. -/
theorem wp_updateLock_noStray (who : AccountId) {s : State AccountId} (hs : NoStrayLock s) :
    Wp (updateLock T who) (fun _ s' => NoStrayLock s' ∧ Synced s' who) (fun _ s' => s' = s) s :=
  Wp.mono (wp_updateLock T who s) (fun _ _ h => ⟨hs.of_onlyTouches h.2 h.1.vestingLock_eq_none, h.1⟩)
    (fun _ _ h => h.2.1)

/-- `remove_vesting_schedule` takes the schedule off `who` and nothing
else: `update_lock` finds no schedule and its error is dropped. -/
theorem run_removeVestingSchedule (who : AccountId) (s : State AccountId) :
    (removeVestingSchedule T who).run s = .ok () { s with vesting := s.vesting.erase who } := by
  simp [removeVestingSchedule, run_dropResult, updateLock]

/-- `add_vesting_schedule` with a schedule to add leaves the lock following
it; with nothing locked it changes nothing. -/
theorem wp_addVestingSchedule (who : AccountId) (locked perBlock startingBlock : ℕ)
    {s : State AccountId} (hs : NoStrayLock s) :
    Wp (addVestingSchedule T who locked perBlock startingBlock)
      (fun _ s' => NoStrayLock s' ∧ (locked ≠ 0 → Synced s' who) ∧ (locked = 0 → s' = s))
      (fun _ s' => s' = s) s := by
  unfold addVestingSchedule
  split_ifs with h0
  · simp [hs, h0]
  · simp only [wp_bind, wp_get]
    split_ifs with hsome
    · simp
    · simp only [wp_bind, wp_modify, wp_dropResult]
      have hins : (s.vesting.insert who ⟨locked, perBlock, startingBlock⟩).lookup who =
          some ⟨locked, perBlock, startingBlock⟩ := Finmap.lookup_insert _
      have hs1 : NoStrayLock { s with vesting := s.vesting.insert who ⟨locked, perBlock, startingBlock⟩ } :=
        hs.of_onlyTouches ⟨rfl, fun a ha => ⟨Finmap.lookup_insert_of_ne _ ha, rfl⟩⟩
          (fun h => absurd (hins.symm.trans h) (by simp))
      refine Wp.mono (wp_updateLock T who _) (fun _ _ h => ⟨hs1.of_onlyTouches h.2 h.1.vestingLock_eq_none,
        fun _ => h.1, fun h' => absurd h' h0⟩) (fun _ _ h => absurd (hins.symm.trans h.2.2) (by simp))

theorem wp_vest (origin : Origin AccountId) {s : State AccountId} (hs : NoStrayLock s) :
    Wp (vest T origin) (fun _ s' => NoStrayLock s' ∧ ∀ who, origin = .signed who → Synced s' who)
      (fun _ s' => NoStrayLock s') s := by
  unfold vest ensureSigned
  rw [wp_bind, wp_mapError]
  cases origin with
  | signed who =>
    simp only [wp_ensureSigned]
    refine Wp.mono (wp_updateLock_noStray T who hs) (fun _ _ h => ⟨h.1, ?_⟩) (fun _ _ h => h ▸ hs)
    rintro w ⟨⟩
    exact h.2
  | root => exact hs
  | none => exact hs

theorem wp_vestOther (origin : Origin AccountId) (target : AccountId) {s : State AccountId}
    (hs : NoStrayLock s) :
    Wp (vestOther T origin target) (fun _ s' => NoStrayLock s' ∧ Synced s' target)
      (fun _ s' => NoStrayLock s') s := by
  unfold vestOther ensureSigned
  rw [wp_bind, wp_mapError]
  cases origin with
  | signed who =>
    simp only [wp_ensureSigned]
    exact Wp.mono (wp_updateLock_noStray T target hs) (fun _ _ h => h) (fun _ _ h => h ▸ hs)
  | root => exact hs
  | none => exact hs

/-- The vested transfer: the target, without a schedule before, has its
lock following the one added, or, with nothing locked, neither. -/
theorem wp_doVestedTransfer (source target : AccountId) (schedule : VestingInfo) {s : State AccountId}
    (hs : NoStrayLock s) :
    Wp (doVestedTransfer T source target schedule) (fun _ s' => NoStrayLock s' ∧ Synced s' target)
      (fun _ s' => NoStrayLock s') s := by
  unfold doVestedTransfer
  simp only [wp_bind, wp_ensure, wp_get, wp_onLocks]
  split_ifs with hmin hnone
  rotate_left
  · exact hs
  · exact hs
  -- the transfer moves balances alone
  refine Wp.mono (wp_onBalances_locks (P := fun L => L = s.locks.locks) _ rfl) (fun _ l hl => ?_)
    (fun _ l hl => hs.of_locks_eq hl)
  have hs2 := hs.of_locks_eq hl
  have hv : s.vesting.lookup target = none := Option.isNone_iff_eq_none.1 hnone
  rw [wp_attempt]
  refine Wp.mono (wp_addVestingSchedule T target _ _ _ hs2) (fun _ s' h => ?_) (fun _ _ _ => trivial)
  obtain ⟨hstray, hsynced, hsame⟩ := h
  refine ⟨hstray, ?_⟩
  by_cases h0 : schedule.locked = 0
  · -- nothing added: no schedule, and so no lock
    obtain rfl := hsame h0
    show _ = Option.map _ (s.vesting.lookup target)
    rw [hv]
    exact hs2 target hv
  · exact hsynced h0

/-- The account whose lock a command sets: the signer of `vest`, the target
of `vest_other` and of the transfers, the account of a schedule added. -/
def Command.vests : Command AccountId → Option AccountId
  | .vest (.signed who) => some who
  | .vestOther _ target => some target
  | .vestedTransfer _ target _ => some target
  | .forceVestedTransfer _ _ target _ => some target
  | .addVestingSchedule who locked _ _ => if locked = 0 then none else some who
  | _ => none

def Command.IsRemoval : Command AccountId → Prop
  | .removeVestingSchedule _ => True
  | _ => False

/-- **Step.** Every command but `remove_vesting_schedule` leaves no lock
without a schedule, and, when it returns `Ok`, the lock of the account it
vests following its schedule. -/
theorem wp_apply (c : Command AccountId) (hc : ¬ c.IsRemoval) {s : State AccountId} (hs : NoStrayLock s) :
    Wp (c.apply T) (fun _ s' => NoStrayLock s' ∧ ∀ who ∈ c.vests, Synced s' who)
      (fun _ s' => NoStrayLock s') s := by
  cases c with
  | vest origin =>
    refine Wp.mono (wp_vest T origin hs) (fun _ _ h => ⟨h.1, fun who hwho => h.2 who ?_⟩) (fun _ _ h => h)
    cases origin <;> simp_all [Command.vests]
  | vestOther origin target =>
    refine Wp.mono (wp_vestOther T origin target hs) (fun _ _ h => ⟨h.1, ?_⟩) (fun _ _ h => h)
    rintro who ⟨⟩
    exact h.2
  | vestedTransfer origin target schedule =>
    simp only [Command.apply, vestedTransfer, Vesting.ensureSigned, wp_bind, wp_mapError]
    cases origin with
    | signed transactor =>
      simp only [wp_ensureSigned]
      refine Wp.mono (wp_doVestedTransfer T transactor target schedule hs) (fun _ _ h => ⟨h.1, ?_⟩)
        (fun _ _ h => h)
      rintro who ⟨⟩
      exact h.2
    | root => exact hs
    | none => exact hs
  | forceVestedTransfer origin source target schedule =>
    simp only [Command.apply, forceVestedTransfer, Vesting.ensureRoot, wp_bind, wp_mapError]
    cases origin with
    | root =>
      simp only [wp_ensureRoot]
      refine Wp.mono (wp_doVestedTransfer T source target schedule hs) (fun _ _ h => ⟨h.1, ?_⟩)
        (fun _ _ h => h)
      rintro who ⟨⟩
      exact h.2
    | signed who => exact hs
    | none => exact hs
  | addVestingSchedule who locked perBlock startingBlock =>
    refine Wp.mono (wp_addVestingSchedule T who locked perBlock startingBlock hs)
      (fun _ _ h => ⟨h.1, fun w hw => ?_⟩) (fun _ _ h => h ▸ hs)
    by_cases h0 : locked = 0
    · simp [Command.vests, h0] at hw
    · simp only [Command.vests, if_neg h0, Option.mem_def, Option.some.injEq] at hw
      exact hw ▸ h.2.1 h0
  | removeVestingSchedule who => exact absurd trivial hc
  | nextBlock => exact ⟨hs, fun _ h => by cases h⟩

/-- **Run.** From a genesis where every lock has its schedule, no run of
the commands other than `remove_vesting_schedule` leaves a lock without one. -/
theorem noStrayLock_of_reachable {init : State AccountId → Prop} (h0 : ∀ s, init s → NoStrayLock s)
    {s : State AccountId}
    (hs : Reachable (fun c : {c : Command AccountId // ¬ c.IsRemoval} => c.1.apply T) init s) :
    NoStrayLock s :=
  Reachable.invariant h0 (fun c => preserves_of_wp fun _ hs =>
    Wp.mono (wp_apply T c.1 c.2 hs) (fun _ _ h => h.1) (fun _ _ h => h)) hs

/-- In such a run, a command that returns `Ok` leaves the lock of the
account it vests following its schedule. -/
theorem synced_of_reachable {init : State AccountId → Prop} (h0 : ∀ s, init s → NoStrayLock s)
    {s s' : State AccountId}
    (hs : Reachable (fun c : {c : Command AccountId // ¬ c.IsRemoval} => c.1.apply T) init s)
    (c : Command AccountId) (hc : ¬ c.IsRemoval) (hrun : (c.apply T).run s = .ok () s') :
    ∀ who ∈ c.vests, Synced s' who :=
  ((wp_apply T c hc (noStrayLock_of_reachable T h0 hs)).of_ok hrun).2

end Spec

/-- At block 0 a schedule of 100 from block 10 is added to account 1, which
then holds a lock of 100. `remove_vesting_schedule(1)` returns with the
schedule gone and the lock of 100 still on the account. -/
theorem remove_vesting_schedule_keeps_lock :
    ∃ s s', Reachable (Command.apply ⟨⟨1⟩, 0⟩) (· = (⟨⟨⟨∅, 0⟩, ∅⟩, ∅, 0⟩ : State ℕ)) s ∧
      (Command.apply ⟨⟨1⟩, 0⟩ (.removeVestingSchedule 1)).run s = .ok () s' ∧
      s.vesting.lookup 1 = some ⟨100, 1, 10⟩ ∧ s.vestingLock 1 = some 100 ∧
      s'.vesting.lookup 1 = none ∧ s'.vestingLock 1 = some 100 := by
  have h : (execute (Command.apply ⟨⟨1⟩, 0⟩) [.addVestingSchedule 1 100 1 10]
      (⟨⟨⟨∅, 0⟩, ∅⟩, ∅, 0⟩ : State ℕ)).map (fun s => okAnd
        (fun s s' => s.vesting.lookup 1 = some ⟨100, 1, 10⟩ ∧ s.vestingLock 1 = some 100 ∧
          s'.vesting.lookup 1 = none ∧ s'.vestingLock 1 = some 100) s
        ((Command.apply ⟨⟨1⟩, 0⟩ (.removeVestingSchedule 1)).run s)) = some true := by
    decide
  obtain ⟨s, s', ⟨s₀, hs₀, hsteps⟩, hrun, hp⟩ := Reachable.exists_ok_of_execute rfl h
  exact ⟨s, s', ⟨s₀, hs₀.symm, hsteps⟩, hrun, hp⟩

end SocialNetwork.Vesting
