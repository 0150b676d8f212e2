import SocialNetwork.Frame.Democracy.Pallet

/-!
# `pallet_democracy`: the lock after `unlock`

`update_lock` sets an account's lock to `Voting::locked_balance`. For a
direct voter that is the largest of its votes and its prior lock, so a
prior lock that has not run out stays locked
(`prior_le_updateLock_of_direct`). For a delegating account it is the
delegated balance alone, whatever the prior lock
(`updateLock_of_delegating`). `try_delegate` keeps the prior lock of an
account that votes, so an account with a conviction lock pending from a won
referendum can delegate a zero balance and have anyone `unlock` it, before
the lock period is over (`delegation_unlocks_conviction_vote`).
-/

namespace SocialNetwork.Democracy

open Dispatch

variable {AccountId : Type} [DecidableEq AccountId]

namespace State

variable (s : State AccountId) (who : AccountId)

@[simp] theorem voting_setVoting_self (v : Voting AccountId) : (s.setVoting who v).voting who = v := by
  simp [voting, setVoting]

@[simp] theorem setVoting_blockNumber (v : Voting AccountId) :
    (s.setVoting who v).blockNumber = s.blockNumber := rfl

@[simp] theorem setLockAmount_locks_self (amount : ℕ) : (s.setLockAmount who amount).locks who = amount := by
  simp [setLockAmount]

@[simp] theorem setVoting_locks (v : Voting AccountId) : (s.setVoting who v).locks = s.locks := rfl

/-- After `set_lock` or `remove_lock` of the amount an account needs, its
lock is that amount. -/
theorem locks_of_setLock_or_removeLock (amount : ℕ) :
    (if amount = 0 then s.removeLock who else s.setLock who amount).locks who = amount := by
  by_cases h : amount = 0
  · simp [h, removeLock]
  · simp [h, setLock]

end State

omit [DecidableEq AccountId] in
theorem Voting.lockedBalance_rejig_delegating (balance : ℕ) (target : AccountId)
    (conviction : Conviction) (delegations : Delegations) (prior : PriorLock) (now : ℕ) :
    ((Voting.delegating balance target conviction delegations prior).rejig now).lockedBalance =
      balance := rfl

/-- The votes' fold of `locked_balance` starts from the prior lock and only
grows. -/
theorem le_foldl_max (l : List ℕ) (a : ℕ) : a ≤ l.foldl max a := by
  induction l generalizing a with
  | nil => exact le_rfl
  | cons b l ih => exact (le_max_left a b).trans (ih (max a b))

/-- `update_lock` on a delegating account sets its lock to the delegated
balance, with the prior lock left out. -/
theorem updateLock_of_delegating {s : State AccountId} {who : AccountId} {balance : ℕ}
    {target : AccountId} {conviction : Conviction} {delegations : Delegations} {prior : PriorLock}
    (h : s.voting who = .delegating balance target conviction delegations prior) :
    (updateLock who s).locks who = balance := by
  unfold updateLock
  rw [h]
  dsimp only
  rw [Voting.lockedBalance_rejig_delegating]
  exact State.locks_of_setLock_or_removeLock _ who balance

/-- On a direct voter, `update_lock` keeps at least a prior lock that has
not run out. -/
theorem prior_le_updateLock_of_direct {s : State AccountId} {who : AccountId}
    {votes : List (ReferendumIndex × AccountVote)} {delegations : Delegations} {prior : PriorLock}
    (h : s.voting who = .direct votes delegations prior) (hnow : s.blockNumber < prior.block) :
    prior.amount ≤ (updateLock who s).locks who := by
  have hrejig : prior.rejig s.blockNumber = prior := if_neg (by omega)
  have hlocked : ((s.voting who).rejig s.blockNumber).lockedBalance =
      (votes.map fun i => i.2.balance).foldl max prior.amount := by
    rw [h]
    simp only [Voting.rejig, Voting.prior, Voting.delegations, hrejig, Voting.setCommon,
      Voting.lockedBalance, PriorLock.locked]
  unfold updateLock
  dsimp only
  rw [State.locks_of_setLock_or_removeLock, hlocked]
  exact le_foldl_max _ _

/-! ## A run -/

/-- A runtime for the run below: enactment periods of 10 blocks, voting
periods of 5, and 100 free for every account of 1000 issued. -/
def mockConfig : Config ℕ where
  enactmentPeriod := 10
  votingPeriod := 5
  maxVotes := 100
  freeBalance _ := 100
  totalIssuance := 1000

/-- Account 1 votes aye on referendum 0 with its 100 at `Locked1x`; the
referendum passes at block 5, which locks the 100 until block 15. Still at
block 5, account 1 removes its vote, which moves the lock to its prior lock,
delegates nothing to account 2, and unlocks itself. -/
def convictionTrace : List (Command ℕ) :=
  [.startReferendum .simpleMajority,
    .vote (.signed 1) 0 (.standard ⟨true, .locked1x⟩ 100),
    .nextBlock, .nextBlock, .nextBlock, .nextBlock, .nextBlock,
    .removeVote (.signed 1) 0,
    .delegate (.signed 1) 2 .none 0,
    .unlock (.signed 1) 1]

-- account 1's vote locks its 100
example : (execute (Command.apply mockConfig) (convictionTrace.take 2) State.init).map (·.locks 1) =
    some 100 := by
  decide +kernel

/-- At block 5, before the lock period of account 1's winning vote ends at
15, its prior lock of 100 is still recorded but its lock is gone. -/
theorem delegation_unlocks_conviction_vote :
    ∃ s, execute (Command.apply mockConfig) convictionTrace State.init = some s ∧
      s.referendumInfoOf 0 = some (.finished true 5) ∧
      s.blockNumber < 5 + mockConfig.enactmentPeriod * Conviction.locked1x.lockPeriods ∧
      s.voting 1 = .delegating 0 2 .none ⟨0, 0⟩ ⟨15, 100⟩ ∧
      s.locks 1 = 0 :=
  exists_of_execute_eq convictionTrace (by decide +kernel)

end SocialNetwork.Democracy
