import Mathlib.Data.Nat.Sqrt
import SocialNetwork.Frame.Support

/-!
# `pallet_democracy`: votes, locks and tallies

The datatypes of `src/frame/democracy/src/{conviction,vote,types,vote_threshold}.rs`
with their methods. A vote carries a `Conviction`, which multiplies the
voting weight of its balance (`Conviction.votes`) and, if the vote is on the
winning side, locks the balance for a number of enactment periods
(`Conviction.lockPeriods`). `Voting` is what an account does: it votes
directly, each vote kept under its referendum's index, or it delegates a
balance to another account. Both keep a `PriorLock`, the lock left by votes
and delegations that are gone, and the `Delegations` received from others.

Balances are `u128` (`balanceBits`): `Conviction.votes` saturates at
`u128::MAX`, the tally's `add` and `remove` are checked, and `increase`,
`reduce` and the sums of delegations saturate, as in the source. Block
numbers are `u32` and wrap.
-/

namespace SocialNetwork.Democracy

open Unsigned

/-- `ReferendumIndex`, a `u32`. -/
abbrev ReferendumIndex := ℕ

/-- `Conviction`. -/
inductive Conviction where
  | none | locked1x | locked2x | locked3x | locked4x | locked5x | locked6x
  deriving DecidableEq, Repr

/-- `From<Conviction> for u8`: the multiplier of a locked conviction. -/
def Conviction.toU8 : Conviction → ℕ
  | .none => 0
  | .locked1x => 1
  | .locked2x => 2
  | .locked3x => 3
  | .locked4x => 4
  | .locked5x => 5
  | .locked6x => 6

/-- `Conviction::lock_periods`: how many enactment periods a winning vote
stays locked. -/
def Conviction.lockPeriods : Conviction → ℕ
  | .none => 0
  | .locked1x => 1
  | .locked2x => 2
  | .locked3x => 4
  | .locked4x => 8
  | .locked5x => 16
  | .locked6x => 32

/-- `Delegations`: post-conviction votes and the capital behind them. -/
structure Delegations where
  votes : ℕ
  capital : ℕ
  deriving DecidableEq, Repr

instance : Inhabited Delegations := ⟨⟨0, 0⟩⟩

/-- `Saturating::saturating_add` of `Delegations`. -/
def Delegations.saturatingAdd (d o : Delegations) : Delegations :=
  ⟨Unsigned.saturatingAdd balanceBits d.votes o.votes,
    Unsigned.saturatingAdd balanceBits d.capital o.capital⟩

/-- `Saturating::saturating_sub` of `Delegations`. -/
def Delegations.saturatingSub (d o : Delegations) : Delegations :=
  ⟨Unsigned.saturatingSub d.votes o.votes, Unsigned.saturatingSub d.capital o.capital⟩

/-- `Conviction::votes`: a tenth of the capital without conviction, else
the capital times the multiplier, `u128::MAX` if that overflows. -/
def Conviction.votes (c : Conviction) (capital : ℕ) : Delegations :=
  let votes := match c with
    | .none => capital / 10
    | x => (checkedMul balanceBits capital x.toU8).getD (maxValue balanceBits)
  ⟨votes, capital⟩

/-- `Vote`: a side and a conviction. -/
structure Vote where
  aye : Bool
  conviction : Conviction
  deriving DecidableEq, Repr

/-- `AccountVote`. -/
inductive AccountVote where
  | standard (vote : Vote) (balance : ℕ)
  | split (aye nay : ℕ)
  deriving DecidableEq, Repr

namespace AccountVote

/-- `locked_if`: the lock periods and balance of a standard vote on the
side that won. -/
def lockedIf : AccountVote → Bool → Option (ℕ × ℕ)
  | .standard vote balance, approved =>
    if vote.aye = approved then some (vote.conviction.lockPeriods, balance) else none
  | .split _ _, _ => none

/-- `balance`: the balance a vote uses. -/
def balance : AccountVote → ℕ
  | .standard _ balance => balance
  | .split aye nay => saturatingAdd balanceBits aye nay

/-- `as_standard`: the side of a standard vote. -/
def asStandard : AccountVote → Option Bool
  | .standard vote _ => some vote.aye
  | .split _ _ => none

end AccountVote

/-- `PriorLock(until, amount)`: a lock of `amount` left by votes and
delegations that are gone, due to end at `block`. -/
structure PriorLock where
  block : ℕ
  amount : ℕ
  deriving DecidableEq, Repr

instance : Inhabited PriorLock := ⟨⟨0, 0⟩⟩

namespace PriorLock

/-- `accumulate`: the later block and the larger amount. -/
def accumulate (p : PriorLock) (untilBlock amount : ℕ) : PriorLock :=
  ⟨max p.block untilBlock, max p.amount amount⟩

/-- `locked`. -/
def locked (p : PriorLock) : ℕ := p.amount

/-- `rejig`: the lock is gone once its block is reached. -/
def rejig (p : PriorLock) (now : ℕ) : PriorLock :=
  if p.block ≤ now then ⟨0, 0⟩ else p

end PriorLock

/-- `Voting`: an account votes directly, its votes sorted by referendum, or
delegates `balance` to `target`. -/
inductive Voting (AccountId : Type) where
  | direct (votes : List (ReferendumIndex × AccountVote)) (delegations : Delegations)
      (prior : PriorLock)
  | delegating (balance : ℕ) (target : AccountId) (conviction : Conviction)
      (delegations : Delegations) (prior : PriorLock)
  deriving DecidableEq, Repr

namespace Voting

variable {AccountId : Type}

/-- `Default for Voting`: no votes, no delegations, no prior lock. -/
def default : Voting AccountId := .direct [] ⟨0, 0⟩ ⟨0, 0⟩

def delegations : Voting AccountId → Delegations
  | .direct _ delegations _ => delegations
  | .delegating _ _ _ delegations _ => delegations

def prior : Voting AccountId → PriorLock
  | .direct _ _ prior => prior
  | .delegating _ _ _ _ prior => prior

/-- `set_common`: the delegations and the prior lock replaced. -/
def setCommon (v : Voting AccountId) (delegations : Delegations) (prior : PriorLock) :
    Voting AccountId :=
  match v with
  | .direct votes _ _ => .direct votes delegations prior
  | .delegating balance target conviction _ _ => .delegating balance target conviction delegations prior

/-- `rejig`: the prior lock rejigged at `now`. -/
def rejig (v : Voting AccountId) (now : ℕ) : Voting AccountId :=
  v.setCommon v.delegations (v.prior.rejig now)

/-- `locked_balance`: the balance the account must keep locked. A direct
voter locks the largest of its votes' balances and its prior lock; a
delegating account locks its delegated balance. -/
def lockedBalance : Voting AccountId → ℕ
  | .direct votes _ prior => (votes.map fun i => i.2.balance).foldl max prior.locked
  | .delegating balance _ _ _ _ => balance

end Voting

/-- `Tally`: post-conviction ayes and nays, and the capital that voted. -/
structure Tally where
  ayes : ℕ
  nays : ℕ
  turnout : ℕ
  deriving DecidableEq, Repr

instance : Inhabited Tally := ⟨⟨0, 0, 0⟩⟩

namespace Tally

/-- `Tally::add`, `None` on overflow. -/
def add (t : Tally) : AccountVote → Option Tally
  | .standard vote balance => do
    let d := vote.conviction.votes balance
    let turnout ← checkedAdd balanceBits t.turnout d.capital
    if vote.aye then
      let ayes ← checkedAdd balanceBits t.ayes d.votes
      pure { t with turnout, ayes }
    else
      let nays ← checkedAdd balanceBits t.nays d.votes
      pure { t with turnout, nays }
  | .split aye nay => do
    let aye := Conviction.none.votes aye
    let nay := Conviction.none.votes nay
    let turnout ← checkedAdd balanceBits t.turnout aye.capital
    let turnout ← checkedAdd balanceBits turnout nay.capital
    let ayes ← checkedAdd balanceBits t.ayes aye.votes
    let nays ← checkedAdd balanceBits t.nays nay.votes
    pure ⟨ayes, nays, turnout⟩

/-- `Tally::remove`, `None` on underflow. -/
def remove (t : Tally) : AccountVote → Option Tally
  | .standard vote balance => do
    let d := vote.conviction.votes balance
    let turnout ← checkedSub t.turnout d.capital
    if vote.aye then
      let ayes ← checkedSub t.ayes d.votes
      pure { t with turnout, ayes }
    else
      let nays ← checkedSub t.nays d.votes
      pure { t with turnout, nays }
  | .split aye nay => do
    let aye := Conviction.none.votes aye
    let nay := Conviction.none.votes nay
    let turnout ← checkedSub t.turnout aye.capital
    let turnout ← checkedSub turnout nay.capital
    let ayes ← checkedSub t.ayes aye.votes
    let nays ← checkedSub t.nays nay.votes
    pure ⟨ayes, nays, turnout⟩

/-- `Tally::increase`, saturating. -/
def increase (t : Tally) (approve : Bool) (d : Delegations) : Tally :=
  let turnout := saturatingAdd balanceBits t.turnout d.capital
  if approve then { t with turnout, ayes := saturatingAdd balanceBits t.ayes d.votes }
  else { t with turnout, nays := saturatingAdd balanceBits t.nays d.votes }

/-- `Tally::reduce`, saturating. -/
def reduce (t : Tally) (approve : Bool) (d : Delegations) : Tally :=
  let turnout := saturatingSub t.turnout d.capital
  if approve then { t with turnout, ayes := saturatingSub t.ayes d.votes }
  else { t with turnout, nays := saturatingSub t.nays d.votes }

end Tally

/-- `VoteThreshold`. -/
inductive VoteThreshold where
  | superMajorityApprove | superMajorityAgainst | simpleMajority
  deriving DecidableEq, Repr

/-- The loop of `compare_rationals`, whether `n1 / d1 < n2 / d2` by the
continued fractions of both sides. `None` is a division by zero, which
panics. Each round replaces the denominators by remainders below them, so
`d1 + d2` rounds are enough; `compareRationals` gives that many. -/
def compareRationalsLoop : ℕ → ℕ → ℕ → ℕ → ℕ → Option Bool
  | 0, _, _, _, _ => none
  | fuel + 1, n1, d1, n2, d2 =>
    if d1 = 0 ∨ d2 = 0 then none
    else if n1 / d1 < n2 / d2 then some true
    else if n2 / d2 < n1 / d1 then some false
    else if n2 % d2 = 0 then some false
    else if n1 % d1 = 0 then some true
    else compareRationalsLoop fuel d2 (n2 % d2) d1 (n1 % d1)

/-- `compare_rationals`. -/
def compareRationals (n1 d1 n2 d2 : ℕ) : Option Bool :=
  compareRationalsLoop (d1 + d2) n1 d1 n2 d2

/-- `Approved::approved` of a threshold, given the tally and the
electorate; `integer_sqrt` is the floor square root. -/
def VoteThreshold.approved (threshold : VoteThreshold) (tally : Tally) (electorate : ℕ) :
    Option Bool :=
  let sqrtVoters := Nat.sqrt tally.turnout
  let sqrtElectorate := Nat.sqrt electorate
  if sqrtVoters = 0 then some false
  else match threshold with
    | .superMajorityApprove => compareRationals tally.nays sqrtVoters tally.ayes sqrtElectorate
    | .superMajorityAgainst => compareRationals tally.nays sqrtElectorate tally.ayes sqrtVoters
    | .simpleMajority => some (tally.nays < tally.ayes)

/-- `ReferendumStatus`: the block voting ends at, the threshold and the
tally. -/
structure ReferendumStatus where
  endBlock : ℕ
  threshold : VoteThreshold
  tally : Tally
  deriving DecidableEq, Repr

/-- `ReferendumInfo`. -/
inductive ReferendumInfo where
  | ongoing (status : ReferendumStatus)
  | finished (approved : Bool) (endBlock : ℕ)
  deriving DecidableEq, Repr

/-- `UnvoteScope`: the voter may do anything, or another account may only
remove what no longer binds the voter. -/
inductive UnvoteScope where
  | any | onlyExpired
  deriving DecidableEq, Repr

end SocialNetwork.Democracy
