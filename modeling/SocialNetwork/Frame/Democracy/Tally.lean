import SocialNetwork.Frame.Democracy.Locks

/-!
# `pallet_democracy`: tallies and the votes behind them

What the votes of a state add up to, in ℕ: a direct voter's vote on a
referendum counts its post-conviction votes on its side, with the
delegations the voter has received when the vote is standard
(`Voting.share`), and the live tally of a referendum is the sum of that over
all accounts (`State.liveTally`). An account's received delegations should
likewise be the sum of what the accounts delegating to it delegate
(`Voting.delegatedTo`).

The pallet keeps the tallies and the delegations as running `u128` totals.
`Conviction::votes` and `Tally::add` stay within `u128` (the first
saturates, the second fails), but `Tally::increase` and the sum of
delegations saturate: a delegation whose votes are near `u128::MAX`, to an
account whose vote counts already, leaves the tally at `u128::MAX` while the
votes behind it are more (`delegation_saturates_tally`).
-/

namespace SocialNetwork.Democracy

open Dispatch Unsigned

variable {AccountId : Type} [DecidableEq AccountId]

/-- What a vote adds to its referendum's tally, with the delegations its
voter has received, without bound. -/
def AccountVote.share : AccountVote → Delegations → Tally
  | .standard vote balance, d =>
    let v := vote.conviction.votes balance
    if vote.aye then ⟨v.votes + d.votes, 0, v.capital + d.capital⟩
    else ⟨0, v.votes + d.votes, v.capital + d.capital⟩
  | .split aye nay, _ => ⟨aye / 10, nay / 10, aye + nay⟩

/-- What an account adds to the tally of referendum `r`: the share of its
vote on `r`, if it votes directly and has one. -/
def Voting.share (v : Voting AccountId) (r : ReferendumIndex) : Tally :=
  match v with
  | .direct votes delegations _ =>
    match votes.lookup r with
    | some vote => vote.share delegations
    | none => ⟨0, 0, 0⟩
  | .delegating .. => ⟨0, 0, 0⟩

def Voting.delegatedTo (t : AccountId) : Voting AccountId → Delegations
  | .delegating balance target conviction _ _ => if target = t then conviction.votes balance else ⟨0, 0⟩
  | .direct .. => ⟨0, 0⟩

def State.liveTally (s : State AccountId) (r : ReferendumIndex) : Tally :=
  ⟨StorageMap.total (fun v => (v.share r).ayes) s.votingOf,
    StorageMap.total (fun v => (v.share r).nays) s.votingOf,
    StorageMap.total (fun v => (v.share r).turnout) s.votingOf⟩

def State.liveDelegations (s : State AccountId) (t : AccountId) : Delegations :=
  ⟨StorageMap.total (fun v => (v.delegatedTo t).votes) s.votingOf,
    StorageMap.total (fun v => (v.delegatedTo t).capital) s.votingOf⟩

/-! ## A run -/

def richConfig : Config ℕ := { mockConfig with freeBalance := fun _ => 2 ^ 126 }

/-- Account 1 votes aye on referendum 0 with 1 at `Locked1x`; account 2
delegates its `2^126` to account 1 at `Locked6x`, whose votes saturate at
`u128::MAX`. -/
def saturationTrace : List (Command ℕ) :=
  [.startReferendum .simpleMajority,
    .vote (.signed 1) 0 (.standard ⟨true, .locked1x⟩ 1),
    .delegate (.signed 2) 1 .locked6x (2 ^ 126)]

-- account 1's aye of 1 at `Locked1x` counts once
example : (execute (Command.apply richConfig) (saturationTrace.take 2) State.init).map (·.liveTally 0) =
    some ⟨1, 0, 1⟩ := by
  decide +kernel

/-- The ayes of referendum 0 stop at `u128::MAX`, one short of the votes
behind them. -/
theorem delegation_saturates_tally :
    ∃ s, execute (Command.apply richConfig) saturationTrace State.init = some s ∧
      s.referendumInfoOf 0 =
        some (.ongoing ⟨5, .simpleMajority, ⟨maxValue balanceBits, 0, 2 ^ 126 + 1⟩⟩) ∧
      s.liveTally 0 = ⟨maxValue balanceBits + 1, 0, 2 ^ 126 + 1⟩ :=
  exists_of_execute_eq saturationTrace (by decide +kernel)

end SocialNetwork.Democracy
