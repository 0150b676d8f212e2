import SocialNetwork.Lib.Unsigned
import SocialNetwork.Lib.Dispatch
import SocialNetwork.Lib.StorageMap
import SocialNetwork.Lib.BinarySearch
import SocialNetwork.Frame.Support
import SocialNetwork.Frame.Assets.Pallet
import SocialNetwork.Frame.Assets.Spec
import SocialNetwork.Frame.Assets.Ledger
import SocialNetwork.Frame.Assets.Ids
import SocialNetwork.Frame.SocialSwap.Pallet
import SocialNetwork.Frame.SocialSwap.Reserves
import SocialNetwork.Frame.SocialSwap.Pricing
import SocialNetwork.Frame.SocialSwap2.Pallet
import SocialNetwork.Frame.SocialSwap2.Pair
import SocialNetwork.Frame.SocialNft.Pallet
import SocialNetwork.Frame.SocialNft.Bridge
import SocialNetwork.Frame.SocialNft.Registry
import SocialNetwork.Frame.SocialNft.Ownership
import SocialNetwork.Frame.SocialUsernames.Pallet
import SocialNetwork.Frame.SocialUsernames.Names
import SocialNetwork.Frame.SocialGuardians.Pallet
import SocialNetwork.Frame.SocialGuardians.Roster
import SocialNetwork.Primitives.Arithmetic.PerThing
import SocialNetwork.Primitives.Allocator.FreeingBump
import SocialNetwork.Lib.Window
import SocialNetwork.Lib.Tiling
import SocialNetwork.Primitives.Allocator.Headers
import SocialNetwork.Primitives.Allocator.Calls
import SocialNetwork.Primitives.Allocator.Blocks
import SocialNetwork.Primitives.Allocator.Runs
import SocialNetwork.Frame.Staking.Pallet
import SocialNetwork.Frame.SocialTreasury.Pallet
import SocialNetwork.Frame.SocialTreasury.Payout
import SocialNetwork.Frame.Chainbridge.Pallet
import SocialNetwork.Frame.Chainbridge.Proposals
import SocialNetwork.Frame.Chainbridge.Counters
import SocialNetwork.Frame.Did.Pallet
import SocialNetwork.Frame.Did.Attributes
import SocialNetwork.Frame.Did.Authority
import SocialNetwork.Frame.Scheduler.Pallet
import SocialNetwork.Frame.Scheduler.Lookup
import SocialNetwork.Frame.Democracy.Types
import SocialNetwork.Frame.Democracy.Pallet
import SocialNetwork.Frame.Democracy.Locks
import SocialNetwork.Frame.Democracy.Tally
import SocialNetwork.Frame.Balances.Pallet
import SocialNetwork.Frame.Balances.Issuance
import SocialNetwork.Lib.MaxLedger
import SocialNetwork.Frame.Staking.Slashing
import SocialNetwork.Frame.Staking.Spans
import SocialNetwork.Frame.Staking.SpanRuns
import SocialNetwork.Frame.Staking.SpanSlash
import SocialNetwork.Frame.Staking.SlashSteps
import SocialNetwork.Frame.Staking.ComputeSlash
import SocialNetwork.Primitives.Runtime.Curve
import SocialNetwork.Frame.Staking.Inflation
import SocialNetwork.Frame.Did.Validity
import SocialNetwork.Frame.SocialNft.Trade
import SocialNetwork.Frame.SocialNft.SocialTokens
import SocialNetwork.Lib.Ancestry
import SocialNetwork.Lib.LinearSearch
import SocialNetwork.Utils.ForkTree.Tree
import SocialNetwork.Utils.ForkTree.Spec
import SocialNetwork.Utils.ForkTree.Wf
import SocialNetwork.Utils.ForkTree.Errors
import SocialNetwork.Utils.ForkTree.Agreement
import SocialNetwork.Utils.ForkTree.Search
import SocialNetwork.Utils.ForkTree.Links
import SocialNetwork.Utils.ForkTree.Import
import SocialNetwork.Utils.ForkTree.Finalize
import SocialNetwork.Utils.ForkTree.Prune
import SocialNetwork.Utils.ForkTree.Branch
import SocialNetwork.Client.FinalityGrandpa.Authorities
import SocialNetwork.Client.FinalityGrandpa.StandardChanges
import SocialNetwork.Client.FinalityGrandpa.Runs
import SocialNetwork.Client.FinalityGrandpa.BranchWalk
import SocialNetwork.Client.StateDb.Db
import SocialNetwork.Client.StateDb.Overlay
import SocialNetwork.Client.StateDb.Pruning
import SocialNetwork.Client.StateDb.Sync
import SocialNetwork.Client.StateDb.Runs
import SocialNetwork.Client.StateDb.Journal
import SocialNetwork.Client.StateDb.DeathRows
import SocialNetwork.Client.StateDb.Pinning
import SocialNetwork.Client.StateDb.Counts
import SocialNetwork.Client.TransactionPool.Future
import SocialNetwork.Client.TransactionPool.Ready
import SocialNetwork.Client.TransactionPool.BasePool
import SocialNetwork.Client.TransactionPool.Promotion
import SocialNetwork.Client.TransactionPool.Unlocks
import SocialNetwork.Lib.Positional
import SocialNetwork.Primitives.Arithmetic.BigUint
import SocialNetwork.Primitives.Arithmetic.BigUint.Value
import SocialNetwork.Primitives.Arithmetic.BigUint.Arith
import SocialNetwork.Lib.LongDivision
import SocialNetwork.Primitives.Arithmetic.BigUint.Div
import SocialNetwork.Primitives.Arithmetic.BigUint.Compare
import SocialNetwork.Primitives.Arithmetic.Helpers128Bit
import SocialNetwork.Primitives.Arithmetic.ThresholdOrd
import SocialNetwork.Primitives.NposElections.Score
import SocialNetwork.Primitives.Arithmetic.Rational
import SocialNetwork.Lib.PrimInt
import SocialNetwork.Primitives.Arithmetic.FixedPoint.I129
import SocialNetwork.Primitives.Arithmetic.FixedPoint.Basic
import SocialNetwork.Primitives.Arithmetic.FixedPoint.Rounding
import SocialNetwork.Lib.IndexedList
import SocialNetwork.Primitives.Arithmetic.Normalize
import SocialNetwork.Client.TransactionPool.Asserts
import SocialNetwork.Client.TransactionPool.Pruning
import SocialNetwork.Frame.Balances.Locks
import SocialNetwork.Primitives.Runtime.Era
import SocialNetwork.Client.Api.Leaves
import SocialNetwork.Client.Consensus.Epochs
import SocialNetwork.Frame.Vesting.Pallet
import SocialNetwork.Client.Network.Sync.Blocks
import SocialNetwork.Primitives.Trie.NodeCodec
import SocialNetwork.Client.Peerset.PeersState
import SocialNetwork.Client.Peerset.Slots
import SocialNetwork.Lib.Total
import SocialNetwork.Lib.Collect
import SocialNetwork.Frame.Collective.Pallet
import SocialNetwork.Frame.Collective.Motions
import SocialNetwork.Lib.OrderedMap
import SocialNetwork.Lib.Layered
import SocialNetwork.Lib.Simulation
import SocialNetwork.Primitives.StateMachine.Changeset
import SocialNetwork.Primitives.StateMachine.Refinement
import SocialNetwork.Primitives.StateMachine.Transactions
import SocialNetwork.Primitives.StateMachine.Storage
import SocialNetwork.Primitives.StateMachine.Changes
