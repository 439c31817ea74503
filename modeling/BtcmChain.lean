import BtcmChain.Chain.AmountText
import BtcmChain.Chain.Beside
import BtcmChain.Chain.Block
import BtcmChain.Chain.BlockDatabase
import BtcmChain.Chain.BlockLog
import BtcmChain.Chain.Cashout
import BtcmChain.Chain.Chronicle
import BtcmChain.Chain.Database
import BtcmChain.Chain.ForkDatabase
import BtcmChain.Chain.Genesis
import BtcmChain.Chain.Ledger
import BtcmChain.Chain.Market
import BtcmChain.Chain.Metering
import BtcmChain.Chain.NetworkLoad
import BtcmChain.Chain.Objects
import BtcmChain.Chain.ProposalSessions
import BtcmChain.Chain.PushBlock
import BtcmChain.Chain.Reindex
import BtcmChain.Chain.Rewards
import BtcmChain.Chain.Run
import BtcmChain.Chain.Schedule
import BtcmChain.Chain.SecondaryIndexes
import BtcmChain.Chain.Sidelong
import BtcmChain.Chain.SignState
import BtcmChain.Chain.Transactions
import BtcmChain.Chain.Vesting
import BtcmChain.Chain.Views
import BtcmChain.Chain.Votes
import BtcmChain.Db.PrimaryIndex
import BtcmChain.Db.SnapshotLog
import BtcmChain.Db.Store
import BtcmChain.Db.UndoDatabase
import BtcmChain.Evaluator.Apply
import BtcmChain.Evaluator.Asset
import BtcmChain.Evaluator.Base
import BtcmChain.Evaluator.Btcm
import BtcmChain.Evaluator.Proposal
import BtcmChain.Fc.Numeral
import BtcmChain.Fc.Raw
import BtcmChain.Fc.Safe
import BtcmChain.Fc.Text
import BtcmChain.Lib.Acquaintance
import BtcmChain.Lib.Archive
import BtcmChain.Lib.Attempt
import BtcmChain.Lib.Ballot
import BtcmChain.Lib.BitCount
import BtcmChain.Lib.Candle
import BtcmChain.Lib.Comparison
import BtcmChain.Lib.Decimal
import BtcmChain.Lib.DigitRoot
import BtcmChain.Lib.Docket
import BtcmChain.Lib.Effect
import BtcmChain.Lib.FlatMap
import BtcmChain.Lib.FlatSet
import BtcmChain.Lib.Forest
import BtcmChain.Lib.Halving
import BtcmChain.Lib.LastWins
import BtcmChain.Lib.LittleEndian
import BtcmChain.Lib.Median
import BtcmChain.Lib.ObjectIndex
import BtcmChain.Lib.PairingTree
import BtcmChain.Lib.PrefixCodec
import BtcmChain.Lib.RandomAccess
import BtcmChain.Lib.Rate
import BtcmChain.Lib.Respects
import BtcmChain.Lib.SharePool
import BtcmChain.Lib.Simulation
import BtcmChain.Lib.Tenure
import BtcmChain.Lib.Threshold
import BtcmChain.Lib.Verdict
import BtcmChain.Net.Dialogue
import BtcmChain.Net.Inventory
import BtcmChain.Net.Synopsis
import BtcmChain.Plugin.AccountHistory
import BtcmChain.Plugin.CustomTags
import BtcmChain.Plugin.MarketHistory
import BtcmChain.Protocol.AccountName
import BtcmChain.Protocol.Asset
import BtcmChain.Protocol.AssetSymbol
import BtcmChain.Protocol.AssetText
import BtcmChain.Protocol.Authority
import BtcmChain.Protocol.Extension
import BtcmChain.Protocol.MerkleRoot
import BtcmChain.Protocol.Operations
import BtcmChain.Protocol.Validate
import BtcmChain.Sound.AccountHistory
import BtcmChain.Sound.AccountName
import BtcmChain.Sound.Adoption
import BtcmChain.Sound.AmountText
import BtcmChain.Sound.Approvals
import BtcmChain.Sound.AssetSymbol
import BtcmChain.Sound.AssetText
import BtcmChain.Sound.Authority
import BtcmChain.Sound.Backing
import BtcmChain.Sound.BlockDatabase
import BtcmChain.Sound.BlockLog
import BtcmChain.Sound.Books
import BtcmChain.Sound.Capacity
import BtcmChain.Sound.CatchUp
import BtcmChain.Sound.ChainIndexes
import BtcmChain.Sound.Chains
import BtcmChain.Sound.Checkpoints
import BtcmChain.Sound.CommonChain
import BtcmChain.Sound.Conservation
import BtcmChain.Sound.ContentSides
import BtcmChain.Sound.ContentSplits
import BtcmChain.Sound.CustomTags
import BtcmChain.Sound.Delegation
import BtcmChain.Sound.Dialogue
import BtcmChain.Sound.Duplicates
import BtcmChain.Sound.Elections
import BtcmChain.Sound.Extension
import BtcmChain.Sound.FeedMedian
import BtcmChain.Sound.Fills
import BtcmChain.Sound.ForkDatabase
import BtcmChain.Sound.ForkHead
import BtcmChain.Sound.ForkSwitch
import BtcmChain.Sound.Friendship
import BtcmChain.Sound.Influence
import BtcmChain.Sound.IntegerRoot
import BtcmChain.Sound.Interest
import BtcmChain.Sound.Inventory
import BtcmChain.Sound.Irreversible
import BtcmChain.Sound.Laps
import BtcmChain.Sound.Management
import BtcmChain.Sound.MarketHistory
import BtcmChain.Sound.Matching
import BtcmChain.Sound.MedianProps
import BtcmChain.Sound.Merge
import BtcmChain.Sound.MerkleRoot
import BtcmChain.Sound.Metering
import BtcmChain.Sound.Minimize
import BtcmChain.Sound.OrderBook
import BtcmChain.Sound.Participation
import BtcmChain.Sound.Payouts
import BtcmChain.Sound.PriceFeeds
import BtcmChain.Sound.PriceOrder
import BtcmChain.Sound.Prices
import BtcmChain.Sound.ProposalExecution
import BtcmChain.Sound.PushBlock
import BtcmChain.Sound.Recovery
import BtcmChain.Sound.Reindex
import BtcmChain.Sound.RewardSplit
import BtcmChain.Sound.Seats
import BtcmChain.Sound.Secondary
import BtcmChain.Sound.Sessions
import BtcmChain.Sound.ShareValue
import BtcmChain.Sound.SignedTransactions
import BtcmChain.Sound.SigningHelper
import BtcmChain.Sound.Slots
import BtcmChain.Sound.SnapshotLog
import BtcmChain.Sound.StaleFeeds
import BtcmChain.Sound.Standing
import BtcmChain.Sound.Suffrage
import BtcmChain.Sound.Synopsis
import BtcmChain.Sound.Tally
import BtcmChain.Sound.Tapos
import BtcmChain.Sound.Undo
import BtcmChain.Sound.Unwind
import BtcmChain.Sound.Walks
import BtcmChain.Sound.WithdrawRoutes
import BtcmChain.Sound.WitnessSchedule
