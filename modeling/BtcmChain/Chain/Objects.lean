import BtcmChain.Protocol.Operations
import BtcmChain.Lib.ObjectIndex

set_option autoImplicit false

/-!
# The objects of the chain state

The objects the evaluators and the block processing read and write, with the
source's fields and defaults. A field of type `asset` whose asset never changes
(`balance` is always BTCM, `mbd_balance` always XUSD, `vesting_shares` always
VESTS, …) is stored as its amount. Fields that nothing in this development reads
(bandwidth, curation, hardfork votes, block ids) are left out.

The larger objects are assembled from *parts* (`extends`), one for each concern:
an account is its funds, its stake, its listening statistics and its profile. A
program that writes one part can then not touch another, which is what makes most
frame conditions of this development a matter of typing.
-/

namespace BtcmChain

/-- Instance numbers of account objects, which other objects refer to. -/
abbrev AccountId := Nat
/-- Instance numbers of streaming platform objects, which reports and users refer to. -/
abbrev StreamingPlatformId := Nat

/-- `account_object::redelegation`: which part of what a platform user was given is passed on, and
how much that is. -/
structure Redelegation where
  redelegatePct : UInt16 := 0
  redelegated : ShareType := 0
  deriving DecidableEq, Repr

/-- The liquid holdings of an account, with the XUSD interest bookkeeping. -/
structure AccountFunds where
  /-- The liquid BTCM of the account. -/
  balance : ShareType := 0
  /-- The liquid XUSD of the account, on which interest accrues. -/
  mbdBalance : ShareType := 0
  mbdSeconds : UInt128 := 0
  mbdSecondsLastUpdate : TimePointSec := 0
  mbdLastInterestPayment : TimePointSec := 0
  deriving DecidableEq, Inhabited

/-- The vesting position of an account; all amounts are VESTS. -/
structure AccountStake where
  vestingShares : ShareType := 0
  delegatedVestingShares : ShareType := 0
  receivedVestingShares : ShareType := 0
  vestingWithdrawRate : ShareType := 0
  nextVestingWithdrawal : TimePointSec := 0xffffffff
  withdrawn : ShareType := 0
  toWithdraw : ShareType := 0
  deriving DecidableEq, Inhabited

/-- The listening statistics of an account over its pending reports. -/
structure AccountListening where
  totalListeningTime : UInt32 := 0
  totalTimeByPlatform : FlatMap StreamingPlatformId UInt32 := FlatMap.empty
  deriving Inhabited

/-- The profile of an account: its authorities, votes, friends and recovery data, and whatever else
is neither a balance nor a stake. -/
structure AccountProfile where
  owner : Authority := {}
  active : Authority := {}
  basic : Authority := {}
  memoKey : PublicKey := 0
  jsonMetadata : String := ""
  proxy : String := ""
  lastOwnerUpdate : TimePointSec := 0
  created : TimePointSec := 0
  ownerChallenged : Bool := false
  activeChallenged : Bool := false
  lastOwnerProved : TimePointSec := 0
  lastActiveProved : TimePointSec := 0
  recoveryAccount : String := ""
  lastAccountRecovery : TimePointSec := 0
  lifetimeVoteCount : UInt32 := 0
  score : UInt64 := 0
  votingPower : UInt16 := 10000
  lastVoteTime : TimePointSec := 0
  redelegations : FlatMap AccountId Redelegation := FlatMap.empty
  redelegatedVestingShares : ShareType := 0
  rereceivedVestingShares : ShareType := 0
  withdrawRoutes : UInt16 := 0
  proxiedVsfVotes : List ShareType := [0, 0, 0, 0]
  witnessesVotedFor : UInt16 := 0
  streamingPlatformsVotedFor : UInt16 := 0
  friends : List AccountId := []
  secondLevel : List AccountId := []
  waiting : List AccountId := []
  deriving Inhabited

/-- `account_object`, taken apart by what its fields are about. -/
structure AccountObject extends AccountFunds, AccountStake, AccountListening, AccountProfile where
  name : String
  deriving Inhabited

/-- `account_balance_object`: how much of a user-issued asset one account holds. -/
structure AccountBalanceObject where
  owner : AccountId
  assetType : AssetId
  balance : ShareType := 0
  deriving DecidableEq, Repr

/-- `asset_object`: an asset with its supply, symbol, precision, issuer and options. -/
structure AssetObject where
  currentSupply : ShareType := 0
  symbolString : String
  precision : UInt8 := 6
  issuer : AccountId := 0
  options : AssetOptions := {}
  deriving DecidableEq, Repr

/-- `balance_object`: a genesis claim. Genesis only ever creates claims in BTCM. -/
structure BalanceObject where
  owner : Address
  balance : ShareType
  lastClaimDate : TimePointSec := 0
  deriving DecidableEq, Repr

/-- `limit_order_object`: an order in the book, with what it sells and at which price. -/
structure LimitOrderObject where
  created : TimePointSec := 0
  expiration : TimePointSec
  seller : String
  orderid : UInt32
  forSale : ShareType
  sellPrice : Price
  deriving DecidableEq, Repr

/-- `convert_request_object`: an amount that is converted when the date has come. -/
structure ConvertRequestObject where
  owner : String
  requestid : UInt32 := 0
  amount : Asset
  conversionDate : TimePointSec
  deriving DecidableEq, Repr

/-- `withdraw_vesting_route_object`: which percentage of a withdrawal goes to another account. -/
structure WithdrawVestingRouteObject where
  fromAccount : AccountId
  toAccount : AccountId
  percent : UInt16
  autoVest : Bool
  deriving DecidableEq, Repr

/-- `vesting_delegation_object`: the vesting shares that one account has delegated to another. -/
structure VestingDelegationObject where
  delegator : String
  delegatee : String
  vestingShares : ShareType
  minDelegationTime : TimePointSec
  deriving DecidableEq, Repr

/-- `vesting_delegation_expiration_object`: delegated shares that return to the delegator when the
time has come. -/
structure VestingDelegationExpirationObject where
  delegator : String
  vestingShares : ShareType
  expiration : TimePointSec
  deriving DecidableEq, Repr

/-- `owner_authority_history_object`: an owner authority that an account had, and until when. -/
structure OwnerAuthorityHistoryObject where
  account : String
  previousOwnerAuthority : Authority
  lastValidTime : TimePointSec

/-- `account_recovery_request_object`: the authority that an account is to get back, asked for by
its recovery account. -/
structure AccountRecoveryRequestObject where
  accountToRecover : String
  newOwnerAuthority : Authority
  expires : TimePointSec

/-- `change_recovery_account_request_object`: the recovery account that an account is going to have,
and from when on. -/
structure ChangeRecoveryAccountRequestObject where
  accountToRecover : String
  recoveryAccount : String
  effectiveOn : TimePointSec

/-! ## Content and streaming -/

/-- The royalties of a content that found no payee yet; BTCM. -/
structure ContentPool where
  accumulatedBalanceMaster : ShareType := 0
  accumulatedBalanceComp : ShareType := 0
  deriving DecidableEq, Inhabited

/-- How the rewards of a content are split between its sides and among their payees. -/
structure ContentSplit where
  distributionsMaster : List Distribution := []
  distributionsComp : List Distribution := []
  playingReward : UInt32 := 1000
  publishersShare : UInt32 := 5000
  deriving DecidableEq, Inhabited

/-- `content_object`: a content with its pools, its split, its metadata and its managers. -/
structure ContentObject extends ContentPool, ContentSplit where
  uploader : String
  url : String
  albumMeta : ContentMetadataAlbumMaster
  trackMeta : ContentMetadataTrackMaster
  compMeta : ContentMetadataPublisher
  trackTitle : String
  lastUpdate : TimePointSec := 0
  created : TimePointSec := 0
  lastPlayed : TimePointSec := 0
  manageMaster : Authority := {}
  manageComp : Authority := {}
  timesPlayed : UInt64 := 0
  timesPlayed24 : UInt32 := 0
  curationRewards : Bool := true
  allowVotes : Bool := true
  disabled : Bool := false

/-- `content_approve_object`: an account has approved a content. -/
structure ContentApproveObject where
  content : String
  approver : AccountId
  deriving DecidableEq, Repr

/-- `content_vote_object`: the vote of an account for a content, with its weight. -/
structure ContentVoteObject where
  voter : AccountId
  content : Nat
  weight : Int16
  numChanges : Int8 := 0
  markedForCurationReward : Bool := false
  lastUpdate : TimePointSec := 0
  deriving DecidableEq

/-- The listening statistics of a platform over its pending reports. -/
structure PlatformListening where
  activeUsers : UInt32 := 0
  fullTimeUsers : UInt32 := 0
  totalListeningTime : UInt32 := 0
  fullUsersTime : UInt32 := 0
  totalAnonListeningTime : UInt64 := 0
  deriving DecidableEq, Repr, Inhabited

/-- `streaming_platform_object`: a platform with its owner, its votes and its listening statistics.
-/
structure StreamingPlatformObject extends PlatformListening where
  owner : String
  created : TimePointSec := 0
  url : String
  votes : ShareType := 0
  deriving DecidableEq, Repr, Inhabited

/-- `stream_report_request_object`: one platform lets another one report for it, for a part of the
reward. -/
structure StreamReportRequestObject where
  requestor : String
  reporter : String
  rewardPct : UInt16
  deriving DecidableEq, Repr

/-- `streaming_platform_vote_object`: the vote of an account for a platform. -/
structure StreamingPlatformVoteObject where
  streamingPlatform : StreamingPlatformId
  account : AccountId
  deriving DecidableEq, Repr

/-- `report_object`: who has listened to which content, for how long, and what was reported when. -/
structure ReportObject where
  streamingPlatform : StreamingPlatformId
  consumer : Option AccountId := none
  spUserId : Option UInt64 := none
  content : Nat
  created : TimePointSec
  playTime : UInt32
  playlistCreator : Option AccountId := none
  spinningPlatform : Option StreamingPlatformId := none
  rewardPct : Option UInt16 := none
  deriving DecidableEq, Repr

/-- `streaming_platform_user_object`: a user of a platform who has no account, and how long that
user has listened. -/
structure StreamingPlatformUserObject where
  streamingPlatform : StreamingPlatformId
  spUserId : UInt64
  totalListeningTime : UInt32 := 0
  deriving DecidableEq, Repr

/-! ## Witnesses, proposals, globals -/

/-- `witness_object`: a witness with its votes, its key, its proposals and its place in the
schedule. -/
structure WitnessObject where
  owner : String
  created : TimePointSec := 0
  url : String := ""
  totalMissed : UInt32 := 0
  lastAslot : UInt64 := 0
  lastConfirmedBlockNum : UInt64 := 0
  signingKey : PublicKey := 0
  props : ChainProperties := {}
  mbdExchangeRate : Price := {}
  lastMbdExchangeUpdate : TimePointSec := 0
  votes : ShareType := 0
  virtualLastUpdate : UInt128 := 0
  virtualPosition : UInt128 := 0
  virtualScheduledTime : UInt128 := BitVec.allOnes 128

/-- `witness_vote_object`: the vote of an account for a witness. -/
structure WitnessVoteObject where
  witness : Nat
  account : AccountId
  deriving DecidableEq, Repr

/-- `witness_schedule_object`: the witnesses of the current round, and the virtual time of the
schedule. -/
structure WitnessScheduleObject where
  currentVirtualTime : UInt128 := 0
  nextShuffleBlockNum : UInt32 := 1
  currentShuffledWitnesses : List String := []
  medianProps : ChainProperties := {}

/-- `proposal_object`: operations that wait for approvals; the sets of approvals are lists without
order. -/
structure ProposalObject where
  expirationTime : TimePointSec
  reviewPeriodTime : Option TimePointSec := none
  proposedOps : List Operation
  requiredActiveApprovals : List String := []
  availableActiveApprovals : List String := []
  requiredOwnerApprovals : List String := []
  availableOwnerApprovals : List String := []
  requiredBasicApprovals : List String := []
  availableBasicApprovals : List String := []
  requiredMasterContentApprovals : List String := []
  requiredCompContentApprovals : List String := []
  availableKeyApprovals : List PublicKey := []
  canVeto : List String := []

/-- `feed_history_object`: the medians of the price feeds, the effective and the actual one, and
those before. -/
structure FeedHistoryObject where
  actualMedianHistory : Price := {}
  effectiveMedianHistory : Price := {}
  priceHistory : List Price := []

/-- The books of the chain: the total supplies and the vesting fund. -/
structure GlobalSupply where
  /-- BTCM: the supply, with XUSD counted at the median price. -/
  virtualSupply : ShareType := 0
  /-- BTCM: all that there is. -/
  currentSupply : ShareType := 0
  /-- XUSD: all that there is. -/
  currentMbdSupply : ShareType := 0
  /-- BTCM: the fund behind all vesting shares. -/
  totalVestingFundBtcm : ShareType := 0
  /-- BTCM: the fund that rewards are paid from. -/
  totalRewardFundBtcm : ShareType := 0
  /-- VESTS: all vesting shares that there are. -/
  totalVestingShares : ShareType := 0
  /-- BTCM: what `adjust_funds` adds to, each time a difference of a number with itself.
  -/
  supplyDelta : ShareType := 0
  deriving DecidableEq, Inhabited

/-- The global listening statistics, over all platforms. -/
structure GlobalListening where
  activeUsers : UInt32 := 0
  fullTimeUsers : UInt32 := 0
  totalListeningTime : UInt32 := 0
  fullUsersTime : UInt32 := 0
  deriving DecidableEq, Inhabited

/-- What the witnesses decide about the chain, and the bookkeeping of its slots. -/
structure GlobalParams where
  currentWitness : String := ""
  maximumProposalLifetime : UInt32 := 86400
  mbdInterestRate : UInt16 := 0
  maximumBlockSize : UInt32 := 0
  currentAslot : UInt64 := 0
  delegationReturnPeriod : UInt32 := 604800
  lastIrreversibleBlockNum : UInt32 := 0
  deriving Inhabited

/-- `dynamic_global_property_object`, taken apart by what its fields are about. -/
structure DynamicGlobalPropertyObject extends GlobalSupply, GlobalListening, GlobalParams where
  headBlockNumber : UInt32 := 0
  time : TimePointSec := 0
  /-- VESTS: what accounts of platforms have vested. -/
  totalVestedByPlatforms : ShareType := 0

/-- The tables behind voting, recovery and scheduling. No balance, stake or
listening statistic lives here. -/
structure Registry where
  withdrawRoutes : ObjectIndex WithdrawVestingRouteObject := .empty
  ownerHistory : ObjectIndex OwnerAuthorityHistoryObject := .empty
  recoveryRequests : ObjectIndex AccountRecoveryRequestObject := .empty
  changeRecoveryRequests : ObjectIndex ChangeRecoveryAccountRequestObject := .empty
  contentApprovals : ObjectIndex ContentApproveObject := .empty
  contentVotes : ObjectIndex ContentVoteObject := .empty
  platformVotes : ObjectIndex StreamingPlatformVoteObject := .empty
  witnesses : ObjectIndex WitnessObject := .empty
  witnessVotes : ObjectIndex WitnessVoteObject := .empty
  witnessSchedule : WitnessScheduleObject := {}
  feedHistory : FeedHistoryObject := {}

/-- The state: one table per object type and the singleton objects. -/
structure Database extends Registry where
  accounts : ObjectIndex AccountObject := .empty
  accountBalances : ObjectIndex AccountBalanceObject := .empty
  assets : ObjectIndex AssetObject := .empty
  balances : ObjectIndex BalanceObject := .empty
  limitOrders : ObjectIndex LimitOrderObject := .empty
  convertRequests : ObjectIndex ConvertRequestObject := .empty
  delegations : ObjectIndex VestingDelegationObject := .empty
  delegationExpirations : ObjectIndex VestingDelegationExpirationObject := .empty
  contents : ObjectIndex ContentObject := .empty
  platforms : ObjectIndex StreamingPlatformObject := .empty
  reports : ObjectIndex ReportObject := .empty
  platformUsers : ObjectIndex StreamingPlatformUserObject := .empty
  reportRequests : ObjectIndex StreamReportRequestObject := .empty
  proposals : ObjectIndex ProposalObject := .empty
  dgpo : DynamicGlobalPropertyObject := {}

end BtcmChain
