import BtcmChain.Protocol.Asset
import BtcmChain.Protocol.Authority

set_option autoImplicit false

/-!
# The operations of the protocol

One structure per operation, with the source's fields and defaults, and the sum
type `Operation` of the variants the network accepts. Proposals nest: a
`proposal_create` carries a list of operations. The `extensions` sets of the
source are always empty sets of `void_t` and are left out, and so are the fields
of the virtual operations, which only ever appear as notifications: they share
the constructor `virtualOperation`.
-/

namespace BtcmChain

/-! ## Content -/

/-- `struct distribution`: a payee and its share in base points. -/
structure Distribution where
  payee : String
  bp : UInt32 := 0
  deriving DecidableEq, Repr

/-- `struct management_vote`: who may vote on changes of a content, and with what share. -/
structure ManagementVote where
  voter : String
  percentage : UInt32 := 0
  deriving DecidableEq, Repr

/-- `struct content_metadata_album_master`: what the master side says about the album. -/
structure ContentMetadataAlbumMaster where
  partOfAlbum : Bool := false
  albumTitle : String := ""
  albumArtist : List String := []
  genre1 : UInt32 := 0
  genre2 : Option UInt32 := none
  countryOfOrigin : String := ""
  explicit_ : UInt32 := 0
  pLine : String := ""
  cLine : String := ""
  upcOrEan : UInt64 := 0
  releaseDate : UInt32 := 0
  releaseYear : UInt32 := 0
  salesStartDate : UInt32 := 0
  albumProducer : Option String := none
  albumType : Option String := none
  masterLabelName : String := ""
  displayLabelName : String := ""
  deriving DecidableEq, Repr, Inhabited

/-- `content_metadata_track_master::track_artist`: an artist of the track, with aliases and number.
-/
structure TrackArtist where
  artist : String
  aliases : Option (List String) := none
  isni : Option UInt64 := none
  deriving DecidableEq, Repr

/-- `struct content_metadata_track_master`: what the master side says about the track. -/
structure ContentMetadataTrackMaster where
  trackTitle : String := ""
  isrc : String := ""
  trackArtists : List TrackArtist := []
  featuredArtist : Option String := none
  featuredArtistIsni : Option UInt64 := none
  trackProducer : Option String := none
  genre1 : UInt32 := 0
  genre2 : Option UInt32 := none
  pLine : String := ""
  trackNo : UInt32 := 0
  trackVolume : UInt32 := 0
  jsonMetadata : Option String := none
  trackDuration : UInt32 := 0
  samples : Bool := false
  deriving DecidableEq, Repr, Inhabited

/-- `content_metadata_publisher::publisher`: a publisher of the composition, with its numbers. -/
structure Publisher where
  publisher : String
  ipiCae : Option String := none
  isni : Option UInt64 := none
  deriving DecidableEq, Repr

/-- `content_metadata_publisher::writer`: a writer of the composition, with its role and publisher.
-/
structure Writer where
  writer : String
  ipiCae : Option String := none
  isni : Option UInt64 := none
  role : Option UInt32 := none
  publisher : String
  deriving DecidableEq, Repr

/-- `struct content_metadata_publisher`: what the publishing side says about the composition. -/
structure ContentMetadataPublisher where
  compositionTitle : String := ""
  alternateCompositionTitle : Option String := none
  iswc : Option String := none
  thirdPartyPublishers : Bool := false
  publishers : List Publisher := []
  writers : List Writer := []
  pro : String := ""
  deriving DecidableEq, Repr, Inhabited

/-- `content_operation`: a new content, with its metadata, how its rewards are split, and who
manages it. -/
structure ContentOperation where
  uploader : String
  url : String
  albumMeta : ContentMetadataAlbumMaster
  trackMeta : ContentMetadataTrackMaster
  compMeta : ContentMetadataPublisher
  distributions : List Distribution
  management : List ManagementVote
  managementThreshold : UInt32
  managementComp : Option (List ManagementVote) := none
  distributionsComp : Option (List Distribution) := none
  managementThresholdComp : Option UInt32 := none
  playingReward : UInt32 := 1000
  publishersShare : UInt32 := 5000

/-- `content_update_operation::side_t::master`: the update is made for the master side. -/
def SIDE_MASTER : UInt32 := 0
/-- `content_update_operation::side_t::publisher`: the update is made for the publishing side. -/
def SIDE_PUBLISHER : UInt32 := 1

/-- `content_update_operation`. The side is a plain 32-bit number on the wire. -/
structure ContentUpdateOperation where
  side : UInt32 := SIDE_MASTER
  url : String
  albumMeta : Option ContentMetadataAlbumMaster := none
  trackMeta : Option ContentMetadataTrackMaster := none
  compMeta : Option ContentMetadataPublisher := none
  newDistributions : List Distribution := []
  newManagement : List ManagementVote := []
  newThreshold : UInt32 := 0
  newPlayingReward : UInt32 := 0
  newPublishersShare : UInt32 := 0

/-! ## Accounts -/

/-- `account_create_operation`: a new account, paid for by its creator. -/
structure AccountCreateOperation where
  fee : Asset
  creator : String
  newAccountName : String
  owner : Authority
  active : Authority
  basic : Authority
  memoKey : PublicKey := 0
  jsonMetadata : String := ""

/-- `account_create_with_delegation_operation`: a new account, paid for with a fee and with
delegated vesting shares. -/
structure AccountCreateWithDelegationOperation where
  fee : Asset
  delegation : Asset
  creator : String
  newAccountName : String
  owner : Authority
  active : Authority
  basic : Authority
  memoKey : PublicKey := 0
  jsonMetadata : String := ""

/-- `account_update_operation`: an account gets new authorities, as far as they are given, and a new
memo key. -/
structure AccountUpdateOperation where
  account : String
  owner : Option Authority := none
  active : Option Authority := none
  basic : Option Authority := none
  memoKey : PublicKey := 0
  jsonMetadata : String := ""

/-! ## Market -/

/-- `limit_order_create_operation`: an offer of some amount for at least another one. -/
structure LimitOrderCreateOperation where
  owner : String
  orderid : UInt32 := 0
  amountToSell : Asset
  minToReceive : Asset
  fillOrKill : Bool := false
  expiration : TimePointSec := 0xffffffff

/-- `limit_order_create2_operation`: an offer of some amount at an exchange rate. -/
structure LimitOrderCreate2Operation where
  owner : String
  orderid : UInt32 := 0
  amountToSell : Asset
  fillOrKill : Bool := false
  exchangeRate : Price
  expiration : TimePointSec := 0xffffffff

/-- `asset_options`: the supply and the market fee of an asset, its permissions and flags, and its
description. -/
structure AssetOptions where
  maxSupply : ShareType := BTCM_MAX_SHARE_SUPPLY
  marketFeePercent : UInt16 := 0
  maxMarketFee : ShareType := BTCM_MAX_SHARE_SUPPLY
  issuerPermissions : UInt16 := 0x49
  flags : UInt16 := 0
  description : String := ""
  deriving DecidableEq, Repr, Inhabited

/-- `asset_create_operation`: a new asset with its symbol, precision and options. -/
structure AssetCreateOperation where
  fee : Asset
  issuer : String
  symbol : String
  precision : UInt8 := 6
  commonOptions : AssetOptions

/-- `asset_update_operation`: an asset gets new options and, where one is given, a new issuer. -/
structure AssetUpdateOperation where
  issuer : String
  assetToUpdate : AssetId
  newIssuer : Option String := none
  newOptions : AssetOptions

/-! ## Witnesses -/

/-- `chain_properties`: what a witness proposes for the fees, the block size and the interest rate
of the chain. -/
structure ChainProperties where
  accountCreationFee : Asset := btcm 1
  streamingPlatformUpdateFee : Asset := btcm 100000000000000
  maximumBlockSize : UInt32 := 131072
  mbdInterestRate : UInt16 := 1000
  deriving DecidableEq, Repr, Inhabited

/-- `witness_update_operation`: an account becomes a witness, or changes what it says as one. -/
structure WitnessUpdateOperation where
  owner : String
  url : String
  blockSigningKey : PublicKey
  props : ChainProperties
  fee : Asset

/-! ## Streaming platforms -/

/-- `streaming_platform_report_operation`, its extension fields inlined: what a platform reports as
played. -/
structure StreamingPlatformReportOperation where
  streamingPlatform : String
  consumer : String := ""
  content : String
  playlistCreator : String := ""
  playTime : UInt32 := 0
  dummy1 : UInt16 := 0
  dummy2 : UInt8 := 0
  spinningPlatform : Option String := none
  spUserId : Option UInt32 := none

/-! ## Proposals -/

/-- `proposal_update_operation`; the sets of approvals to add and to remove are listed in order. -/
structure ProposalUpdateOperation where
  proposal : Nat
  activeApprovalsToAdd : List String := []
  activeApprovalsToRemove : List String := []
  ownerApprovalsToAdd : List String := []
  ownerApprovalsToRemove : List String := []
  keyApprovalsToAdd : List PublicKey := []
  keyApprovalsToRemove : List PublicKey := []

/-- `proposal_delete_operation::authority_type` on the wire: owner 0, active 1, basic 2. -/
structure ProposalDeleteOperation where
  type : UInt8 := 1
  proposal : Nat
  vetoer : String

/-! ## The variant -/

/-- The static variant `operation`, with one constructor for each type that users send. -/
inductive Operation where
  | vote (voter url : String) (weight : Int16)
  | content (op : ContentOperation)
  | contentUpdate (op : ContentUpdateOperation)
  | contentApprove (approver url : String)
  | contentDisable (url : String)
  | transfer (from_ to_ : String) (amount : Asset) (memo : String)
  | transferToVesting (from_ to_ : String) (amount : Asset)
  | withdrawVesting (account : String) (vestingShares : Asset)
  | limitOrderCreate (op : LimitOrderCreateOperation)
  | limitOrderCreate2 (op : LimitOrderCreate2Operation)
  | limitOrderCancel (owner : String) (orderid : UInt32)
  | feedPublish (publisher : String) (exchangeRate : Price)
  | convert (owner : String) (requestid : UInt32) (amount : Asset)
  | accountCreate (op : AccountCreateOperation)
  | accountUpdate (op : AccountUpdateOperation)
  | witnessUpdate (op : WitnessUpdateOperation)
  | accountWitnessVote (account witness : String) (approve : Bool)
  | accountWitnessProxy (account proxy : String)
  | streamingPlatformUpdate (owner url : String) (fee : Asset)
  | accountStreamingPlatformVote (account streamingPlatform : String) (approve : Bool)
  | streamingPlatformReport (op : StreamingPlatformReportOperation)
  | assetCreate (op : AssetCreateOperation)
  | assetUpdate (op : AssetUpdateOperation)
  | assetIssue (issuer : String) (assetToIssue : Asset) (issueToAccount : String)
  | assetReserve (issuer payer : String) (amountToReserve : Asset)
  | custom (requiredAuths : List String) (id : UInt16) (data : List UInt8)
  | customJson (requiredAuths requiredBasicAuths : List String) (id json : String)
  | setWithdrawVestingRoute (fromAccount toAccount : String) (percent : UInt16) (autoVest : Bool)
  | challengeAuthority (challenger challenged : String) (requireOwner : Bool)
  | proveAuthority (challenged : String) (requireOwner : Bool)
  | requestAccountRecovery (recoveryAccount accountToRecover : String) (newOwnerAuthority : Authority)
  | recoverAccount (accountToRecover : String) (newOwnerAuthority recentOwnerAuthority : Authority)
  | changeRecoveryAccount (accountToRecover newRecoveryAccount : String)
  | escrowTransfer (from_ to_ : String) (amount : Asset) (memo : String) (escrowId : UInt32)
      (agent : String) (fee : Asset) (jsonMeta : String) (expiration : TimePointSec)
  | escrowDispute (from_ to_ : String) (escrowId : UInt32) (who : String)
  | escrowRelease (from_ : String) (escrowId : UInt32) (to_ who : String) (amount : Asset)
  | proposalCreate (proposedOps : List Operation) (expirationTime : TimePointSec)
      (reviewPeriodSeconds : Option UInt32)
  | proposalUpdate (op : ProposalUpdateOperation)
  | proposalDelete (op : ProposalDeleteOperation)
  | friendship (who whom : String)
  | unfriend (who whom : String)
  | balanceClaim (depositToAccount : String) (balanceToClaim : Nat) (balanceOwnerKey : PublicKey)
      (totalClaimed : Asset)
  | accountCreateWithDelegation (op : AccountCreateWithDelegationOperation)
  | delegateVestingShares (delegator delegatee : String) (vestingShares : Asset)
  | requestStreamReporting (requestor reporter : String) (rewardPct redelegatePct : UInt32)
  | cancelStreamReporting (requestor reporter : String)
  /-- The notifications that the chain itself makes (`fill_order`, `interest`, `playing_reward` and
  so on). -/
  | virtualOperation

instance : Inhabited Operation := ⟨.virtualOperation⟩

end BtcmChain
