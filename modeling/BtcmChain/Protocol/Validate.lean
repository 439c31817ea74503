import BtcmChain.Protocol.Operations
import Mathlib.Data.UInt

set_option autoImplicit false

/-!
# Stateless checks and required authorities

`Operation.validate` is `operation_validate`: what every node checks of an
operation before any state is consulted. The `requiredActive` family is what
`operation_get_required_authorities` collects: the names (or content urls) whose
authority the enclosing transaction must carry.

The checks are in the order of the source and fail with its messages, so that of several things
that are wrong with an operation the same one is reported. The masters of a content are checked
each by its own rules (`validateMeta`), payees and managers by shared ones with the field as an
argument. Sums of basis points are taken in the width of the source, which decides what is
accepted.
-/

namespace BtcmChain

/-- `is_asset_type`: whether the amount is one of this asset. -/
def isAssetType (a : Asset) (id : AssetId) : Bool := decide (a.assetId = id)

/-- `validate_url`: the address is short, and in the `bmfs` scheme. -/
def validateUrl (url : String) : Except Exn Unit := do
  fcAssert (url.utf8ByteSize < 127) "url.size() < BTCM_MAX_URL_LENGTH"
  fcAssert ("bmfs://".toList.isPrefixOf url.toList) "boost::starts_with( url, \"bmfs://\" )"

/-- `FC_ASSERT( is_valid_account_name( name ), msg )`, which most operations check their accounts
with. -/
def validateName (name : String) (msg : String) : Except Exn Unit :=
  fcAssert (isValidAccountName name) msg

variable [Externals]

/-- The check of JSON metadata that the account operations share: none is fine, and any has to be
valid. -/
def validateJson (json : String) : Except Exn Unit :=
  if 0 < json.utf8ByteSize then
    fcAssert (Externals.jsonIsValid json) "JSON Metadata not valid JSON"
  else .ok ()

/-- An assertion that compares amounts, which itself throws on mixed assets. -/
def fcAssertE (c : Except Exn Bool) (msg : String) : Except Exn Unit := do
  let b ← c
  fcAssert b msg

/-- The `bp` total of a distribution list, in the 32 bits the source adds it in. -/
def distributionTotal (ds : List Distribution) : UInt32 := (ds.map Distribution.bp).sum

/-- The vote total of a management list, in 32 bits. -/
def managementTotal (vs : List ManagementVote) : UInt32 := (vs.map ManagementVote.percentage).sum

/-- The payees of a distribution list are well-formed account names. -/
def validatePayees (ds : List Distribution) : Except Exn Unit :=
  fcAssert (ds.all fun d => isValidAccountName d.payee) "is_valid_account_name(d.payee)"

/-- The voters of a management list are well-formed names and hold 100 votes. -/
def validateManagement (vs : List ManagementVote) : Except Exn Unit := do
  fcAssert (vs.all fun v => isValidAccountName v.voter) "is_valid_account_name(v.voter)"
  fcAssert (managementTotal vs = 100) "Total managing votes must equal 100"

/-- `content_metadata_album_master::validate_meta`: the album has a title, which is not too long. -/
def ContentMetadataAlbumMaster.validateMeta (m : ContentMetadataAlbumMaster) : Except Exn Unit :=
  fcAssert (0 < m.albumTitle.utf8ByteSize ∧ m.albumTitle.utf8ByteSize < 256)
    "Title larger than size limit"

/-- `content_metadata_track_master::validate_meta`: the track has a title, which is not too long,
and its metadata is JSON. -/
def ContentMetadataTrackMaster.validateMeta (m : ContentMetadataTrackMaster) : Except Exn Unit := do
  fcAssert (0 < m.trackTitle.utf8ByteSize ∧ m.trackTitle.utf8ByteSize < 256)
    "Title larger than size limit"
  fcAssert (m.jsonMetadata.all Externals.jsonIsValid) "JSON metadata is not valid JSON"

/-- `content_operation::validate`: the uploader, the metadata, the address, who is paid and who
manages on both sides, and the two splits. -/
def ContentOperation.validate (op : ContentOperation) : Except Exn Unit := do
  validateName op.uploader "is_valid_account_name(uploader)"
  op.albumMeta.validateMeta
  op.trackMeta.validateMeta
  validateUrl op.url
  validatePayees op.distributions
  fcAssert (distributionTotal op.distributions = 0 ∨ distributionTotal op.distributions = 10000)
    "when distributions are set, the sum must match 10000 bp"
  validateManagement op.management
  if op.compMeta.thirdPartyPublishers then do
    let ds := op.distributionsComp.getD []
    validatePayees ds
    fcAssert (distributionTotal ds = 0 ∨ distributionTotal ds = 10000)
      "when distributions are set, the sum must match 1000 bp"
    fcAssert (op.managementComp.isSome && op.managementThresholdComp.isSome)
      "management_comp && management_threshold_comp"
    validateManagement (op.managementComp.getD [])
  else pure ()
  fcAssert (op.playingReward < 10000) "Split maximum is 10000 bp"
  fcAssert (op.publishersShare < 10000) "Split maximum is 10000 bp"

/-- `content_update_operation::validate`: everything that is given is checked, and a publisher may
not edit what belongs to the master side. -/
def ContentUpdateOperation.validate (op : ContentUpdateOperation) : Except Exn Unit := do
  validateUrl op.url
  fcAssert (op.side ≠ SIDE_PUBLISHER ∨ op.albumMeta.isNone) "publisher cannot edit master side info"
  fcAssert (op.side ≠ SIDE_PUBLISHER ∨ op.trackMeta.isNone) "publisher cannot edit master side info"
  op.albumMeta.elim (pure ()) ContentMetadataAlbumMaster.validateMeta
  op.trackMeta.elim (pure ()) ContentMetadataTrackMaster.validateMeta
  if op.newDistributions.isEmpty then pure () else do
    validatePayees op.newDistributions
    fcAssert (distributionTotal op.newDistributions = 10000) "New distributions must sum to 10000 bp"
  if op.newManagement.isEmpty then pure () else validateManagement op.newManagement
  fcAssert (op.newPlayingReward < 10000) "Split maximum is 10000 bp"
  fcAssert (op.newPublishersShare < 10000) "Split maximum is 10000 bp"

/-- `account_create_operation::validate`: the name, the fee, the authorities and the metadata. -/
def AccountCreateOperation.validate (op : AccountCreateOperation) : Except Exn Unit := do
  validateName op.newAccountName "Invalid account name"
  fcAssert (isAssetType op.fee BTCM_SYMBOL) "Account creation fee must be BTCM"
  op.owner.validate
  op.active.validate
  op.basic.validate
  validateJson op.jsonMetadata
  fcAssertE (op.fee.ge (btcm 0)) "fee >= asset( 0, BTCM_SYMBOL )"

/-- `account_create_with_delegation_operation::validate`: the names, the fee, the delegation, the
authorities and the metadata. -/
def AccountCreateWithDelegationOperation.validate (op : AccountCreateWithDelegationOperation) :
    Except Exn Unit := do
  validateName op.newAccountName "is_valid_account_name( new_account_name )"
  validateName op.creator "is_valid_account_name( creator )"
  fcAssert (isAssetType op.fee BTCM_SYMBOL) "Account creation fee must be BTCM"
  fcAssert (isAssetType op.delegation VESTS_SYMBOL) "Delegation must be VESTS"
  op.owner.validate
  op.active.validate
  op.basic.validate
  validateJson op.jsonMetadata
  fcAssertE (op.fee.ge (btcm 0)) "Account creation fee cannot be negative"
  fcAssertE (op.delegation.ge (vests 0)) "Delegation cannot be negative"

/-- `account_update_operation::validate`: the account, the authorities that are given, and the
metadata. -/
def AccountUpdateOperation.validate (op : AccountUpdateOperation) : Except Exn Unit := do
  fcAssert (op.account ≠ "temp") "account != BTCM_TEMP_ACCOUNT"
  validateName op.account "is_valid_account_name( account )"
  op.owner.elim (pure ()) Authority.validate
  op.active.elim (pure ()) Authority.validate
  op.basic.elim (pure ()) Authority.validate
  validateJson op.jsonMetadata

/-- `limit_order_create_operation::validate`: the owner, the two amounts and the price they make. -/
def LimitOrderCreateOperation.validate (op : LimitOrderCreateOperation) : Except Exn Unit := do
  validateName op.owner "is_valid_account_name( owner )"
  fcAssert (!isAssetType op.minToReceive VESTS_SYMBOL && !isAssetType op.amountToSell VESTS_SYMBOL)
    "!is_asset_type( min_to_receive, VESTS_SYMBOL ) && !is_asset_type( amount_to_sell, VESTS_SYMBOL )"
  let p ← Price.make op.amountToSell op.minToReceive
  p.validate

/-- `limit_order_create2_operation::validate`: the owner, the rate, and what the amount is worth at
it. -/
def LimitOrderCreate2Operation.validate (op : LimitOrderCreate2Operation) : Except Exn Unit := do
  validateName op.owner "is_valid_account_name( owner )"
  fcAssert (op.amountToSell.assetId = op.exchangeRate.base.assetId)
    "amount_to_sell.asset_id == exchange_rate.base.asset_id"
  op.exchangeRate.validate
  fcAssert (!isAssetType op.exchangeRate.base VESTS_SYMBOL &&
      !isAssetType op.exchangeRate.quote VESTS_SYMBOL)
    "!is_asset_type( exchange_rate.base, VESTS_SYMBOL ) && !is_asset_type( exchange_rate.quote, VESTS_SYMBOL )"
  let received ← op.amountToSell.mulPrice op.exchangeRate
  fcAssert (0 < received.amount) "(amount_to_sell * exchange_rate).amount > 0"

/-- `chain_properties::validate`: the proposed fees, block size and interest rate are in bounds. -/
def ChainProperties.validate (p : ChainProperties) : Except Exn Unit := do
  fcAssert (1 ≤ p.accountCreationFee.amount) "account_creation_fee.amount >= BTCM_MIN_ACCOUNT_CREATION_FEE"
  fcAssert (100000000000000 ≤ p.streamingPlatformUpdateFee.amount)
    "streaming_platform_update_fee.amount >= BTCM_MIN_STREAMING_PLATFORM_CREATION_FEE"
  fcAssert (65536 ≤ p.maximumBlockSize) "maximum_block_size >= BTCM_MIN_BLOCK_SIZE_LIMIT"
  fcAssert (p.mbdInterestRate ≤ 10000) "mbd_interest_rate <= BTCM_100_PERCENT"

/-- `witness_update_operation::validate`: the owner, the address, the fee and the proposed
properties. -/
def WitnessUpdateOperation.validate (op : WitnessUpdateOperation) : Except Exn Unit := do
  validateName op.owner "Owner account name invalid"
  fcAssert (0 < op.url.utf8ByteSize) "URL size must be greater than 0"
  fcAssert (op.url.utf8ByteSize ≤ 2048) "url.size() <= BTCM_MAX_WITNESS_URL_LENGTH"
  fcAssertE (op.fee.ge (btcm 0)) "fee >= asset( 0, BTCM_SYMBOL )"
  op.props.validate

/-- `streaming_platform_report_operation::validate`: the platforms, the time that was played, and
the fields that have to be zero. -/
def StreamingPlatformReportOperation.validate (op : StreamingPlatformReportOperation) :
    Except Exn Unit := do
  validateName op.streamingPlatform "Invalid streaming platform"
  fcAssert (0 < op.playTime) "Reported time must be greater than 0"
  fcAssert (op.playTime ≤ 86400 ∨ (op.consumer = "" ∧ op.spUserId.isNone))
    "Reported time cannot exceed 1 day, except for anonymous users"
  fcAssert (op.dummy1 = 0) "dummy1 must equal 0"
  fcAssert (op.dummy2 = 0) "dummy2 must equal 0"
  fcAssert (op.spinningPlatform.all isValidAccountName) "Invalid spinning platform"
  fcAssert (op.spinningPlatform.all (· ≠ op.streamingPlatform)) "Can't self-report"
  fcAssert (op.spUserId.isNone ∨ op.consumer = "") "sp_user_id conflicts with consumer"

/-- `is_valid_symbol`: the length of the symbol, its first character, the characters it is made of,
and its dot. -/
def isValidSymbol (symbol : String) : Bool :=
  decide (2 ≤ symbol.utf8ByteSize) && decide (symbol.utf8ByteSize ≤ 13) &&
    (symbol.toList.head?.elim false fun c => c.isAlpha) &&
    (symbol.toList.all fun c => c.isUpper || c.isDigit || c = '.') &&
    decide (symbol.toList.count '.' ≤ 1)

/-- `asset_options::validate`: the supply, the market fee and the permissions are in bounds. -/
def AssetOptions.validate (o : AssetOptions) : Except Exn Unit := do
  fcAssert (0 < o.maxSupply) "max_supply > 0"
  fcAssert (o.maxSupply ≤ BTCM_MAX_SHARE_SUPPLY) "max_supply <= BTCM_MAX_SHARE_SUPPLY"
  fcAssert (o.marketFeePercent ≤ 10000) "market_fee_percent <= BTCM_100_PERCENT"
  fcAssert (0 ≤ o.maxMarketFee ∧ o.maxMarketFee ≤ BTCM_MAX_SHARE_SUPPLY)
    "max_market_fee >= 0 && max_market_fee <= BTCM_MAX_SHARE_SUPPLY"
  fcAssert (o.issuerPermissions &&& 0xff80 = 0)
    "!(issuer_permissions & ~ ASSET_ISSUER_PERMISSION_MASK)"

/-- `asset_create_operation::validate`: the symbol, the fee, the options and the precision. -/
def AssetCreateOperation.validate (op : AssetCreateOperation) : Except Exn Unit := do
  fcAssert (isValidSymbol op.symbol) "is_valid_symbol(symbol)"
  fcAssert (0 ≤ op.fee.amount) "Fee must be positive!"
  op.commonOptions.validate
  fcAssert (op.precision ≤ 12) "precision <= 12"

/-- The bounds on the amount that `asset_issue_operation` and `asset_reserve_operation` share. -/
def validateShareAmount (a : Asset) : Except Exn Unit := do
  fcAssert (a.amount ≤ BTCM_MAX_SHARE_SUPPLY) "amount.value <= BTCM_MAX_SHARE_SUPPLY"
  fcAssert (0 < a.amount) "amount.value > 0"

/-- `proposal_update_operation::validate`: something is approved or taken back, and nothing is both.
-/
def ProposalUpdateOperation.validate (op : ProposalUpdateOperation) : Except Exn Unit := do
  fcAssert (!(op.activeApprovalsToAdd.isEmpty && op.activeApprovalsToRemove.isEmpty &&
      op.ownerApprovalsToAdd.isEmpty && op.ownerApprovalsToRemove.isEmpty &&
      op.keyApprovalsToAdd.isEmpty && op.keyApprovalsToRemove.isEmpty))
    "active, owner and key approvals are all empty"
  fcAssert (op.activeApprovalsToAdd.all (· ∉ op.activeApprovalsToRemove))
    "Cannot add and remove approval at the same time."
  fcAssert (op.ownerApprovalsToAdd.all (· ∉ op.ownerApprovalsToRemove))
    "Cannot add and remove approval at the same time."
  fcAssert (op.keyApprovalsToAdd.all (· ∉ op.keyApprovalsToRemove))
    "Cannot add and remove approval at the same time."

mutual

/-- `operation_validate`: each operation checks itself, without looking at the chain. -/
def Operation.validate : Operation → Except Exn Unit
  | .vote voter url weight => do
      validateName voter "Voter account name invalid"
      fcAssert (-10000 ≤ weight ∧ weight ≤ 10000) "Weight is not a BTCM percentage"
      validateUrl url
  | .content op => op.validate
  | .contentUpdate op => op.validate
  | .contentApprove approver url => do
      validateName approver "is_valid_account_name(approver)"
      validateUrl url
  | .contentDisable url => validateUrl url
  | .transfer from_ to_ amount memo => do
      validateName from_ "Invalid 'from' account name"
      validateName to_ "Invalid 'to' account name"
      fcAssert (0 < amount.amount) "Cannot transfer a negative amount (aka: stealing)"
      fcAssert (memo.utf8ByteSize < 2048) "Memo is too large"
  | .transferToVesting from_ to_ amount => do
      validateName from_ "From account name invalid"
      fcAssert (isAssetType amount BTCM_SYMBOL) "Amount must be BTCM"
      if to_ = "" then pure () else validateName to_ "To account name invalid"
      fcAssertE (amount.gt (btcm 0)) "Must transfer a nonzero amount"
  | .withdrawVesting account vestingShares => do
      validateName account "Account name invalid"
      fcAssert (isAssetType vestingShares VESTS_SYMBOL) "Amount must be VESTS"
      fcAssert (0 ≤ vestingShares.amount) "Cannot withdraw a negative amount of VESTS!"
  | .limitOrderCreate op => op.validate
  | .limitOrderCreate2 op => op.validate
  | .limitOrderCancel owner _ => validateName owner "is_valid_account_name( owner )"
  | .feedPublish publisher exchangeRate => do
      validateName publisher "is_valid_account_name( publisher )"
      fcAssert ((isAssetType exchangeRate.base BTCM_SYMBOL && isAssetType exchangeRate.quote XUSD_SYMBOL) ||
          (isAssetType exchangeRate.base XUSD_SYMBOL && isAssetType exchangeRate.quote BTCM_SYMBOL))
        "the feed must quote BTCM in XUSD or XUSD in BTCM"
      exchangeRate.validate
  | .convert owner _ amount => do
      validateName owner "is_valid_account_name( owner )"
      fcAssert (isAssetType amount BTCM_SYMBOL) "is_asset_type( amount, BTCM_SYMBOL )"
      fcAssert (0 < amount.amount) "amount.amount > 0"
  | .accountCreate op => op.validate
  | .accountUpdate op => op.validate
  | .witnessUpdate op => op.validate
  | .accountWitnessVote account witness _ => do
      validateName account "Account ${a}"
      validateName witness "is_valid_account_name( witness )"
  | .accountWitnessProxy account proxy => do
      validateName account "is_valid_account_name( account )"
      if proxy = "" then pure () else validateName proxy "is_valid_account_name( proxy )"
      fcAssert (proxy ≠ account) "proxy != account"
  | .streamingPlatformUpdate owner url fee => do
      validateName owner "Owner account name invalid"
      fcAssert (0 < url.utf8ByteSize) "URL size must be greater than 0"
      fcAssertE (fee.ge (btcm 100000000000000))
        "fee >= asset(BTCM_MIN_STREAMING_PLATFORM_CREATION_FEE, BTCM_SYMBOL)"
  | .accountStreamingPlatformVote account streamingPlatform _ => do
      validateName account "Account ${a}"
      validateName streamingPlatform "is_valid_account_name(streaming_platform)"
  | .streamingPlatformReport op => op.validate
  | .assetCreate op => op.validate
  | .assetUpdate _ => .error (.assert "!\"disabled\"")
  | .assetIssue _ assetToIssue _ => validateShareAmount assetToIssue
  | .assetReserve _ _ amountToReserve => validateShareAmount amountToReserve
  | .custom requiredAuths _ _ =>
      fcAssert (0 < requiredAuths.length) "at least on account must be specified"
  | .customJson requiredAuths requiredBasicAuths id json => do
      fcAssert (0 < requiredAuths.length + requiredBasicAuths.length)
        "at least on account must be specified"
      fcAssert (id.utf8ByteSize ≤ 32) "id.size() <= 32"
      fcAssert (Externals.jsonIsValid json) "JSON Metadata not valid JSON"
  | .setWithdrawVestingRoute fromAccount toAccount percent _ => do
      validateName fromAccount "Account name invalid"
      validateName toAccount "Account name invalid"
      fcAssert (percent ≤ 10000) "Percent must be valid btcm percent"
  | .challengeAuthority challenger challenged _ => do
      validateName challenger "challenger account name invalid"
      validateName challenged "challenged account name invalid"
      fcAssert (challenged ≠ challenger) "challenged != challenger"
  | .proveAuthority challenged _ => validateName challenged "challenged account name invalid"
  | .requestAccountRecovery recoveryAccount accountToRecover newOwnerAuthority => do
      validateName recoveryAccount "is_valid_account_name( recovery_account )"
      validateName accountToRecover "is_valid_account_name( account_to_recover )"
      newOwnerAuthority.validate
  | .recoverAccount accountToRecover newOwnerAuthority recentOwnerAuthority => do
      validateName accountToRecover "is_valid_account_name( account_to_recover )"
      fcAssert (newOwnerAuthority ≠ recentOwnerAuthority)
        "!( new_owner_authority == recent_owner_authority)"
      fcAssert (!newOwnerAuthority.isImpossible) "!new_owner_authority.is_impossible()"
      fcAssert (!recentOwnerAuthority.isImpossible) "!recent_owner_authority.is_impossible()"
      fcAssert (newOwnerAuthority.weightThreshold ≠ 0) "new_owner_authority.weight_threshold"
      newOwnerAuthority.validate
      recentOwnerAuthority.validate
  | .changeRecoveryAccount accountToRecover newRecoveryAccount => do
      validateName accountToRecover "is_valid_account_name( account_to_recover )"
      validateName newRecoveryAccount "is_valid_account_name( new_recovery_account )"
  | .escrowTransfer from_ to_ amount _ _ agent fee _ _ => do
      validateName from_ "is_valid_account_name( from )"
      validateName to_ "is_valid_account_name( to )"
      validateName agent "is_valid_account_name( agent )"
      fcAssert (0 ≤ fee.amount) "fee.amount >= 0"
      fcAssert (0 ≤ amount.amount) "amount.amount >= 0"
      fcAssert (from_ ≠ agent ∧ to_ ≠ agent) "from != agent && to != agent"
      fcAssert (fee.assetId = amount.assetId) "fee.asset_id == amount.asset_id"
      fcAssert (amount.assetId ≠ VESTS_SYMBOL) "amount.asset_id != VESTS_SYMBOL"
  | .escrowDispute from_ to_ _ who => do
      validateName from_ "is_valid_account_name( from )"
      validateName to_ "is_valid_account_name( to )"
      validateName who "is_valid_account_name( who )"
      fcAssert (who = from_ ∨ who = to_) "who == from || who == to"
  | .escrowRelease from_ _ to_ who amount => do
      validateName from_ "is_valid_account_name( from )"
      validateName to_ "is_valid_account_name( to )"
      validateName who "is_valid_account_name( who )"
      fcAssert (0 < amount.amount) "amount.amount > 0"
      fcAssert (amount.assetId ≠ VESTS_SYMBOL) "amount.asset_id != VESTS_SYMBOL"
  | .proposalCreate proposedOps _ _ => do
      fcAssert (!proposedOps.isEmpty) "!proposed_ops.empty()"
      validateAll proposedOps
  | .proposalUpdate op => op.validate
  | .proposalDelete op => do
      fcAssert (op.vetoer ≠ "") "!vetoer.empty()"
      fcAssert (op.type ≤ 2) "Invalid authority type!"
  | .friendship who whom => do
      validateName who "is_valid_account_name(who)"
      validateName whom "is_valid_account_name(whom)"
  | .unfriend who whom => do
      validateName who "is_valid_account_name(who)"
      validateName whom "is_valid_account_name(whom)"
  | .balanceClaim _ _ balanceOwnerKey _ =>
      fcAssert (balanceOwnerKey ≠ 0) "balance_owner_key != public_key_type()"
  | .accountCreateWithDelegation op => op.validate
  | .delegateVestingShares delegator delegatee vestingShares => do
      validateName delegator "is_valid_account_name( delegator )"
      validateName delegatee "is_valid_account_name( delegatee )"
      fcAssert (delegator ≠ delegatee) "You cannot delegate VESTS to yourself"
      fcAssert (isAssetType vestingShares VESTS_SYMBOL) "Delegation must be VESTS"
      fcAssertE (vestingShares.ge (vests 0)) "Delegation cannot be negative"
  | .requestStreamReporting requestor reporter rewardPct redelegatePct => do
      validateName requestor "Requestor account name invalid"
      validateName reporter "Reporter account name invalid"
      fcAssert (reporter ≠ requestor) "Cannot request self-reporting"
      fcAssert (rewardPct ≤ 10000) "Invalid reward scaled percentage value!"
      fcAssert (redelegatePct ≤ 10000) "Invalid redelegation scaled percentage value!"
  | .cancelStreamReporting requestor reporter => do
      validateName requestor "Requestor account name invalid"
      validateName reporter "Reporter account name invalid"
      fcAssert (reporter ≠ requestor) "Cannot cancel self-reporting"
  | .virtualOperation => .error (.assert "this is a virtual operation")

/-- Validate a list of proposed operations, in order, up to the first that fails. -/
def validateAll : List Operation → Except Exn Unit
  | [] => .ok ()
  | op :: ops => do
      op.validate
      validateAll ops

end

/-! ## Required authorities -/

omit [Externals]

/-- `get_required_active_authorities`: the accounts whose active authority the operation needs. -/
def Operation.requiredActive : Operation → List String
  | .content op => [op.uploader]
  | .transfer from_ _ amount _ => if amount.assetId = VESTS_SYMBOL then [] else [from_]
  | .transferToVesting from_ _ _ => [from_]
  | .withdrawVesting account _ => [account]
  | .limitOrderCreate op => [op.owner]
  | .limitOrderCreate2 op => [op.owner]
  | .limitOrderCancel owner _ => [owner]
  | .feedPublish publisher _ => [publisher]
  | .convert owner _ _ => [owner]
  | .accountCreate op => [op.creator]
  | .accountUpdate op => if op.owner.isSome then [] else [op.account]
  | .witnessUpdate op => [op.owner]
  | .streamingPlatformUpdate owner _ _ => [owner]
  | .streamingPlatformReport op => [op.streamingPlatform]
  | .assetCreate op => [op.issuer]
  | .assetUpdate op => [op.issuer]
  | .assetIssue issuer _ _ => [issuer]
  | .assetReserve issuer _ _ => [issuer]
  | .custom requiredAuths _ _ => requiredAuths
  | .customJson requiredAuths _ _ _ => requiredAuths
  | .setWithdrawVestingRoute fromAccount _ _ _ => [fromAccount]
  | .challengeAuthority challenger _ _ => [challenger]
  | .proveAuthority challenged requireOwner => if requireOwner then [] else [challenged]
  | .requestAccountRecovery recoveryAccount _ _ => [recoveryAccount]
  | .escrowTransfer from_ _ _ _ _ _ _ _ _ => [from_]
  | .escrowDispute _ _ _ who => [who]
  | .escrowRelease _ _ _ who _ => [who]
  | .proposalUpdate op => op.activeApprovalsToAdd ++ op.activeApprovalsToRemove
  | .proposalDelete op => if op.type = 1 then [op.vetoer] else []
  | .accountCreateWithDelegation op => [op.creator]
  | .delegateVestingShares delegator _ _ => [delegator]
  | .requestStreamReporting requestor _ _ _ => [requestor]
  | .cancelStreamReporting requestor _ => [requestor]
  | _ => []

/-- `get_required_owner_authorities`: the accounts whose owner authority the operation needs. -/
def Operation.requiredOwner : Operation → List String
  | .transfer from_ _ amount _ => if amount.assetId = VESTS_SYMBOL then [from_] else []
  | .accountUpdate op => if op.owner.isSome then [op.account] else []
  | .proveAuthority challenged requireOwner => if requireOwner then [challenged] else []
  | .changeRecoveryAccount accountToRecover _ => [accountToRecover]
  | .proposalUpdate op => op.ownerApprovalsToAdd ++ op.ownerApprovalsToRemove
  | .proposalDelete op => if op.type = 0 then [op.vetoer] else []
  | _ => []

/-- `get_required_basic_authorities`: the accounts whose basic authority the operation needs. -/
def Operation.requiredBasic : Operation → List String
  | .vote voter _ _ => [voter]
  | .contentApprove approver _ => [approver]
  | .accountWitnessVote account _ _ => [account]
  | .accountWitnessProxy account _ => [account]
  | .accountStreamingPlatformVote account _ _ => [account]
  | .customJson _ requiredBasicAuths _ _ => requiredBasicAuths
  | .proposalDelete op => if op.type = 2 then [op.vetoer] else []
  | .friendship who _ => [who]
  | .unfriend who _ => [who]
  | _ => []

/-- `get_required_master_content_authorities`: the contents whose master side the operation needs.
-/
def Operation.requiredMasterContent : Operation → List String
  | .contentUpdate op =>
      if op.side = SIDE_MASTER ∨ op.newPlayingReward ≠ 0 ∨ op.newPublishersShare ≠ 0 then [op.url]
      else []
  | .contentDisable url => [url]
  | _ => []

/-- `get_required_comp_content_authorities`: the contents whose publishing side the operation needs.
-/
def Operation.requiredCompContent : Operation → List String
  | .contentUpdate op =>
      if op.side = SIDE_PUBLISHER ∨ op.newPlayingReward ≠ 0 ∨ op.newPublishersShare ≠ 0 then [op.url]
      else []
  | _ => []

/-- `get_required_authorities`: the authorities that the operation itself gives and that have to
sign. -/
def Operation.requiredOther : Operation → List Authority
  | .recoverAccount _ newOwnerAuthority recentOwnerAuthority =>
      [newOwnerAuthority, recentOwnerAuthority]
  | .balanceClaim _ _ balanceOwnerKey _ => [.ofKey 100 balanceOwnerKey 100]
  | .proposalUpdate op =>
      let keys := (op.keyApprovalsToAdd ++ op.keyApprovalsToRemove).foldl
        (fun (m : FlatMap PublicKey UInt16) k => m.set k 1) FlatMap.empty
      if keys.size = 0 then []
      else [{ weightThreshold := UInt32.ofNat keys.size, keyAuths := keys }]
  | _ => []

/-- The account names an operation needs the active, owner or basic authority of. -/
def Operation.requiredNames (op : Operation) : List String :=
  op.requiredActive ++ op.requiredOwner ++ op.requiredBasic

end BtcmChain
