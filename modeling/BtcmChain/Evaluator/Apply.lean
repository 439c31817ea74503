import BtcmChain.Evaluator.Proposal

set_option autoImplicit false
set_option synthInstance.maxSize 10000000
set_option synthInstance.maxHeartbeats 200000

/-!
# Applying an operation

`applyOperation` dispatches to the evaluators. Its first argument is how many
proposals may still be nested: `push_proposal_nesting_guard` admits 42 and makes the
next one throw, and executing a proposal is the only way an evaluator applies
operations.

A proposal update may execute the proposal, so `evaluate` gets the execution of a proposal as an
argument, and `applyOperation` ties the knot with one nesting fewer. Whatever is shown of
`evaluate` for an arbitrary argument holds of `applyOperation` at every depth, by induction on that
number. Operations of escrows are refused as in the source, and virtual operations have no
evaluator.
-/

namespace BtcmChain

variable [Externals]

/-- `do_apply` of every operation, given how a proposal is executed. Escrow
evaluators are disabled, and nobody evaluates a virtual operation. -/
def evaluate (push : Nat → DbM Unit) : Operation → DbM Unit
  | .vote voter url weight => voteEvaluator voter url weight
  | .content op => contentEvaluator op
  | .contentUpdate op => contentUpdateEvaluator op
  | .contentApprove approver url => contentApproveEvaluator approver url
  | .contentDisable url => contentDisableEvaluator url
  | .transfer from_ to_ amount _ => transferEvaluator from_ to_ amount
  | .transferToVesting from_ to_ amount => transferToVestingEvaluator from_ to_ amount
  | .withdrawVesting account vestingShares => withdrawVestingEvaluator account vestingShares
  | .limitOrderCreate op => limitOrderCreateEvaluator op
  | .limitOrderCreate2 op => limitOrderCreate2Evaluator op
  | .limitOrderCancel owner orderid => limitOrderCancelEvaluator owner orderid
  | .feedPublish publisher exchangeRate => feedPublishEvaluator publisher exchangeRate
  | .convert owner _ amount => convertEvaluator owner amount
  | .accountCreate op => accountCreateEvaluator op
  | .accountUpdate op => accountUpdateEvaluator op
  | .witnessUpdate op => witnessUpdateEvaluator op
  | .accountWitnessVote account witness approve => accountWitnessVoteEvaluator account witness approve
  | .accountWitnessProxy account proxy => accountWitnessProxyEvaluator account proxy
  | .streamingPlatformUpdate owner url fee => streamingPlatformUpdateEvaluator owner url fee
  | .accountStreamingPlatformVote account platform approve =>
      accountStreamingPlatformVoteEvaluator account platform approve
  | .streamingPlatformReport op => streamingPlatformReportEvaluator op
  | .assetCreate op => assetCreateEvaluator op
  | .assetUpdate op => assetUpdateEvaluator op
  | .assetIssue issuer assetToIssue issueTo => assetIssueEvaluator issuer assetToIssue issueTo
  | .assetReserve _ payer amountToReserve => assetReserveEvaluator payer amountToReserve
  | .custom .. => pure ()
  | .customJson _ basic _ json => customJsonEvaluator basic json
  | .setWithdrawVestingRoute from_ to_ percent autoVest =>
      setWithdrawVestingRouteEvaluator from_ to_ percent autoVest
  | .challengeAuthority challenger challenged requireOwner =>
      challengeAuthorityEvaluator challenger challenged requireOwner
  | .proveAuthority challenged requireOwner => proveAuthorityEvaluator challenged requireOwner
  | .requestAccountRecovery recovery account owner =>
      requestAccountRecoveryEvaluator recovery account owner
  | .recoverAccount account newOwner recentOwner => recoverAccountEvaluator account newOwner recentOwner
  | .changeRecoveryAccount account newRecovery => changeRecoveryAccountEvaluator account newRecovery
  | .escrowTransfer .. => throw (.assert "Escrow transfer operation not enabled")
  | .escrowDispute .. => throw (.assert "Escrow dispute operation not enabled")
  | .escrowRelease .. => throw (.assert "Escrow release operation not enabled")
  | .proposalCreate ops expiration review => proposalCreateEvaluator ops expiration review
  | .proposalUpdate op => proposalUpdateEvaluator push op
  | .proposalDelete op => proposalDeleteEvaluator op
  | .friendship who whom => friendshipEvaluator who whom
  | .unfriend who whom => unfriendEvaluator who whom
  | .balanceClaim account balance key claimed => balanceClaimEvaluator account balance key claimed
  | .accountCreateWithDelegation op => accountCreateWithDelegationEvaluator op
  | .delegateVestingShares delegator delegatee shares =>
      delegateVestingSharesEvaluator delegator delegatee shares
  | .requestStreamReporting requestor reporter reward redelegate =>
      requestStreamReportingEvaluator requestor reporter reward redelegate
  | .cancelStreamReporting requestor reporter => cancelStreamReportingEvaluator requestor reporter
  | .virtualOperation => throw (.assert "No registered evaluator for operation ${op}")

/-- `apply_operation`, by how many proposals may still be nested in the operation. -/
def applyOperation : Nat → Operation → DbM Unit
  | 0 => evaluate fun _ => throw (.assert "Max proposal nesting depth exceeded!")
  | n + 1 => evaluate (pushProposal (applyOperation n))

end BtcmChain
