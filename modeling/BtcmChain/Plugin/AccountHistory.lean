import BtcmChain.Lib.Effect
import BtcmChain.Lib.FlatSet
import BtcmChain.Lib.ObjectIndex
import BtcmChain.Protocol.Validate
import Mathlib.Data.Prod.Lex
import Mathlib.Order.OrderDual

set_option autoImplicit false

/-!
# The account history plugin

Before every operation the plugin notes it for the accounts it impacts. Which accounts are tracked is
an option of the command line and the configuration file; `plugin_initialize` looks for it under
another name than it is registered under. The parser of its values is a parameter.

Which accounts an operation impacts is a list for each kind of operation, with the ones the source
names (`Operation.impacted`, `Notification.impacted`). The notes of an account are numbered from
zero on, and the index is by account and by number, the highest first (`historyKey`). An account is
tracked if there are no ranges at all, or by the range that the lower bound of the account finds
(`isTracked`).
-/

namespace BtcmChain

/-! ## Applied operations -/

/-- The virtual operations, which the chain makes and plugins hear of. -/
inductive Notification where
  | fillConvertRequest (owner : String) (requestid : UInt32) (amountIn amountOut : Asset)
  | playingReward (platform url : String) (mbdPayout vestingPayout : Asset)
  | contentReward (payee url : String) (mbdPayout vestingPayout : Asset)
  | curateReward (curator url : String) (mbdPayout vestingPayout : Asset)
  | liquidityReward (owner : String) (payout : Asset)
  | interest (owner : String) (interest : Asset)
  | fillVestingWithdraw (fromAccount toAccount : String) (withdrawn deposited : Asset)
  | fillOrder (currentOwner : String) (currentOrderid : UInt32) (currentPays : Asset)
      (openOwner : String) (openOrderid : UInt32) (openPays : Asset)
  | returnVestingDelegation (account : String) (vestingShares : Asset)

/-- What `push_applied_operation` is called with: an operation of a user, or a virtual one. -/
inductive AppliedOperation where
  | operation (op : Operation)
  | notification (n : Notification)

/-- `operation_object`: an operation that was applied, and where it stands in the chain. -/
structure OperationObject where
  trxId : Nat := 0
  block : UInt32 := 0
  trxInBlock : UInt32 := 0
  opInTrx : UInt16 := 0
  virtualOp : UInt64 := 0
  timestamp : TimePointSec := 0
  op : AppliedOperation

/-! ## Impacted accounts -/

/-- `get_impacted_account_visitor` on the operations of users: the accounts that an operation has to
do with. -/
def Operation.impacted : Operation → List String
  | .accountCreate op => [op.newAccountName, op.creator]
  | .accountCreateWithDelegation op => [op.newAccountName, op.creator]
  | .accountUpdate op => [op.account]
  | .vote voter _ _ => [voter]
  | .transfer from_ to_ _ _ => [from_, to_]
  | .transferToVesting from_ to_ _ => from_ :: if to_ ≠ "" ∧ to_ ≠ from_ then [to_] else []
  | .withdrawVesting account _ => [account]
  | .witnessUpdate op => [op.owner]
  | .accountWitnessVote account witness _ => [account, witness]
  | .accountWitnessProxy account proxy => [account, proxy]
  | .feedPublish publisher _ => [publisher]
  | .limitOrderCreate op => [op.owner]
  | .limitOrderCancel owner _ => [owner]
  | .custom requiredAuths _ _ => requiredAuths
  | .requestAccountRecovery _ accountToRecover _ => [accountToRecover]
  | .recoverAccount accountToRecover _ _ => [accountToRecover]
  | .changeRecoveryAccount accountToRecover _ => [accountToRecover]
  | .streamingPlatformUpdate owner _ _ => [owner]
  | .requestStreamReporting requestor reporter _ _ => [requestor, reporter]
  | .cancelStreamReporting requestor reporter => [requestor, reporter]
  | .accountStreamingPlatformVote account streamingPlatform _ => [account, streamingPlatform]
  | .streamingPlatformReport op => [op.streamingPlatform, op.consumer] ++ op.spinningPlatform.toList
  | .friendship who whom => [who, whom]
  | .unfriend who whom => [who, whom]
  | .content op => op.uploader :: (op.distributions.map (·.payee) ++
      (op.distributionsComp.getD []).map (·.payee) ++ op.management.map (·.voter) ++
      (op.managementComp.getD []).map (·.voter))
  | .contentUpdate op => op.newDistributions.map (·.payee) ++ op.newManagement.map (·.voter)
  | .contentApprove approver _ => [approver]
  | .delegateVestingShares delegator delegatee _ => [delegator, delegatee]
  -- `template<typename T> operator()`
  | op => op.requiredActive ++ op.requiredOwner

/-- `get_impacted_account_visitor` on the virtual operations: the accounts that are told of
something. -/
def Notification.impacted : Notification → List String
  | .fillConvertRequest owner _ _ _ => [owner]
  | .playingReward platform _ _ _ => [platform]
  | .contentReward payee _ _ _ => [payee]
  | .curateReward curator _ _ _ => [curator]
  | .liquidityReward owner _ => [owner]
  | .interest owner _ => [owner]
  | .fillVestingWithdraw fromAccount toAccount _ _ => [fromAccount, toAccount]
  | .fillOrder currentOwner _ _ openOwner _ _ => [currentOwner, openOwner]
  | .returnVestingDelegation account _ => [account]

/-- `operation_get_impacted_accounts`: the accounts that an applied operation has to do with, as a
set. -/
def AppliedOperation.impacted : AppliedOperation → FlatSet String
  | .operation op => .ofKeys op.impacted
  | .notification n => .ofKeys n.impacted

/-! ## The histories -/

/-- The key of `by_account`: account, then sequence number, the highest first. -/
abbrev HistoryKey := String ×ₗ ℕᵒᵈ

def historyKey (account : String) (sequence : ℕ) : HistoryKey := toLex (account, OrderDual.toDual sequence)

/-- The objects of the plugin: operations, and by account and sequence number their ids; and which
accounts are tracked. -/
structure HistoryState where
  trackedAccounts : FlatMap String String := .empty
  operations : ObjectIndex OperationObject := .empty
  byAccount : FlatMap HistoryKey Nat := .empty

abbrev HistoryM := StateT HistoryState (Except Exn)

/-- `create<operation_object>`, which is numbered like all objects. -/
def createOperation (op : OperationObject) : HistoryM Nat := fun s =>
  .ok (s.operations.nextId, { s with operations := s.operations.create op })

/-- The next sequence number of an account, which is a `uint32_t` and wraps. -/
def HistoryState.nextSequence (s : HistoryState) (item : String) : ℕ :=
  match s.byAccount.lowerBound (historyKey item 4294967295) with
  | some e => if (ofLex e.1).1 = item then (OrderDual.ofDual (ofLex e.1).2 + 1) % 2 ^ 32 else 0
  | none => 0

/-- `create<account_history_object>`; the index by account and sequence number is unique. -/
def createAccountHistory (account : String) (sequence : ℕ) (op : Nat) : HistoryM Unit := fun s =>
  if (s.byAccount.find? (historyKey account sequence)).isSome then
    .error (.assert "Could not create object! Most likely a uniqueness constraint was violated.")
  else .ok ((), { s with byAccount := s.byAccount.set (historyKey account sequence) op })

/-- `operation_visitor`: the operation is stored once, and noted for the account. -/
def visitAccount (opObj : OperationObject) (headBlockTime : TimePointSec) (newObj : Option Nat)
    (item : String) : HistoryM (Option Nat) := do
  let id ← newObj.elim (createOperation { opObj with timestamp := headBlockTime }) pure
  let sequence ← reads (·.nextSequence item)
  createAccountHistory item sequence id
  return some id

/-- The test of `on_operation`: whether the history of this account is kept. -/
def isTracked (trackedAccounts : FlatMap String String) (item : String) : Bool :=
  trackedAccounts.entries.isEmpty ||
    (trackedAccounts.lowerBound item).any fun itr => decide (itr.1 ≤ item ∧ itr.2 < item)

/-- `on_operation`: the operation is put into the history of every tracked account it has to do
with. -/
def onOperationHistory (opObj : OperationObject) (headBlockTime : TimePointSec) : HistoryM Unit := do
  let tracked ← reads (·.trackedAccounts)
  let _ ← opObj.op.impacted.keys.foldlM (fun newObj item =>
    if isTracked tracked item then visitAccount opObj headBlockTime newObj item else return newObj) none
  return ()

/-! ## Start -/

/-- The options of the plugin that the program knows; it ignores others. -/
def registeredOptions : List String := ["track-account-range"]

/-- What the program reads from the command line and the configuration file. -/
def variablesMap (given : List (String × List String)) : List (String × List String) :=
  given.filter fun o => decide (o.1 ∈ registeredOptions)

/-- `flat_map::insert` of a range, which keeps what is there under the same key. -/
def insertRange (tracked : FlatMap String String) (range : String × String) : FlatMap String String :=
  if (tracked.find? range.1).isSome then tracked else tracked.set range.1 range.2

/-- `LOAD_VALUE_SET`: the values of an option, each of them read as a pair. -/
def loadValueSet (dejsonify : String → Except Exn (String × String))
    (options : List (String × List String)) (name : String) : Except Exn (FlatMap String String) :=
  match options.find? fun o => decide (o.1 = name) with
  | none => .ok .empty
  | some o => do
    let ranges ← o.2.mapM dejsonify
    return ranges.foldl insertRange .empty

/-- `plugin_initialize`: the ranges that the options give are tracked, all accounts if there are
none. -/
def pluginInitialize (dejsonify : String → Except Exn (String × String))
    (options : List (String × List String)) : Except Exn HistoryState := do
  let trackedAccounts ← loadValueSet dejsonify options "tracked-accounts"
  return { trackedAccounts }

end BtcmChain
