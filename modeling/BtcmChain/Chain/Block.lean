import BtcmChain.Evaluator.Apply
import BtcmChain.Chain.Rewards

set_option autoImplicit false
set_option synthInstance.maxSize 10000000
set_option synthInstance.maxHeartbeats 200000

/-!
# Applying a block

`_apply_block` in its three parts: the checks of the header (`startBlock`), the transactions, and
what is done behind them (`finishBlock`), of which `settleBlock` is the part that moves money.

Signatures, bandwidth, the fork database and the notifications are left out here; the signatures are
in `Chain.Transactions`, the bandwidth is in `Chain.Metering`. All of them can only reject a block.
So a theorem about every run of this module holds of every run of the source, but a run that is only
shown to exist has to pass these checks as well. Where the genesis state has vesting shares no
account has any bandwidth in block 1, and the sample chains put their transactions behind an empty
first block.
-/

namespace BtcmChain

variable [Externals]

/-- `signed_block`: who produced it, when, and the operations of each of its transactions. -/
structure SignedBlock where
  witness : String
  timestamp : TimePointSec
  transactions : List (List Operation) := []

/-- The limit of `push_proposal_nesting_guard`: so many proposals may execute one another. -/
def BTCM_MAX_PROPOSAL_NESTING : Nat := 42

/-- `transaction::validate` and the application of the transaction's operations, one after the
other. -/
def applyTransaction (ops : List Operation) : DbM Unit := do
  require (!ops.isEmpty) "A transaction must have at least one operation"
  ofExcept (validateAll ops)
  ops.forM (applyOperation BTCM_MAX_PROPOSAL_NESTING)

/-- `validate_block_header`, and the note of who produces the block. -/
def startBlock (b : SignedBlock) : DbM Unit := do
  let now ← headBlockTime
  require (now < b.timestamp) "head_block_time() < next_block.timestamp"
  let witness ← getWitness b.witness
  let slot ← reads fun s => s.slotAtTime b.timestamp
  require (0 < slot) "slot_num > 0"
  let scheduled ← getScheduledWitness slot
  require (witness.val.owner = scheduled) "Witness produced block at wrong time"
  modifyParams fun p => { p with currentWitness := b.witness }

instance (b : SignedBlock) : Writes (startBlock b) [] := ⟨by unfold startBlock; infer_instance⟩

/-- One round of `clear_expired_proposals`: execute the proposal if its approvals
suffice, and remove it in any case. -/
def expireProposal (p : Entry ProposalObject) : DbM Unit := do
  let authorized ← reads fun s => s.isAuthorizedToExecute p.val
  let done ←
    if authorized then attempt (pushProposal (applyOperation (BTCM_MAX_PROPOSAL_NESTING - 1)) p.id)
    else pure false
  whenM (!done) (proposalIndex.remove p.id)

/-- `clear_expired_proposals`: proposals that are due are executed where they are approved, and
removed. -/
def clearExpiredProposals : DbM Unit := do
  let now ← headBlockTime
  let size ← reads fun s => s.proposals.objs.size
  drain .outOfFuel (proposalIndex.due? (·.expirationTime.toNat) (·.expirationTime ≤ now))
    (fun _ p => expireProposal p) size ()

/-- The part of `_apply_block` behind `clear_expired_proposals` that touches money,
stake and statistics. -/
def settleBlock : DbM Unit := do
  clearExpiredOrders
  clearExpiredDelegations
  updateWitnessSchedule
  updateMedianFeed
  updateVirtualSupply
  let contentReward ← getContentReward
  let witnessPay ← getProducerReward
  processFunds contentReward witnessPay 0
  processConversions
  let paidForContent ← processContentCashout contentReward
  adjustFunds contentReward paidForContent
  processVestingWithdrawals
  updateVirtualSupply

instance : Writes settleBlock
    [.funds, .stakes, .listening, .pools, .catalogue, .rates, .feeds, .voting, .laps, .orders] :=
  ⟨by unfold settleBlock; infer_instance⟩

/-- Everything that `_apply_block` does after the transactions, in its order. -/
def finishBlock (b : SignedBlock) : DbM Unit := do
  updateGlobalDynamicData b.witness b.timestamp
  updateSigningWitness b.witness b.timestamp
  updateLastIrreversibleBlock
  clearExpiredProposals
  settleBlock
  accountRecoveryProcessing

/-- `_apply_block`: the header is checked, the transactions are applied, and the block is finished.
-/
def applyBlock (b : SignedBlock) : DbM Unit := do
  startBlock b
  b.transactions.forM applyTransaction
  finishBlock b

end BtcmChain
