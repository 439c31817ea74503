import BtcmChain.Chain.Vesting

set_option autoImplicit false
set_option synthInstance.maxSize 10000000
set_option synthInstance.maxHeartbeats 200000

/-!
# Inflation

What a block mints: the producer's pay and the content reward. Both are booked up
front (`processFunds`); what the cashout did not pay out is taken back afterwards
(`adjustFunds`). The vesting reward of the source is fixed to zero.

The content reward is a share of the virtual supply (`calcPercentRewardPerDay`, rounded to nearest
in 128 bits) and the mining reward at least. Conversions of XUSD that are due are paid at the
median price (`processConversions`), and the virtual supply counts XUSD at that price
(`updateVirtualSupply`). Requests for recovery and old owner authorities that have expired are
cleared, and changes of recovery accounts that are due take effect, at the same place of a block
(`accountRecoveryProcessing`).
-/

namespace BtcmChain

/-- `BTCM_MINING_REWARD`, which every block pays its producer, and which is also the least content
reward. -/
def BTCM_MINING_REWARD : ShareType := 5000

/-- `calc_percent_reward< 5000, multiply, shift >` per day: the share of the supply,
rounded to nearest in 128 bits. -/
def calcPercentRewardPerDay (supply : ShareType) : Except Exn ShareType := do
  let product := UInt128.ofShare supply * BitVec.ofNat 128 (5000 * 0x369c2966a19c8)
  let amount ← UInt128.toUInt64 ((product + (1#128 <<< 75)) >>> 76)
  return ShareType.ofUInt64 amount

/-- `get_content_reward`: the share of the supply that contents get a block, or the mining reward if
that is more. -/
def getContentReward : DbM ShareType := do
  let supply ← reads fun s => s.dgpo.virtualSupply
  let amount ← ofExcept (calcPercentRewardPerDay supply)
  return max amount BTCM_MINING_REWARD

/-- `get_producer_reward`: vesting shares once voting has started or while the
witness has none, BTCM otherwise. -/
def getProducerReward : DbM ShareType := do
  let name ← reads fun s => s.dgpo.currentWitness
  let head ← reads fun s => s.dgpo.headBlockNumber
  let witness ← getAccount name
  if 28800 ≤ head ∨ witness.val.vestingShares = 0 then do
    let _ ← createVesting witness.id (btcm BTCM_MINING_REWARD)
    return BTCM_MINING_REWARD
  else do
    adjustBtcm witness.id BTCM_MINING_REWARD
    return BTCM_MINING_REWARD

/-- `process_funds`: what a block pays for contents, witnesses and vesting is added to the supply
and the funds. -/
def processFunds (contentReward witnessPay vestingReward : ShareType) : DbM Unit :=
  modifySupply fun p => do
    let totalVestingFundBtcm ← safeAdd p.totalVestingFundBtcm vestingReward
    let totalRewardFundBtcm ← safeAdd p.totalRewardFundBtcm contentReward
    let pay ← safeAdd contentReward witnessPay
    let minted ← safeAdd pay vestingReward
    let currentSupply ← safeAdd p.currentSupply minted
    let virtualSupply ← safeAdd p.virtualSupply minted
    return { p with totalVestingFundBtcm, totalRewardFundBtcm, currentSupply, virtualSupply }

/-- `adjust_funds`: what was booked for content and not paid is taken back. -/
def adjustFunds (contentReward paidToContent : ShareType) : DbM Unit :=
  modifySupply fun p => do
    let delta ← safeSub contentReward paidToContent
    let totalRewardFundBtcm ← safeSub p.totalRewardFundBtcm delta
    let currentSupply ← safeSub p.currentSupply delta
    let virtualSupply ← safeSub p.virtualSupply delta
    let none_ ← safeSub delta delta
    let supplyDelta ← safeAdd p.supplyDelta none_
    return { p with totalRewardFundBtcm, currentSupply, virtualSupply, supplyDelta }

/-- What the conversions of a block amount to, in both currencies. -/
structure Converted where
  netMbd : ShareType := 0
  netBtcm : ShareType := 0

/-- One conversion request that is due: the amount is converted at the median price, and the request
removed. -/
def convertRequest (median : Price) (acc : Converted) (r : Entry ConvertRequestObject) :
    DbM Converted := do
  let user ← getAccount r.val.owner
  let issued ← ofExcept (r.val.amount.mulPrice median)
  adjustBalance user.id issued
  let x ← ofExcept (r.val.amount.amountOf XUSD_SYMBOL)
  let netMbd ← ofExcept (safeAdd acc.netMbd x)
  let y ← ofExcept (issued.amountOf BTCM_SYMBOL)
  let netBtcm ← ofExcept (safeAdd acc.netBtcm y)
  convertRequestIndex.remove r.id
  return { netMbd, netBtcm }

/-- `process_conversions`: all requests that are due are converted, and the supplies adjusted by
what they amount to. -/
def processConversions : DbM Unit := do
  let now ← headBlockTime
  let median ← reads fun s => s.feedHistory.effectiveMedianHistory
  whenM (!median.isNull) do
    let size ← reads fun s => s.convertRequests.objs.size
    let c ← drain .outOfFuel
      (convertRequestIndex.due? (·.conversionDate.toNat) (·.conversionDate ≤ now))
      (convertRequest median) size {}
    modifySupply fun p => do
      let currentSupply ← safeAdd p.currentSupply c.netBtcm
      let currentMbdSupply ← safeSub p.currentMbdSupply c.netMbd
      let more ← safeAdd p.virtualSupply c.netBtcm
      let worth ← (xusd c.netMbd).mulPrice median
      let x ← worth.amountOf BTCM_SYMBOL
      let virtualSupply ← safeSub more x
      return { p with currentSupply, currentMbdSupply, virtualSupply }

/-- `update_virtual_supply`: the supply of BTCM, with XUSD counted at the median price. -/
def updateVirtualSupply : DbM Unit := do
  let median ← reads fun s => s.feedHistory.effectiveMedianHistory
  modifySupply fun p => do
    let worth ← if median.isNull then pure (btcm 0) else (xusd p.currentMbdSupply).mulPrice median
    let total ← (btcm p.currentSupply).add worth
    let virtualSupply ← total.amountOf BTCM_SYMBOL
    return { p with virtualSupply }

instance : Writes getContentReward [] := ⟨by unfold getContentReward; infer_instance⟩
instance : Writes getProducerReward [.funds, .stakes, .voting, .laps] :=
  ⟨by unfold getProducerReward; infer_instance⟩
instance (c w v : ShareType) : Writes (processFunds c w v) [.funds] :=
  ⟨by unfold processFunds; infer_instance⟩
instance (c p : ShareType) : Writes (adjustFunds c p) [.funds] :=
  ⟨by unfold adjustFunds; infer_instance⟩
instance (m : Price) (c : Converted) (r : Entry ConvertRequestObject) :
    Writes (convertRequest m c r) [.funds] := ⟨by unfold convertRequest; infer_instance⟩
instance : Writes processConversions [.funds] := ⟨by unfold processConversions; infer_instance⟩
instance : Writes updateVirtualSupply [.funds] := ⟨by unfold updateVirtualSupply; infer_instance⟩

/-! ## Recovery -/

/-- `account_recovery_processing`: requests and authorities that have expired go, and changes that
are due take effect. -/
def accountRecoveryProcessing : DbM Unit := do
  let now ← headBlockTime
  let requests ← reads fun s => s.recoveryRequests.objs.size
  drain .outOfFuel (accountRecoveryRequestIndex.due? (·.expires.toNat) (·.expires ≤ now))
    (fun _ r => accountRecoveryRequestIndex.remove r.id) requests ()
  let histories ← reads fun s => s.ownerHistory.objs.size
  drain .outOfFuel (ownerAuthorityHistoryIndex.due? (fun _ => 0) (·.lastValidTime + 2592000 < now))
    (fun _ h => ownerAuthorityHistoryIndex.remove h.id) histories ()
  let changes ← reads fun s => s.changeRecoveryRequests.objs.size
  drain .outOfFuel
    (changeRecoveryAccountRequestIndex.due? (·.effectiveOn.toNat) (·.effectiveOn ≤ now))
    (fun _ c => do
      let acct ← getAccount c.val.accountToRecover
      modifyProfile acct.id fun p => .ok { p with recoveryAccount := c.val.recoveryAccount }
      changeRecoveryAccountRequestIndex.remove c.id) changes ()

instance : Writes accountRecoveryProcessing [] :=
  ⟨by unfold accountRecoveryProcessing; infer_instance⟩

end BtcmChain
