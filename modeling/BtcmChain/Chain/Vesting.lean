import BtcmChain.Chain.Cashout

set_option autoImplicit false
set_option synthInstance.maxSize 10000000
set_option synthInstance.maxHeartbeats 200000

/-!
# Power-down and the return of delegations

Once a week an account that powers down turns a part of its vesting shares back into
BTCM (`processVestingWithdrawals`), or hands it on along its withdraw routes: as
vesting shares where the route is an auto-vesting one, as BTCM otherwise. Delegated
shares return to the delegator when their expiration object is cleared.

What is withdrawn is handed to the routes by their percentages, in two walks, one for the routes
that vest and one for the others, and what is left by rounding goes to the account itself
(`routeShare`, `withdrawFrom`). The walk over the accounts is in the order of their next
withdrawal, and moves on before the account is changed. An expiring delegation gives its shares
back and is removed (`returnDelegation`).
-/

namespace BtcmChain

/-- The routes of an account as the source iterates them: it starts *behind* the
route to account number 0. -/
def withdrawRoutesOf (from_ : AccountId) : DbM (List (Entry WithdrawVestingRouteObject)) :=
  withdrawVestingRouteIndex.rangeBy (fun r => r.fromAccount = from_ ∧ 0 < r.toAccount) (·.toAccount)

instance (a : AccountId) : Writes (withdrawRoutesOf a) [] :=
  ⟨by unfold withdrawRoutesOf; infer_instance⟩

/-! ## Withdrawals -/

/-- How many shares are due: the weekly rate, or the odd rest at the end. -/
def AccountStake.dueWithdrawal (a : AccountStake) : Except Exn ShareType := do
  let left ← safeSub a.toWithdraw a.withdrawn
  if left < a.vestingWithdrawRate then do
    let odd ← safeMod a.toWithdraw a.vestingWithdrawRate
    return min a.vestingShares odd
  else return min a.vestingShares a.vestingWithdrawRate

/-- The part of a withdrawal a route takes, in 128 bits. -/
def routeShare (toWithdraw : ShareType) (percent : UInt16) : Except Exn ShareType := do
  let q ← UInt128.div (UInt128.ofShare toWithdraw * BitVec.ofNat 128 percent.toNat) 10000
  let x ← UInt128.toUInt64 q
  return ShareType.ofUInt64 x

/-- The first pass: an auto-vesting route. Returns the shares deposited so far. -/
def depositVests (toWithdraw total : ShareType) (r : Entry WithdrawVestingRouteObject) :
    DbM ShareType :=
  if r.val.autoVest then do
    let toDeposit ← ofExcept (routeShare toWithdraw r.val.percent)
    let total' ← ofExcept (safeAdd total toDeposit)
    whenM (0 < toDeposit) do
      modifyStake r.val.toAccount fun a => do
        let vestingShares ← safeAdd a.vestingShares toDeposit
        return { a with vestingShares }
      adjustProxiedWitnessVotes r.val.toAccount toDeposit
      recursiveRecalculateScore r.val.toAccount toDeposit
    return total'
  else pure total

/-- Turn shares into BTCM on an account: credit, and take both out of the totals. -/
def creditConverted (to_ : AccountId) (shares : ShareType) (converted : Asset) : DbM Unit := do
  modifyFunds to_ fun f => do
    let x ← converted.amountOf BTCM_SYMBOL
    let balance ← safeAdd f.balance x
    return { f with balance }
  modifySupply fun p => do
    let x ← converted.amountOf BTCM_SYMBOL
    let totalVestingFundBtcm ← safeSub p.totalVestingFundBtcm x
    let totalVestingShares ← safeSub p.totalVestingShares shares
    return { p with totalVestingFundBtcm, totalVestingShares }

/-- What vesting shares are worth in BTCM, at the current vesting price. -/
def convertShares (shares : ShareType) : DbM Asset := do
  let price ← reads fun s => s.dgpo.vestingSharePrice
  ofExcept ((vests shares).mulPrice price)

/-- The second pass over the routes of a withdrawal: a route that pays BTCM. -/
def depositBtcm (toWithdraw total : ShareType) (r : Entry WithdrawVestingRouteObject) :
    DbM ShareType :=
  if r.val.autoVest then pure total
  else do
    let _ ← accountIndex.get r.val.toAccount
    let toDeposit ← ofExcept (routeShare toWithdraw r.val.percent)
    let total' ← ofExcept (safeAdd total toDeposit)
    let converted ← convertShares toDeposit
    whenM (0 < toDeposit) (creditConverted r.val.toAccount toDeposit converted)
    return total'

/-- The schedule of an account after a withdrawal: less shares, and a later date or none. -/
def AccountStake.withdraw (toWithdraw : ShareType) (a : AccountStake) : Except Exn AccountStake := do
  let vestingShares ← safeSub a.vestingShares toWithdraw
  let withdrawn ← safeAdd a.withdrawn toWithdraw
  if a.toWithdraw ≤ withdrawn ∨ vestingShares = 0 then
    return { a with
      vestingShares, withdrawn
      vestingWithdrawRate := 0
      nextVestingWithdrawal := 0xffffffff }
  else
    return { a with
      vestingShares, withdrawn
      nextVestingWithdrawal := a.nextVestingWithdrawal + 604800 }

/-- The part of `process_vesting_withdrawals` for one account. -/
def withdrawFrom (from_ : AccountId) : DbM Unit := do
  let acct ← accountIndex.get from_
  let toWithdraw ← ofExcept acct.dueWithdrawal
  let routes ← withdrawRoutesOf from_
  let asVests ← routes.foldlM (depositVests toWithdraw) 0
  let asBtcm ← routes.foldlM (depositBtcm toWithdraw) 0
  let rest ← ofExcept (safeSub toWithdraw asBtcm)
  let toConvert ← ofExcept (safeSub rest asVests)
  require (0 ≤ toConvert) "Deposited more vests than were supposed to be withdrawn"
  let converted ← convertShares toConvert
  modifyStake from_ (AccountStake.withdraw toWithdraw)
  creditConverted from_ toConvert converted
  whenM (0 < toWithdraw) do
    let minus ← ofExcept (safeNeg toWithdraw)
    adjustProxiedWitnessVotes from_ minus
    recursiveRecalculateScore from_ minus

instance (w t : ShareType) (r : Entry WithdrawVestingRouteObject) :
    Writes (depositVests w t r) [.stakes, .voting, .laps] := ⟨by unfold depositVests; infer_instance⟩
instance (a : AccountId) (x : ShareType) (c : Asset) : Writes (creditConverted a x c) [.funds, .voting] :=
  ⟨by unfold creditConverted; infer_instance⟩
instance (x : ShareType) : Writes (convertShares x) [] := ⟨by unfold convertShares; infer_instance⟩
instance (w t : ShareType) (r : Entry WithdrawVestingRouteObject) :
    Writes (depositBtcm w t r) [.funds, .voting] := ⟨by unfold depositBtcm; infer_instance⟩
instance (a : AccountId) : Writes (withdrawFrom a) [.funds, .stakes, .voting, .laps] :=
  ⟨by unfold withdrawFrom; infer_instance⟩

/-- Accounts by the time of their next withdrawal, then by number. -/
def Database.byNextWithdrawal (s : Database) : List (Nat × AccountObject) :=
  s.accounts.entries.insertionSort fun a b =>
    a.2.nextVestingWithdrawal.toNat ≤ b.2.nextVestingWithdrawal.toNat

/-- The account after `current` in the order of the dates. -/
def Database.nextAfter (s : Database) (current : AccountId) : Option AccountId :=
  ((s.byNextWithdrawal.dropWhile fun e => e.1 ≠ current).tail.head?).map Prod.fst

/-- The loop of `process_vesting_withdrawals`. The iterator moves on *before* the
account is changed, so an account whose next date is still in the past comes up
again only if it is then sorted behind the iterator. -/
def withdrawalsFrom (now : TimePointSec) : Nat → Option AccountId → DbM Unit
  | 0, current => current.elim (pure ()) fun _ => throw .outOfFuel
  | n + 1, current =>
      current.elim (pure ()) fun id => do
        let acct ← accountIndex.get id
        if acct.nextVestingWithdrawal ≤ now then do
          let next ← reads fun s => s.nextAfter id
          withdrawFrom id
          withdrawalsFrom now n next
        else pure ()

/-- `process_vesting_withdrawals`. The weeks of 32-bit time bound how often an
account can come up. -/
def processVestingWithdrawals : DbM Unit := do
  let now ← headBlockTime
  let size ← reads fun s => s.accounts.objs.size
  let first ← reads fun s => s.byNextWithdrawal.head?.map Prod.fst
  withdrawalsFrom now (7102 * size + 1) first

instance (t : TimePointSec) (n : Nat) (c : Option AccountId) :
    Writes (withdrawalsFrom t n c) [.funds, .stakes, .voting, .laps] := by
  induction n generalizing c with
  | zero => exact ⟨by unfold withdrawalsFrom; infer_instance⟩
  | succ n ih => exact ⟨by unfold withdrawalsFrom; infer_instance⟩

instance : Writes processVestingWithdrawals [.funds, .stakes, .voting, .laps] :=
  ⟨by unfold processVestingWithdrawals; infer_instance⟩

/-! ## Expired delegations -/

/-- One round of `clear_expired_delegations`: shares that are due return to the delegator. -/
def returnDelegation (e : Entry VestingDelegationExpirationObject) : DbM Unit := do
  let sp ← findStreamingPlatform e.val.delegator
  whenM sp.isSome (adjustTotalVestedByPlatforms e.val.vestingShares)
  let acct ← getAccount e.val.delegator
  modifyStake acct.id fun a => do
    let delegatedVestingShares ← safeSub a.delegatedVestingShares e.val.vestingShares
    return { a with delegatedVestingShares }
  vestingDelegationExpirationIndex.remove e.id

/-- `clear_expired_delegations`: all delegated shares that are due return, one round for each. -/
def clearExpiredDelegations : DbM Unit := do
  let now ← headBlockTime
  let size ← reads fun s => s.delegationExpirations.objs.size
  drain .outOfFuel
    (vestingDelegationExpirationIndex.due? (·.expiration.toNat) (·.expiration < now))
    (fun _ e => returnDelegation e) size ()

instance (e : Entry VestingDelegationExpirationObject) : Writes (returnDelegation e) [.stakes] :=
  ⟨by unfold returnDelegation; infer_instance⟩
instance : Writes clearExpiredDelegations [.stakes] :=
  ⟨by unfold clearExpiredDelegations; infer_instance⟩

end BtcmChain
