import BtcmChain.Chain.Votes

set_option autoImplicit false
set_option synthInstance.maxSize 10000000
set_option synthInstance.maxHeartbeats 200000

/-!
# Balances, supplies and vesting

The primitives through which money moves. BTCM and XUSD balances are fields of the
account and change without a floor; a user-issued balance lives in an object of its
own, created at the first deposit, and may not go below zero. Touching an XUSD
balance first *accrues interest*: the balance-seconds since the last touch are
added up and, once a month has passed, paid out of newly booked supply.
-/

namespace BtcmChain

/-- Assert that an amount is one of this asset, and drop the asset. -/
def Asset.amountOf (a : Asset) (id : AssetId) : Except Exn ShareType :=
  if a.assetId = id then .ok a.amount else .error (.assert "asset_id == o.asset_id")

@[simp] theorem Asset.amountOf_ok {a : Asset} {id : AssetId} {x : ShareType} :
    a.amountOf id = .ok x ↔ a.assetId = id ∧ x = a.amount := by
  simp only [amountOf]
  split
  case isTrue h => simp only [Except.ok.injEq, h, true_and]; exact eq_comm
  case isFalse h => simp [h]

/-! ## Interest -/

/-- The interest on accumulated balance-seconds: `seconds / year * rate / 100%`, in
128 bits, asserted to fit 64 unsigned bits and then read as signed. -/
def interestOn (seconds : UInt128) (rate : UInt16) : Except Exn ShareType := do
  let perYear ← UInt128.div seconds 31536000
  let scaled ← UInt128.div (perYear * BitVec.ofNat 128 rate.toNat) 10000
  let interest ← UInt128.toUInt64 scaled
  return ShareType.ofUInt64 interest

/-- The state of an XUSD balance after accrual, and the interest paid if any. -/
structure Accrual where
  funds : AccountFunds
  interest : Option ShareType

/-- The seconds from `b` to `a`, as the 128-bit factor of the source. -/
def secondsBetween (a b : TimePointSec) : ℤ := (a.toNat : ℤ) - b.toNat

/-- The accrual of interest inside `adjust_balance`: seconds are added up, and interest is paid when
it is due. -/
def accrue (now : TimePointSec) (rate : UInt16) (f : AccountFunds) : Except Exn Accrual :=
  if f.mbdSecondsLastUpdate = now then .ok ⟨f, none⟩
  else
    let seconds := f.mbdSeconds +
      UInt128.ofShare f.mbdBalance * BitVec.ofInt 128 (secondsBetween now f.mbdSecondsLastUpdate)
    if seconds ≠ 0 ∧ 2592000 < secondsBetween now f.mbdLastInterestPayment then do
      let interest ← interestOn seconds rate
      let balance ← safeAdd f.mbdBalance interest
      return {
        funds := { f with
          mbdBalance := balance
          mbdSeconds := 0
          mbdSecondsLastUpdate := now
          mbdLastInterestPayment := now }
        interest := some interest }
    else
      .ok ⟨{ f with mbdSeconds := seconds, mbdSecondsLastUpdate := now }, none⟩

/-- Book interest that was paid: XUSD supply, and the virtual supply it stands for. -/
def bookInterest (interest : ShareType) : DbM Unit := do
  let median ← reads fun s => s.feedHistory.effectiveMedianHistory
  modifySupply fun p => do
    let mbd ← safeAdd p.currentMbdSupply interest
    let worth ← (xusd interest).mulPrice median
    let x ← worth.amountOf BTCM_SYMBOL
    let virtualSupply ← safeAdd p.virtualSupply x
    return { p with currentMbdSupply := mbd, virtualSupply }

/-! ## `adjust_balance` -/

/-- The branch of `adjust_balance` for BTCM. -/
def adjustBtcm (a : AccountId) (delta : ShareType) : DbM Unit :=
  modifyFunds a fun f => do
    let balance ← safeAdd f.balance delta
    return { f with balance }

/-- The branch of `adjust_balance` for XUSD, which accrues interest first. -/
def adjustMbd (a : AccountId) (delta : ShareType) : DbM Unit := do
  let acct ← accountIndex.get a
  let now ← headBlockTime
  let rate ← reads fun s => s.dgpo.mbdInterestRate
  let accrued ← ofExcept (accrue now rate acct.toAccountFunds)
  accrued.interest.elim (pure ()) bookInterest
  modifyFunds a fun _ => do
    let mbdBalance ← safeAdd accrued.funds.mbdBalance delta
    return { accrued.funds with mbdBalance }

/-- The branch of `adjust_balance` for every other asset, whose balances are objects of their own.
-/
def adjustUserIssued (a : AccountId) (delta : Asset) : DbM Unit :=
  if delta.amount = 0 then pure ()
  else do
    let entry ← accountBalanceIndex.findBy? fun b => b.owner = a ∧ b.assetType = delta.assetId
    entry.elim
      (do
        require (0 < delta.amount) "Insufficient Balance: ${a}'s balance of ${b} is less than required ${r}"
        let _ ← accountBalanceIndex.create
          { owner := a, assetType := delta.assetId, balance := delta.amount })
      fun e => do
        whenM (delta.amount < 0) do
          let required ← ofExcept (safeNeg delta.amount)
          require (required ≤ e.val.balance)
            "Insufficient Balance: ${a}'s balance of ${b} is less than required ${r}"
        accountBalanceIndex.modify e.id fun b => do
          let balance ← safeAdd b.balance delta.amount
          return { b with balance }

/-- `adjust_balance`: so much more of an asset, or less, for an account. -/
def adjustBalance (a : AccountId) (delta : Asset) : DbM Unit :=
  if delta.assetId = BTCM_SYMBOL then adjustBtcm a delta.amount
  else if delta.assetId = XUSD_SYMBOL then adjustMbd a delta.amount
  else adjustUserIssued a delta

/-- `get_balance`: how much of an asset an account has. -/
def getBalance (a : AccountId) (symbol : AssetId) : DbM Asset := do
  let acct ← accountIndex.get a
  if symbol = BTCM_SYMBOL then return btcm acct.balance
  else if symbol = XUSD_SYMBOL then return xusd acct.mbdBalance
  else do
    let entry ← accountBalanceIndex.findBy? fun b => b.owner = a ∧ b.assetType = symbol
    return ⟨entry.elim 0 fun e => e.val.balance, symbol⟩

/-! ## Supplies and fees -/

/-- `adjust_supply`: the supply of BTCM or XUSD changes, and with it the virtual supply and, for new
BTCM, the vesting fund. -/
def adjustSupply (delta : Asset) (adjustVesting : Bool := false) : DbM Unit := do
  let head ← reads fun s => s.dgpo.headBlockNumber
  let median ← reads fun s => s.feedHistory.effectiveMedianHistory
  if delta.assetId = BTCM_SYMBOL then
    modifySupply fun p => do
      let newVesting ←
        if adjustVesting ∧ ¬ head < 201600 ∧ 0 < delta.amount then safeMul delta.amount 9 else pure 0
      let total ← safeAdd delta.amount newVesting
      let currentSupply ← safeAdd p.currentSupply total
      let virtualSupply ← safeAdd p.virtualSupply total
      let totalVestingFundBtcm ← safeAdd p.totalVestingFundBtcm newVesting
      return { p with currentSupply, virtualSupply, totalVestingFundBtcm }
  else if delta.assetId = XUSD_SYMBOL then
    modifySupply fun p => do
      let currentMbdSupply ← safeAdd p.currentMbdSupply delta.amount
      let worth ← (xusd currentMbdSupply).mulPrice median
      let virtual ← worth.add (btcm p.currentSupply)
      let virtualSupply ← virtual.amountOf BTCM_SYMBOL
      return { p with currentMbdSupply, virtualSupply }
  else throw (.assert "!\"invalid symbol\"")

/-- `pay_fee`: the fee is taken from the account and burned. -/
def payFee (account : AccountId) (fee : Asset) : DbM Unit := do
  require (0 ≤ fee.amount) "fee.amount >= 0"
  if fee.amount = 0 then pure ()
  else do
    let debit ← ofExcept fee.neg
    adjustBalance account debit
    adjustSupply debit

/-! ## Vesting -/

/-- `get_vesting_share_price`: the fund by the shares, or one by one while there is neither. -/
def GlobalSupply.vestingSharePrice (p : GlobalSupply) : Price :=
  if p.totalVestingFundBtcm = 0 ∨ p.totalVestingShares = 0 then ⟨btcm 1, vests 1⟩
  else ⟨vests p.totalVestingShares, btcm p.totalVestingFundBtcm⟩

/-- `create_vesting`: turn BTCM into vesting shares at the current ratio. -/
def createVesting (to_ : AccountId) (amount : Asset) : DbM Asset := do
  let price ← reads fun s => s.dgpo.vestingSharePrice
  let newVesting ← ofExcept (amount.mulPrice price)
  let shares ← ofExcept (newVesting.amountOf VESTS_SYMBOL)
  modifyStake to_ fun a => do
    let vestingShares ← safeAdd a.vestingShares shares
    return { a with vestingShares }
  let acct ← accountIndex.get to_
  let sp ← findStreamingPlatform acct.name
  modifySupply fun p => do
    let x ← amount.amountOf BTCM_SYMBOL
    let totalVestingFundBtcm ← safeAdd p.totalVestingFundBtcm x
    let totalVestingShares ← safeAdd p.totalVestingShares shares
    return { p with totalVestingFundBtcm, totalVestingShares }
  whenM sp.isSome (adjustTotalVestedByPlatforms shares)
  adjustProxiedWitnessVotes to_ shares
  recursiveRecalculateScore to_ shares
  return newVesting

/-- `create_mbd`: turn BTCM into XUSD at the median feed, if there is a feed. -/
def createMbd (to_ : AccountId) (amount : Asset) : DbM Asset :=
  if amount.amount = 0 then return xusd 0
  else do
    let median ← reads fun s => s.feedHistory.actualMedianHistory
    if median.isNull then do
      adjustBalance to_ amount
      return amount
    else do
      let mbd ← ofExcept (amount.mulPrice median)
      adjustBalance to_ mbd
      let debit ← ofExcept amount.neg
      adjustSupply debit
      adjustSupply mbd
      return mbd

/-! ## Inversion -/

section Inversion

variable {s s' : Database} {a : AccountId}

/-- The state with other liquid holdings on an account, and all else as it was. -/
def Database.withFunds (s : Database) (a : AccountId) (acct : AccountObject) (f : AccountFunds) :
    Database :=
  { s with accounts := s.accounts.update a fun _ => { acct with toAccountFunds := f } }

theorem runs_adjustBtcm {delta : ShareType} (h : Runs (adjustBtcm a delta) s () s') :
    ∃ (acct : AccountObject) (x : ShareType), s.accounts.find? a = some acct ∧
      x.toInt = acct.balance.toInt + delta.toInt ∧
      s' = s.withFunds a acct { acct.toAccountFunds with balance := x } := by
  obtain ⟨acct, f, hacct, hf, rfl⟩ := runs_modifyFunds.mp h
  simp only [except_bind_ok, except_pure_ok, safeAdd_ok] at hf
  obtain ⟨x, hx, rfl⟩ := hf
  exact ⟨acct, x, hacct, hx, rfl⟩

/-- Accrual pays the interest into the XUSD balance and touches no BTCM. -/
theorem accrue_ok {now : TimePointSec} {rate : UInt16} {f : AccountFunds} {r : Accrual}
    (h : accrue now rate f = .ok r) :
    r.funds.balance = f.balance ∧
      r.funds.mbdBalance.toInt = f.mbdBalance.toInt + r.interest.elim 0 Int64.toInt := by
  simp only [accrue] at h
  split at h
  · cases h
    simp
  · split at h
    · simp only [except_bind_ok, except_pure_ok, safeAdd_ok] at h
      obtain ⟨i, -, x, hx, rfl⟩ := h
      exact ⟨rfl, hx⟩
    · cases h
      simp

/-- Booking interest raises the XUSD supply and leaves the BTCM in the books alone. -/
theorem runs_bookInterest {i : ShareType} (h : Runs (bookInterest i) s () s') :
    ∃ p : GlobalSupply, p.currentMbdSupply.toInt = s.dgpo.currentMbdSupply.toInt + i.toInt ∧
      p.currentSupply = s.dgpo.currentSupply ∧
      p.totalVestingFundBtcm = s.dgpo.totalVestingFundBtcm ∧
      s' = { s with dgpo := { s.dgpo with toGlobalSupply := p } } := by
  rw [bookInterest, runs_bind_reads] at h
  obtain ⟨p, hp, rfl⟩ := runs_modifySupply.mp h
  simp only [except_bind_ok, except_pure_ok, safeAdd_ok] at hp
  obtain ⟨mbd, hmbd, _, -, _, -, v, -, rfl⟩ := hp
  exact ⟨{ s.dgpo.toGlobalSupply with currentMbdSupply := mbd, virtualSupply := v }, hmbd, rfl, rfl,
    rfl⟩

/-- The XUSD branch accrues, books the interest, and adds the amount. -/
theorem runs_adjustMbd {delta : ShareType} (h : Runs (adjustMbd a delta) s () s') :
    ∃ (acct : AccountObject) (r : Accrual) (x : ShareType) (p : GlobalSupply),
      s.accounts.find? a = some acct ∧
      accrue s.dgpo.time s.dgpo.mbdInterestRate acct.toAccountFunds = .ok r ∧
      x.toInt = r.funds.mbdBalance.toInt + delta.toInt ∧
      p.currentMbdSupply.toInt = s.dgpo.currentMbdSupply.toInt + r.interest.elim 0 Int64.toInt ∧
      p.currentSupply = s.dgpo.currentSupply ∧
      p.totalVestingFundBtcm = s.dgpo.totalVestingFundBtcm ∧
      s' = Database.withFunds { s with dgpo := { s.dgpo with toGlobalSupply := p } } a acct
        { r.funds with mbdBalance := x } := by
  simp only [adjustMbd, runs_bind_get, runs_bind_headBlockTime, runs_bind_reads,
    runs_bind_ofExcept] at h
  obtain ⟨acct, hacct, r, hr, h⟩ := h
  rw [runs_bind] at h
  obtain ⟨_, t, hbook, h⟩ := h
  have hbooked : ∃ p : GlobalSupply,
      p.currentMbdSupply.toInt = s.dgpo.currentMbdSupply.toInt + r.interest.elim 0 Int64.toInt ∧
      p.currentSupply = s.dgpo.currentSupply ∧
      p.totalVestingFundBtcm = s.dgpo.totalVestingFundBtcm ∧
      t = { s with dgpo := { s.dgpo with toGlobalSupply := p } } := by
    cases hi : r.interest with
    | none =>
        rw [hi] at hbook
        obtain ⟨-, rfl⟩ := runs_pure.mp hbook
        exact ⟨t.dgpo.toGlobalSupply, by simp, rfl, rfl, rfl⟩
    | some i =>
        rw [hi] at hbook
        exact runs_bookInterest hbook
  obtain ⟨p, hp, hsupply, hfund, rfl⟩ := hbooked
  obtain ⟨acct', f, hacct', hf, rfl⟩ := runs_modifyFunds.mp h
  obtain rfl := Option.some.inj (hacct.symm.trans hacct')
  simp only [except_bind_ok, except_pure_ok, safeAdd_ok] at hf
  obtain ⟨x, hx, rfl⟩ := hf
  exact ⟨acct, r, x, p, hacct, hr, hx, hp, hsupply, hfund, rfl⟩

/-- A user-issued balance is created by a deposit, and never falls below zero. -/
theorem runs_adjustUserIssued {delta : Asset} (h : Runs (adjustUserIssued a delta) s () s') :
    delta.amount = 0 ∧ s' = s ∨
      0 < delta.amount.toInt ∧
        s.accountBalances.findBy? (fun b => b.owner = a ∧ b.assetType = delta.assetId) = none ∧
        s' = { s with accountBalances :=
          s.accountBalances.create { owner := a, assetType := delta.assetId, balance := delta.amount } } ∨
      ∃ (k : Nat) (b : AccountBalanceObject) (x : ShareType),
        s.accountBalances.find? k = some b ∧ b.owner = a ∧ b.assetType = delta.assetId ∧
        x.toInt = b.balance.toInt + delta.amount.toInt ∧ (delta.amount.toInt < 0 → 0 ≤ x.toInt) ∧
        s' = { s with accountBalances :=
          s.accountBalances.update k fun _ => { b with balance := x } } := by
  rw [adjustUserIssued, runs_ite] at h
  rcases h with ⟨hz, h⟩ | ⟨-, h⟩
  · exact Or.inl ⟨hz, (runs_pure.mp h).2⟩
  rw [runs_bind_findBy?] at h
  change Runs (Option.elim (Option.map _ (s.accountBalances.findBy? _)) _ _) s () s' at h
  cases hfind : s.accountBalances.findBy? (fun b => b.owner = a ∧ b.assetType = delta.assetId) with
  | none =>
      rw [hfind] at h
      simp only [Option.map_none, Option.elim_none, runs_bind_require, runs_bind_create, runs_pure] at h
      obtain ⟨hpos, -, -, rfl⟩ := h
      refine Or.inr (Or.inl ⟨?_, rfl, rfl⟩)
      have hpos := of_decide_eq_true hpos
      rwa [Int64.lt_iff_toInt_lt, Int64.toInt_zero] at hpos
  | some e =>
      obtain ⟨k, b⟩ := e
      rw [hfind] at h
      simp only [Option.map_some, Option.elim_some] at h
      rw [runs_bind] at h
      obtain ⟨_, t, hfloor, h⟩ := h
      obtain ⟨hb, hp⟩ := ObjectIndex.find?_of_findBy? hfind
      obtain ⟨howner, htype⟩ := of_decide_eq_true hp
      have hstill : t = s ∧ (delta.amount.toInt < 0 → 0 ≤ b.balance.toInt + delta.amount.toInt) := by
        rcases runs_whenM.mp hfloor with ⟨hneg, hr⟩ | ⟨hneg, rfl⟩
        · simp only [runs_bind_ofExcept, runs_require, safeNeg_ok] at hr
          obtain ⟨r, hr, hle, rfl⟩ := hr
          have hle := of_decide_eq_true hle
          rw [Int64.le_iff_toInt_le] at hle
          exact ⟨rfl, fun _ => by omega⟩
        · have hneg := of_decide_eq_false hneg
          rw [Int64.lt_iff_toInt_lt, Int64.toInt_zero] at hneg
          exact ⟨rfl, fun h => absurd h hneg⟩
      obtain ⟨rfl, hleft⟩ := hstill
      obtain ⟨b', c, hb', hc, rfl⟩ := Table.runs_modify.mp h
      obtain rfl := Option.some.inj (hb.symm.trans hb')
      simp only [except_bind_ok, except_pure_ok, safeAdd_ok] at hc
      obtain ⟨x, hx, rfl⟩ := hc
      exact Or.inr (Or.inr ⟨k, b, x, hb, howner, htype, hx, fun h => hx ▸ hleft h, rfl⟩)

/-- A run of `adjust_balance` is one of its three branches, which the asset decides about. -/
theorem runs_adjustBalance {delta : Asset} (h : Runs (adjustBalance a delta) s () s') :
    delta.assetId = BTCM_SYMBOL ∧ Runs (adjustBtcm a delta.amount) s () s' ∨
      delta.assetId = XUSD_SYMBOL ∧ Runs (adjustMbd a delta.amount) s () s' ∨
      (delta.assetId ≠ BTCM_SYMBOL ∧ delta.assetId ≠ XUSD_SYMBOL) ∧
        Runs (adjustUserIssued a delta) s () s' := by
  rcases runs_ite.mp h with ⟨hid, h⟩ | ⟨hid, h⟩
  · exact Or.inl ⟨hid, h⟩
  · rcases runs_ite.mp h with ⟨hid', h⟩ | ⟨hid', h⟩
    · exact Or.inr (Or.inl ⟨hid', h⟩)
    · exact Or.inr (Or.inr ⟨⟨hid, hid'⟩, h⟩)

/-- `adjust_balance` touches accounts, their balance objects and the books, no other table. -/
theorem adjustBalance_tables {delta : Asset} (h : Runs (adjustBalance a delta) s () s') :
    s'.limitOrders = s.limitOrders ∧ s'.assets = s.assets ∧ s'.convertRequests = s.convertRequests ∧
      s'.balances = s.balances ∧ s'.toRegistry = s.toRegistry := by
  rcases runs_adjustBalance h with ⟨-, h⟩ | ⟨-, h⟩ | ⟨-, h⟩
  · obtain ⟨_, _, -, -, rfl⟩ := runs_adjustBtcm h
    exact ⟨rfl, rfl, rfl, rfl, rfl⟩
  · obtain ⟨_, _, _, _, -, -, -, -, -, -, rfl⟩ := runs_adjustMbd h
    exact ⟨rfl, rfl, rfl, rfl, rfl⟩
  · rcases runs_adjustUserIssued h with ⟨-, rfl⟩ | ⟨-, -, rfl⟩ | ⟨_, _, _, -, -, -, -, -, rfl⟩ <;>
      exact ⟨rfl, rfl, rfl, rfl, rfl⟩

/-- What `get_balance` finds of an asset on an account, in a given state. -/
def Database.balanceOn (s : Database) (a : AccountId) (acct : AccountObject) (symbol : AssetId) :
    ShareType :=
  if symbol = BTCM_SYMBOL then acct.balance
  else if symbol = XUSD_SYMBOL then acct.mbdBalance
  else (s.accountBalances.findBy? fun b => b.owner = a ∧ b.assetType = symbol).elim 0
    fun e => e.2.balance

theorem runs_bind_getBalance {β : Type} {symbol : AssetId} {f : Asset → DbM β} {b : β} :
    Runs (getBalance a symbol >>= f) s b s' ↔
      ∃ acct, s.accounts.find? a = some acct ∧ Runs (f ⟨s.balanceOn a acct symbol, symbol⟩) s b s' := by
  have hstill : ∀ r t, Runs (getBalance a symbol) s r t ↔
      (∃ acct, s.accounts.find? a = some acct ∧ r = ⟨s.balanceOn a acct symbol, symbol⟩) ∧ t = s := by
    intro r t
    simp only [getBalance, runs_bind_get, runs_ite, runs_bind_findBy?, runs_pure,
      Database.balanceOn]
    constructor
    · rintro ⟨acct, hacct, ⟨rfl, rfl, rfl⟩ | ⟨h1, ⟨rfl, rfl, rfl⟩ | ⟨h2, rfl, rfl⟩⟩⟩
      · exact ⟨⟨acct, hacct, by simp [btcm]⟩, rfl⟩
      · exact ⟨⟨acct, hacct, by simp [xusd, h1]⟩, rfl⟩
      · refine ⟨⟨acct, hacct, ?_⟩, rfl⟩
        simp only [h1, h2, if_false, Option.elim_map]
        rfl
    · rintro ⟨⟨acct, hacct, rfl⟩, rfl⟩
      refine ⟨acct, hacct, ?_⟩
      by_cases h1 : symbol = BTCM_SYMBOL
      · exact Or.inl ⟨h1, by simp [btcm, h1], rfl⟩
      · by_cases h2 : symbol = XUSD_SYMBOL
        · subst h2
          exact Or.inr ⟨h1, Or.inl ⟨rfl, by simp [xusd, h1], rfl⟩⟩
        · refine Or.inr ⟨h1, Or.inr ⟨h2, ?_, rfl⟩⟩
          simp only [h1, h2, if_false, Option.elim_map]
          rfl
  rw [runs_bind_of_still hstill]
  constructor
  · intro h
    obtain ⟨r, ⟨acct, hacct, hr⟩, h⟩ := h
    exact ⟨acct, hacct, hr ▸ h⟩
  · intro h
    obtain ⟨acct, hacct, h⟩ := h
    exact ⟨_, ⟨acct, hacct, rfl⟩, h⟩

/-- The state right after `create_vesting` booked the shares, before votes and scores. -/
def Database.vested (s : Database) (to_ : AccountId) (acct : AccountObject) (vestingShares : ShareType)
    (p : GlobalSupply) (byPlatforms : ShareType) : Database :=
  { s with
    accounts := s.accounts.update to_ fun _ =>
      { acct with toAccountStake := { acct.toAccountStake with vestingShares } }
    dgpo := { s.dgpo with toGlobalSupply := p, totalVestedByPlatforms := byPlatforms } }

/-- What `create_vesting` does: the shares go to the account, the BTCM into the fund, and
the platforms' total follows if the account is a platform. -/
structure Vests (to_ : AccountId) (amount : Asset) (shares : ShareType) (s s' : Database)
    (acct : AccountObject) (vestingShares : ShareType) (p : GlobalSupply)
    (byPlatforms : ShareType) : Prop where
  account : s.accounts.find? to_ = some acct
  isBtcm : amount.assetId = BTCM_SYMBOL
  price : amount.mulPrice s.dgpo.vestingSharePrice = .ok (vests shares)
  shares_eq : vestingShares.toInt = acct.vestingShares.toInt + shares.toInt
  fund_eq : p.totalVestingFundBtcm.toInt = s.dgpo.totalVestingFundBtcm.toInt + amount.amount.toInt
  total_eq : p.totalVestingShares.toInt = s.dgpo.totalVestingShares.toInt + shares.toInt
  supply_eq : p.currentSupply = s.dgpo.currentSupply
  mbdSupply_eq : p.currentMbdSupply = s.dgpo.currentMbdSupply
  byPlatforms_eq : byPlatforms.toInt = s.dgpo.totalVestedByPlatforms.toInt +
    if (s.platformOf acct.name).isSome then shares.toInt else 0
  /-- Then the shares go up the chain of proxies; the scores after that are no concern's. -/
  tallied : ∃ t, Runs (adjustProxiedWitnessVotes to_ shares)
    (s.vested to_ acct vestingShares p byPlatforms) () t ∧ ∀ i, Cut.same i t s'

/-- Once a deposit has booked its shares, nothing but the tallies of votes still changes. -/
theorem Vests.same {to_ : AccountId} {amount : Asset} {shares vestingShares byPlatforms : ShareType}
    {acct : AccountObject} {p : GlobalSupply} {i : Concern}
    (h : Vests to_ amount shares s s' acct vestingShares p byPlatforms)
    (hi : i ∉ [Concern.voting, .laps]) :
    Cut.same i (s.vested to_ acct vestingShares p byPlatforms) s' := by
  obtain ⟨t, ht, hsame⟩ := h.tallied
  exact Cut.same_trans (Writes.within.same hi ht) (hsame i)

theorem runs_createVesting {to_ : AccountId} {amount r : Asset}
    (h : Runs (createVesting to_ amount) s r s') :
    ∃ shares acct vestingShares p byPlatforms, r = vests shares ∧
      Vests to_ amount shares s s' acct vestingShares p byPlatforms := by
  simp only [createVesting, runs_bind_reads, runs_bind_ofExcept, Asset.amountOf_ok] at h
  obtain ⟨newVesting, hprice, shares, ⟨hvests, rfl⟩, h⟩ := h
  have hnew : newVesting = vests newVesting.amount := by
    cases newVesting
    cases hvests
    rfl
  rw [runs_bind] at h
  obtain ⟨_, t1, h1, h⟩ := h
  obtain ⟨acct, stake, hacct, hstake, rfl⟩ := runs_modifyStake.mp h1
  simp only [except_bind_ok, except_pure_ok, safeAdd_ok] at hstake
  obtain ⟨x, hx, rfl⟩ := hstake
  rw [runs_bind_get] at h
  obtain ⟨acct', hacct', h⟩ := h
  have hacct' : (s.accounts.update to_ fun _ =>
      { acct with toAccountStake := { acct.toAccountStake with vestingShares := x } }).find? to_ =
        some acct' := hacct'
  rw [ObjectIndex.find?_update, if_pos rfl, hacct] at hacct'
  obtain rfl := Option.some.inj hacct'
  rw [runs_bind_findStreamingPlatform, runs_bind] at h
  obtain ⟨_, t2, h2, h⟩ := h
  obtain ⟨p, hp, rfl⟩ := runs_modifySupply.mp h2
  simp only [except_bind_ok, except_pure_ok, safeAdd_ok, Asset.amountOf_ok] at hp
  obtain ⟨y, ⟨hbtcm, rfl⟩, fund, hfund, total, htotal, rfl⟩ := hp
  rw [runs_bind] at h
  obtain ⟨_, t3, h3, h⟩ := h
  rw [runs_bind] at h
  obtain ⟨_, t4, h4, h⟩ := h
  rw [runs_bind] at h
  obtain ⟨_, t5, h5, h⟩ := h
  obtain ⟨rfl, rfl⟩ := runs_pure.mp h
  have hsame : ∀ i, Cut.same i t4 s' := fun i => Writes.within.same List.not_mem_nil h5
  rcases runs_whenM.mp h3 with ⟨hsp, h3⟩ | ⟨hsp, rfl⟩
  · obtain ⟨v, hv, rfl⟩ := runs_adjustTotalVestedByPlatforms.mp h3
    refine ⟨_, acct, x, { s.dgpo.toGlobalSupply with
      totalVestingFundBtcm := fund, totalVestingShares := total }, v, hnew, hacct, hbtcm, hnew ▸ hprice, hx, hfund, htotal, rfl, rfl, ?_, t4, h4, hsame⟩
    rw [Option.isSome_map] at hsp
    have hsp : (s.platformOf acct.name).isSome = true := hsp
    rw [if_pos hsp]
    exact hv
  · refine ⟨_, acct, x, { s.dgpo.toGlobalSupply with
      totalVestingFundBtcm := fund, totalVestingShares := total }, s.dgpo.totalVestedByPlatforms, hnew,
      hacct, hbtcm, hnew ▸ hprice, hx, hfund, htotal, rfl, rfl, ?_, t4, h4, hsame⟩
    rw [Option.isSome_map] at hsp
    have hsp : ¬ (s.platformOf acct.name).isSome = true := by
      rw [Bool.not_eq_true]
      exact hsp
    rw [if_neg hsp, add_zero]

/-- `create_mbd`: nothing for nothing, BTCM while there is no feed, XUSD otherwise. -/
theorem runs_createMbd {to_ : AccountId} {amount r : Asset} (h : Runs (createMbd to_ amount) s r s') :
    amount.amount = 0 ∧ s' = s ∨
      amount.amount ≠ 0 ∧ s.feedHistory.actualMedianHistory.isNull = true ∧
        Runs (adjustBalance to_ amount) s () s' ∨
      amount.amount ≠ 0 ∧ s.feedHistory.actualMedianHistory.isNull = false ∧
        ∃ mbd debit t u, amount.mulPrice s.feedHistory.actualMedianHistory = .ok mbd ∧
          amount.neg = .ok debit ∧ Runs (adjustBalance to_ mbd) s () t ∧
          Runs (adjustSupply debit) t () u ∧ Runs (adjustSupply mbd) u () s' := by
  rw [createMbd, runs_ite] at h
  rcases h with ⟨hz, h⟩ | ⟨hz, h⟩
  · exact Or.inl ⟨hz, (runs_pure.mp h).2⟩
  rw [runs_bind_reads, runs_ite] at h
  rcases h with ⟨hnull, h⟩ | ⟨hfeed, h⟩
  · rw [runs_bind] at h
    obtain ⟨_, t, h1, h⟩ := h
    obtain ⟨-, rfl⟩ := runs_pure.mp h
    exact Or.inr (Or.inl ⟨hz, hnull, h1⟩)
  · rw [runs_bind_ofExcept] at h
    obtain ⟨mbd, hmbd, h⟩ := h
    rw [runs_bind] at h
    obtain ⟨_, t, h1, h⟩ := h
    rw [runs_bind_ofExcept] at h
    obtain ⟨debit, hdebit, h⟩ := h
    rw [runs_bind] at h
    obtain ⟨_, u, h2, h⟩ := h
    rw [runs_bind] at h
    obtain ⟨_, v, h3, h⟩ := h
    obtain ⟨-, rfl⟩ := runs_pure.mp h
    exact Or.inr (Or.inr ⟨hz, eq_false_of_ne_true hfeed, mbd, debit, t, u, hmbd, hdebit, h1, h2, h3⟩)

end Inversion

/-! ## Footprints -/

instance (i : ShareType) : Writes (bookInterest i) [.funds] :=
  ⟨by unfold bookInterest; infer_instance⟩
instance (a : AccountId) (d : ShareType) : Writes (adjustBtcm a d) [.funds] :=
  ⟨by unfold adjustBtcm; infer_instance⟩
instance (a : AccountId) (d : ShareType) : Writes (adjustMbd a d) [.funds] :=
  ⟨by unfold adjustMbd; infer_instance⟩
instance (a : AccountId) (d : Asset) : Writes (adjustUserIssued a d) [.funds] :=
  ⟨by unfold adjustUserIssued; infer_instance⟩
instance (a : AccountId) (d : Asset) : Writes (adjustBalance a d) [.funds] :=
  ⟨by unfold adjustBalance; infer_instance⟩
instance (a : AccountId) (i : AssetId) : Writes (getBalance a i) [] :=
  ⟨by unfold getBalance; infer_instance⟩
instance (d : Asset) (v : Bool) : Writes (adjustSupply d v) [.funds] :=
  ⟨by unfold adjustSupply; infer_instance⟩
instance (a : AccountId) (f : Asset) : Writes (payFee a f) [.funds] :=
  ⟨by unfold payFee; infer_instance⟩
instance (a : AccountId) (x : Asset) : Writes (createVesting a x) [.funds, .stakes, .voting, .laps] :=
  ⟨by unfold createVesting; infer_instance⟩
instance (a : AccountId) (x : Asset) : Writes (createMbd a x) [.funds] :=
  ⟨by unfold createMbd; infer_instance⟩

end BtcmChain
