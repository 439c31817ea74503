import BtcmChain.Sound.Books
import BtcmChain.Sound.ContentSplits

set_option autoImplicit false
set_option synthInstance.maxSize 10000000
set_option synthInstance.maxHeartbeats 200000

/-!
# What a payment leaves behind

The payments of a cashout, told by what they change and without a word about the code that makes
them. A platform is paid in vesting shares (`VestedTo`): the payout enters the vesting fund, and its
owner gets the shares this buys at the price before. A payee of a content side is paid in XUSD
(`PaidTo`), or in BTCM while there is no feed. What a side is given goes to its payees by their
base points, and what these do not get is accumulated (`SidePaid`).

Each of the three also says what a payment leaves alone: nobody else's balance or shares, and no
other pool.
-/

namespace BtcmChain

/-! ## What an account has -/

/-- The BTCM and the XUSD of an account, with everything that belongs to them. -/
def Database.liquidOf (s : Database) (a : AccountId) : Option AccountFunds :=
  (s.accounts.find? a).map AccountObject.toAccountFunds

/-- The vesting shares of an account, if there is such an account. -/
def Database.sharesOf (s : Database) (a : AccountId) : Option ShareType :=
  (s.accounts.find? a).map fun acct => acct.vestingShares

section Views

variable {s s' : Database} {a : AccountId}

theorem liquidOf_eq (s : Database) (a : AccountId) :
    s.liquidOf a = (s.funds.accounts.find? a).map Prod.snd := by
  simp only [Database.liquidOf, Database.funds, FlatMap.find?_mapVals, Option.map_map]
  rfl

theorem sharesOf_eq (s : Database) (a : AccountId) :
    s.sharesOf a = (s.stakes.accounts.find? a).map fun e => e.2.vestingShares := by
  simp only [Database.sharesOf, Database.stakes, FlatMap.find?_mapVals, Option.map_map]
  rfl

/-- The balances of an account are a matter of the funds alone. -/
theorem liquidOf_of_funds (h : s'.funds = s.funds) : s'.liquidOf a = s.liquidOf a := by
  rw [liquidOf_eq, liquidOf_eq, h]

/-- The vesting shares of an account are a matter of the stakes alone. -/
theorem sharesOf_of_stakes (h : s'.stakes = s.stakes) : s'.sharesOf a = s.sharesOf a := by
  rw [sharesOf_eq, sharesOf_eq, h]

theorem supply_of_funds (h : s'.funds = s.funds) : s'.dgpo.toGlobalSupply = s.dgpo.toGlobalSupply :=
  congrArg Funds.supply h

end Views

/-! ## Vesting -/

/-- `amount` BTCM have become vesting shares of `owner`: they are in the vesting fund, and the shares
they buy at the price before are the owner's and part of the total. -/
structure VestedTo (owner : AccountId) (amount : ShareType) (s s' : Database) : Prop where
  fund : s'.dgpo.totalVestingFundBtcm.toInt = s.dgpo.totalVestingFundBtcm.toInt + amount.toInt
  bought : ∃ shares before after : ShareType,
    (btcm amount).mulPrice s.dgpo.vestingSharePrice = .ok (vests shares) ∧
    s.sharesOf owner = some before ∧ s'.sharesOf owner = some after ∧
    after.toInt = before.toInt + shares.toInt ∧
    s'.dgpo.totalVestingShares.toInt = s.dgpo.totalVestingShares.toInt + shares.toInt
  /-- Nobody else's vesting shares change. -/
  others : ∀ a, a ≠ owner → s'.sharesOf a = s.sharesOf a
  liquid : ∀ a, s'.liquidOf a = s.liquidOf a
  supply : s'.dgpo.currentSupply = s.dgpo.currentSupply
  mbdSupply : s'.dgpo.currentMbdSupply = s.dgpo.currentMbdSupply
  pools : s'.pools = s.pools

section Vesting

variable {s s' : Database} {owner : AccountId} {amount : ShareType}

/-- `create_vesting` vests an amount for its owner, and does nothing else to shares and balances. -/
theorem vestedTo_of_createVesting {r : Asset} (h : Runs (createVesting owner (btcm amount)) s r s') :
    VestedTo owner amount s s' := by
  obtain ⟨shares, acct, x, p, v, -, hv⟩ := runs_createVesting h
  have hfunds : s'.funds = (s.vested owner acct x p v).funds := hv.same (i := .funds) (by decide)
  have hstakes : s'.stakes = (s.vested owner acct x p v).stakes := hv.same (i := .stakes) (by decide)
  have hsupply : s'.dgpo.toGlobalSupply = p := supply_of_funds hfunds
  have hfind : ∀ a, (s.vested owner acct x p v).accounts.find? a =
      if a = owner then
        some { acct with toAccountStake := { acct.toAccountStake with vestingShares := x } }
      else s.accounts.find? a := by
    intro a
    rw [Database.vested, ObjectIndex.find?_update]
    split
    case isTrue => rw [hv.account, Option.map_some]
    case isFalse => rfl
  constructor
  case fund => rw [hsupply, hv.fund_eq, btcm_amount]
  case bought =>
    refine ⟨shares, acct.vestingShares, x, hv.price, ?_, ?_, hv.shares_eq, ?_⟩
    · rw [Database.sharesOf, hv.account, Option.map_some]
    · rw [sharesOf_of_stakes hstakes, Database.sharesOf, hfind, if_pos rfl, Option.map_some]
    · rw [hsupply, hv.total_eq]
  case others =>
    intro a ha
    rw [sharesOf_of_stakes hstakes, Database.sharesOf, hfind, if_neg ha]
    rfl
  case liquid =>
    intro a
    rw [liquidOf_of_funds hfunds, Database.liquidOf, hfind]
    split
    case isTrue ha => rw [ha, Database.liquidOf, hv.account]; rfl
    case isFalse => rfl
  case supply => rw [hsupply, hv.supply_eq]
  case mbdSupply => rw [hsupply, hv.mbdSupply_eq]
  case pools =>
    have hpools : s'.pools = (s.vested owner acct x p v).pools := hv.same (i := .pools) (by decide)
    exact hpools

/-- An amount of nothing buys nothing, at whatever price. -/
theorem mulPrice_zero {a : Asset} {p : Price} {r : Asset} (ha : a.amount = 0)
    (h : a.mulPrice p = .ok r) : r.amount = 0 := by
  have hscale : ∀ {num den x : ShareType}, scale 0 num den = .ok x → x = 0 := by
    intro num den x hx
    simp only [scale, except_bind_ok, except_pure_ok, UInt128.div_ok, UInt128.toUInt64_ok] at hx
    obtain ⟨q, ⟨-, rfl⟩, y, hy, rfl⟩ := hx
    have hzero : UInt128.ofShare 0 * UInt128.ofShare num / UInt128.ofShare den = 0#128 := by
      rw [show UInt128.ofShare 0 = 0#128 from rfl, BitVec.zero_mul, BitVec.zero_udiv]
    rw [hzero] at hy
    have hy : y = 0 := UInt64.toNat_inj.mp hy
    rw [hy]
    rfl
  rw [Asset.mulPrice, ha] at h
  split at h
  · split at h
    · obtain ⟨x, hx, rfl⟩ := except_map_ok.mp h
      exact hscale hx
    · cases h
  · split at h
    · split at h
      · obtain ⟨x, hx, rfl⟩ := except_map_ok.mp h
        exact hscale hx
      · cases h
    · cases h

/-- Who vests nothing changes nothing about shares, balances and funds. -/
theorem VestedTo.of_zero (h : VestedTo owner amount s s') (hamount : amount.toInt = 0) :
    (∀ a, s'.sharesOf a = s.sharesOf a) ∧
      s'.dgpo.totalVestingFundBtcm = s.dgpo.totalVestingFundBtcm ∧
      s'.dgpo.totalVestingShares = s.dgpo.totalVestingShares := by
  obtain ⟨shares, before, after, hprice, hbefore, hafter, hshares, htotal⟩ := h.bought
  have hzero : (btcm amount).amount = 0 := Int64.toInt_inj.mp hamount
  have hnone : shares.toInt = 0 := by rw [show shares = 0 from mulPrice_zero hzero hprice]; rfl
  rw [hnone, add_zero] at hshares htotal
  refine ⟨fun a => ?_, Int64.toInt_inj.mp ?_, Int64.toInt_inj.mp htotal⟩
  · by_cases ha : a = owner
    · rw [ha, hbefore, hafter, Int64.toInt_inj.mp hshares]
    · exact h.others a ha
  · rw [h.fund, hamount, add_zero]

end Vesting

/-! ## Paying out -/

/-- What an amount of BTCM is paid out as: as itself while there is no feed, and otherwise as the XUSD
it is worth at the median feed. -/
def Database.paidAs (s : Database) (amount : ShareType) : Except Exn Asset :=
  if amount = 0 then .ok (xusd 0)
  else if s.feedHistory.actualMedianHistory.isNull then .ok (btcm amount)
  else (btcm amount).mulPrice s.feedHistory.actualMedianHistory

/-- The interest that is booked to an XUSD balance when it is touched. -/
def Database.interestDue (s : Database) (a : AccountObject) : ShareType :=
  match accrue s.dgpo.time s.dgpo.mbdInterestRate a.toAccountFunds with
  | .ok r => r.interest.getD 0
  | .error _ => 0

/-- `amount` BTCM have been paid out to `payee`: its balance holds what they are paid out as, and an
XUSD balance that was touched for that the interest that was due. -/
structure PaidTo (payee : AccountId) (amount : ShareType) (s s' : Database) : Prop where
  credited : ∃ (got : Asset) (acct : AccountObject) (after : AccountFunds),
    s.paidAs amount = .ok got ∧ s.accounts.find? payee = some acct ∧
    s'.liquidOf payee = some after ∧ ∀ id, after.liquid id = acct.liquid id + got.amountIn id +
      if amount ≠ 0 ∧ got.assetId = XUSD_SYMBOL then (xusd (s.interestDue acct)).amountIn id else 0
  /-- Nobody else's balance changes. -/
  others : ∀ a, a ≠ payee → s'.liquidOf a = s.liquidOf a
  shares : ∀ a, s'.sharesOf a = s.sharesOf a
  fund : s'.dgpo.totalVestingFundBtcm = s.dgpo.totalVestingFundBtcm
  totalShares : s'.dgpo.totalVestingShares = s.dgpo.totalVestingShares
  pools : s'.pools = s.pools
  /-- What is paid out as XUSD leaves the BTCM supply. -/
  booked : ∀ id, s'.gap id = s.gap id - (btcm amount).amountIn id

section Paying

variable {s s' : Database} {payee : AccountId} {amount : ShareType}

/-- The account object of an account that has other funds. -/
theorem liquidOf_withFunds {acct : AccountObject} {f : AccountFunds}
    (hacct : s.accounts.find? payee = some acct) (b : AccountId) :
    (s.withFunds payee acct f).liquidOf b = if b = payee then some f else s.liquidOf b := by
  rw [Database.liquidOf, Database.withFunds, ObjectIndex.find?_update]
  split
  case isTrue => rw [hacct, Option.map_some, Option.map_some]
  case isFalse => rfl

theorem toInt_interestDue {acct : AccountObject} {r : Accrual}
    (h : accrue s.dgpo.time s.dgpo.mbdInterestRate acct.toAccountFunds = .ok r) :
    (s.interestDue acct).toInt = r.interest.elim 0 Int64.toInt := by
  simp only [Database.interestDue, h]
  cases r.interest <;> rfl

/-- The BTCM or the XUSD that are credited to an account are on it from then on. -/
theorem adjustBalance_credits {got : Asset} (hid : got.assetId = BTCM_SYMBOL ∨ got.assetId = XUSD_SYMBOL)
    (h : Runs (adjustBalance payee got) s () s') :
    s'.dgpo.totalVestingFundBtcm = s.dgpo.totalVestingFundBtcm ∧
      (∀ b, b ≠ payee → s'.liquidOf b = s.liquidOf b) ∧
      ∃ (acct : AccountObject) (after : AccountFunds), s.accounts.find? payee = some acct ∧
        s'.liquidOf payee = some after ∧ ∀ id, after.liquid id = acct.liquid id + got.amountIn id +
          if got.assetId = XUSD_SYMBOL then (xusd (s.interestDue acct)).amountIn id else 0 := by
  obtain ⟨amount, asset⟩ := got
  rcases runs_adjustBalance h with ⟨hbtcm, h⟩ | ⟨hxusd, h⟩ | ⟨hother, -⟩
  · have hbtcm : asset = BTCM_SYMBOL := hbtcm
    subst hbtcm
    obtain ⟨acct, x, hacct, hx, rfl⟩ := runs_adjustBtcm h
    refine ⟨rfl, fun b hb => by rw [liquidOf_withFunds hacct, if_neg hb], acct, _, hacct,
      by rw [liquidOf_withFunds hacct, if_pos rfl], fun id => ?_⟩
    rw [if_neg (Ne.symm xusd_ne_btcm), add_zero]
    by_cases hid : id = BTCM_SYMBOL
    · subst hid
      simpa only [AccountFunds.liquid, Asset.amountIn, if_true] using hx
    · simp [AccountFunds.liquid, Asset.amountIn, hid, Ne.symm hid]
  · have hxusd : asset = XUSD_SYMBOL := hxusd
    subst hxusd
    obtain ⟨acct, r, x, p, hacct, hr, hx, -, -, hfund, rfl⟩ := runs_adjustMbd h
    have hacct' : Database.accounts { s with dgpo := { s.dgpo with toGlobalSupply := p } } = s.accounts :=
      rfl
    have hdue := toInt_interestDue hr
    obtain ⟨hbalance, hinterest⟩ := accrue_ok hr
    refine ⟨hfund, fun b hb => ?_, acct, _, hacct, by rw [liquidOf_withFunds (hacct'.symm ▸ hacct),
      if_pos rfl], fun id => ?_⟩
    · rw [liquidOf_withFunds (hacct'.symm ▸ hacct), if_neg hb]
      rfl
    · rw [if_pos rfl]
      by_cases hid : id = BTCM_SYMBOL
      · subst hid
        simp [AccountFunds.liquid, Asset.amountIn, xusd_ne_btcm, hbalance]
      · by_cases hid' : id = XUSD_SYMBOL
        · subst hid'
          simp only [AccountFunds.liquid, Asset.amountIn, hid, if_true, if_false, xusd_assetId,
            xusd_amount, hdue, hx, hinterest]
          ring
        · simp [AccountFunds.liquid, Asset.amountIn, hid, hid', Ne.symm hid']
  · exact absurd hid (by simpa only [not_or] using hother)

/-- Booking supply is for BTCM and XUSD only, and touches neither the accounts nor the fund. -/
theorem adjustSupply_frame {delta : Asset} (h : Runs (adjustSupply delta) s () s') :
    (delta.assetId = BTCM_SYMBOL ∨ delta.assetId = XUSD_SYMBOL) ∧ s'.accounts = s.accounts ∧
      s'.dgpo.totalVestingFundBtcm = s.dgpo.totalVestingFundBtcm := by
  simp only [adjustSupply, runs_bind_reads, runs_ite] at h
  rcases h with ⟨hid, h⟩ | ⟨-, ⟨hid, h⟩ | ⟨-, h⟩⟩
  · obtain ⟨p, hp, rfl⟩ := runs_modifySupply.mp h
    simp only [Bool.false_eq_true, false_and, if_false, except_bind_ok, except_pure_ok,
      safeAdd_ok] at hp
    obtain ⟨v, rfl, t, -, c, -, w, -, f, hf, rfl⟩ := hp
    refine ⟨Or.inl hid, rfl, Int64.toInt_inj.mp ?_⟩
    rw [show (0 : ShareType).toInt = 0 from rfl, add_zero] at hf
    exact hf
  · obtain ⟨p, hp, rfl⟩ := runs_modifySupply.mp h
    simp only [except_bind_ok, except_pure_ok, safeAdd_ok] at hp
    obtain ⟨c, -, _, -, _, -, v, -, rfl⟩ := hp
    exact ⟨Or.inr hid, rfl, rfl⟩
  · exact absurd h runs_throw

/-- `create_mbd` pays out an amount to the payee, in BTCM or in XUSD. -/
theorem paidTo_of_createMbd {r : Asset} {acct : AccountObject} (hacct : s.accounts.find? payee = some acct)
    (h : Runs (createMbd payee (btcm amount)) s r s') : PaidTo payee amount s s' := by
  have hstakes : s'.stakes = s.stakes := Writes.stakes_eq h (by decide)
  have hvoting : s'.voting = s.voting := Writes.voting_eq h (by decide)
  have hpaid : (∃ (got : Asset) (acct : AccountObject) (after : AccountFunds),
      s.paidAs amount = .ok got ∧ s.accounts.find? payee = some acct ∧
      s'.liquidOf payee = some after ∧ ∀ id, after.liquid id = acct.liquid id + got.amountIn id +
        if amount ≠ 0 ∧ got.assetId = XUSD_SYMBOL then (xusd (s.interestDue acct)).amountIn id else 0) ∧
      (∀ b, b ≠ payee → s'.liquidOf b = s.liquidOf b) ∧
      s'.dgpo.totalVestingFundBtcm = s.dgpo.totalVestingFundBtcm := by
    rcases runs_createMbd h with ⟨hz, rfl⟩ | ⟨hz, hnull, h⟩ | ⟨hz, hfeed, mbd, debit, t, u, hmbd, -, h1, h2, h3⟩
    · have hz : amount = 0 := hz
      refine ⟨⟨xusd 0, acct, acct.toAccountFunds, if_pos hz, hacct, ?_, fun id => ?_⟩,
        fun _ _ => rfl, rfl⟩
      · rw [Database.liquidOf, hacct, Option.map_some]
      · rw [if_neg (fun hne => hne.1 hz), amountIn_of_zero rfl, add_zero, add_zero]
    · obtain ⟨hfund, hothers, acct, after, hacct, hafter, hliquid⟩ :=
        adjustBalance_credits (Or.inl rfl) h
      rw [btcm_amount] at hz
      refine ⟨⟨btcm amount, acct, after, ?_, hacct, hafter, fun id => ?_⟩, hothers, hfund⟩
      · rw [Database.paidAs, if_neg hz, if_pos hnull]
      · rw [hliquid id, btcm_assetId, if_neg (Ne.symm xusd_ne_btcm),
          if_neg fun hne => Ne.symm xusd_ne_btcm hne.2]
    · obtain ⟨-, haccounts₂, hfund₂⟩ := adjustSupply_frame h2
      obtain ⟨hid, haccounts₃, hfund₃⟩ := adjustSupply_frame h3
      obtain ⟨hfund, hothers, acct, after, hacct, hafter, hliquid⟩ := adjustBalance_credits hid h1
      rw [btcm_amount] at hz
      have hsame : ∀ b, s'.liquidOf b = t.liquidOf b := fun b => by
        rw [Database.liquidOf, haccounts₃, haccounts₂]
        rfl
      refine ⟨⟨mbd, acct, after, ?_, hacct, (hsame payee).trans hafter, fun id => ?_⟩,
        fun b hb => (hsame b).trans (hothers b hb), hfund₃.trans (hfund₂.trans hfund)⟩
      · rw [Database.paidAs, if_neg hz, if_neg (by simp [hfeed]), hmbd]
      · rw [hliquid id]
        simp only [hz, ne_eq, not_false_eq_true, true_and]
  exact
    { credited := hpaid.1
      others := hpaid.2.1
      shares := fun a => sharesOf_of_stakes hstakes
      fund := hpaid.2.2
      totalShares := congrArg Voting.total hvoting
      pools := Writes.pools_eq h (by decide)
      booked := fun id => createMbd_gap h }

end Paying

/-! ## Payees, sides and platforms -/

/-- The payees of a list are paid one after the other, each its base points of `toPay`: none of them
as vesting shares, all of them paid out. -/
inductive PayeesPaid (toPay : ShareType) : List Distribution → Database → Database → Prop
  | nil {s : Database} : PayeesPaid toPay [] s s
  | cons {d : Distribution} {ds : List Distribution} {s t u v : Database} {id : AccountId}
      {payee : AccountObject} {vested share : ShareType} :
      s.accountNamed d.payee = some (id, payee) → vested.toInt = 0 →
      share.toInt = (toPay.toInt * d.bp.toNat).tdiv 10000 →
      VestedTo id vested s t → PaidTo id share t u → PayeesPaid toPay ds u v →
      PayeesPaid toPay (d :: ds) s v

/-- What the payees of a side get of a payout and what was accumulated before. -/
def ContentObject.payeesTotal (co : ContentObject) (side : Side) (payout : ShareType) : ℤ :=
  ((co.distributions side).map fun d =>
    ((payout.toInt + (co.accumulated side).toInt) * d.bp.toNat).tdiv 10000).sum

/-- `payout` has been given to a side of a content: its payees have their base points of the payout
together with what was accumulated before, and what they do not get is accumulated. -/
structure SidePaid (side : Side) (content : Nat) (payout : ShareType) (s s' : Database) : Prop where
  paid : ∃ (co co' : ContentObject) (toPay kept : ShareType) (t : Database),
    s.contents.find? content = some co ∧
    toPay.toInt = payout.toInt + (co.accumulated side).toInt ∧
    PayeesPaid toPay (co.distributions side) s t ∧
    t.accounts = s'.accounts ∧
    s'.contents.find? content = some co' ∧
    co'.toContentSplit = co.toContentSplit ∧
    co'.toContentPool = co.toContentPool.setAccumulated kept side ∧
    kept.toInt = (co.accumulated side).toInt + payout.toInt - co.payeesTotal side payout
  shares : ∀ a, s'.sharesOf a = s.sharesOf a
  fund : s'.dgpo.totalVestingFundBtcm = s.dgpo.totalVestingFundBtcm
  booked : ∀ id, s'.gap id = s.gap id - (btcm payout).amountIn id

/-- `payout` has been given to a platform, if it is anything: its owner has vesting shares for it. -/
def PlatformPaid (platform : StreamingPlatformId) (payout : ShareType) (s s' : Database) : Prop :=
  payout.toInt ≤ 0 ∧ s' = s ∨
    0 < payout.toInt ∧ ∃ (pl : StreamingPlatformObject) (id : AccountId) (owner : AccountObject),
      s.platforms.find? platform = some pl ∧ s.accountNamed pl.owner = some (id, owner) ∧
      VestedTo id payout s s' ∧ ∀ i, s'.gap i = s.gap i - (btcm payout).amountIn i

section Given

variable {s s' : Database}

/-- The owner of a platform vests the payout that the platform gets, if it is positive. -/
theorem platformPaid_of_runs {platform : StreamingPlatformId} {payout : ShareType}
    (h : Runs (whenM (0 < payout) (payToPlatform platform payout)) s () s') :
    PlatformPaid platform payout s s' := by
  rcases runs_whenM.mp h with ⟨hpos, h⟩ | ⟨hnone, rfl⟩
  · have hpos := of_decide_eq_true hpos
    rw [Int64.lt_iff_toInt_lt, Int64.toInt_zero] at hpos
    simp only [payToPlatform, runs_bind_get, runs_bind_getAccount] at h
    obtain ⟨pl, hpl, owner, howner, h⟩ := h
    obtain ⟨_, t, hvest, h⟩ := runs_bind.mp h
    obtain ⟨_, u, hmbd, h⟩ := runs_bind.mp h
    obtain ⟨-, rfl⟩ := runs_pure.mp h
    -- the XUSD of a platform are always nothing
    have hsame : s' = t := by
      rcases runs_createMbd hmbd with ⟨-, hsame⟩ | ⟨hne, -⟩ | ⟨hne, -⟩
      · exact hsame
      · exact absurd rfl hne
      · exact absurd rfl hne
    subst hsame
    exact Or.inr ⟨hpos, pl, owner.id, owner.val, hpl, howner, vestedTo_of_createVesting hvest,
      fun i => createVesting_gap hvest⟩
  · have hnone := of_decide_eq_false hnone
    rw [Int64.lt_iff_toInt_lt, Int64.toInt_zero] at hnone
    exact Or.inl ⟨not_lt.mp hnone, rfl⟩

/-- A payee gets its base points, all of it paid out and nothing vested. -/
theorem PayeesPaid.of_payDistribution {toPay total total' : ShareType} {d : Distribution}
    {ds : List Distribution} {u : Database}
    (h : Runs (payDistribution toPay total d) s total' s') (hrest : PayeesPaid toPay ds s' u) :
    PayeesPaid toPay (d :: ds) s u := by
  simp only [payDistribution, runs_bind_ofExcept, runs_bind_getAccount, safeSub_ok] at h
  obtain ⟨share, hshare, t, -, vesting, hvesting, author, hauthor, h⟩ := h
  obtain ⟨_, v, hvest, h⟩ := runs_bind.mp h
  obtain ⟨_, w, hmbd, h⟩ := runs_bind.mp h
  obtain ⟨-, rfl⟩ := runs_pure.mp h
  simp only [bpShare, except_bind_ok, safeMul_ok, safeDiv_ok, ShareType.toInt_ofUInt32] at hshare
  obtain ⟨scaled, hscaled, -, hshare⟩ := hshare
  rw [sub_self] at hvesting
  have hvested := vestedTo_of_createVesting hvest
  obtain ⟨-, -, after, -, -, hafter, -⟩ := hvested.bought
  obtain ⟨acct, hacct, -⟩ := Option.map_eq_some_iff.mp hafter
  exact .cons hauthor hvesting (by rw [hshare, hscaled]; rfl) hvested (paidTo_of_createMbd hacct hmbd)
    hrest

theorem payeesPaid_of_runs {toPay total : ShareType} {ds : List Distribution}
    (h : Runs (payDistributions toPay ds) s total s') : PayeesPaid toPay ds s s' := by
  suffices hall : ∀ (ds : List Distribution) (acc : ShareType) (s : Database),
      Runs (ds.foldlM (payDistribution toPay) acc) s total s' → PayeesPaid toPay ds s s' from
    hall ds 0 s h
  intro ds
  induction ds with
  | nil =>
      intro acc s h
      obtain ⟨-, rfl⟩ := runs_pure.mp h
      exact .nil
  | cons d ds ih =>
      intro acc s h
      rw [List.foldlM_cons, runs_bind] at h
      obtain ⟨acc', t, h1, h2⟩ := h
      exact .of_payDistribution h1 (ih acc' t h2)

/-- Payees get no vesting shares, and nothing goes into the vesting fund for them. -/
theorem PayeesPaid.vesting {toPay : ShareType} {ds : List Distribution} (h : PayeesPaid toPay ds s s') :
    (∀ a, s'.sharesOf a = s.sharesOf a) ∧
      s'.dgpo.totalVestingFundBtcm = s.dgpo.totalVestingFundBtcm ∧
      s'.dgpo.totalVestingShares = s.dgpo.totalVestingShares := by
  induction h with
  | nil => exact ⟨fun _ => rfl, rfl, rfl⟩
  | cons _ hvesting _ hvested hpaid _ ih =>
      obtain ⟨hshares, hfund, htotal⟩ := ih
      obtain ⟨hshares₁, hfund₁, htotal₁⟩ := hvested.of_zero hvesting
      exact ⟨fun a => (hshares a).trans ((hpaid.shares a).trans (hshares₁ a)),
        hfund.trans (hpaid.fund.trans hfund₁), htotal.trans (hpaid.totalShares.trans htotal₁)⟩

/-- Whoever leaves the splits alone leaves each content its split. -/
theorem find?_of_splits {content : Nat} {co : ContentObject} (h : s'.splits = s.splits)
    (hco : s.contents.find? content = some co) :
    ∃ co', s'.contents.find? content = some co' ∧ co'.toContentSplit = co.toContentSplit := by
  have hfind : s'.splits.find? content = some co.toContentSplit := by
    rw [h, Database.splits, FlatMap.find?_mapVals]
    exact congrArg (Option.map _) hco
  rw [Database.splits, FlatMap.find?_mapVals] at hfind
  exact Option.map_eq_some_iff.mp hfind

/-- Setting what a side has accumulated, after payments that left the pool alone. -/
theorem runs_setAccumulated {side : Side} {content : Nat} {kept : ShareType} {pool : ContentPool}
    (hpool : ∃ d, s.contents.find? content = some d ∧ d.toContentPool = pool)
    (h : Runs (modifyPool content fun p => .ok (p.setAccumulated kept side)) s () s') :
    s'.accounts = s.accounts ∧ s'.dgpo = s.dgpo ∧
      ∃ co', s'.contents.find? content = some co' ∧ co'.toContentPool = pool.setAccumulated kept side := by
  obtain ⟨d, hd, rfl⟩ := hpool
  obtain ⟨d', p, hd', hp, rfl⟩ := runs_modifyPool.mp h
  obtain rfl := Option.some.inj (hd.symm.trans hd')
  obtain rfl := Except.ok.inj hp
  refine ⟨rfl, rfl, { d with toContentPool := d.toContentPool.setAccumulated kept side }, ?_, rfl⟩
  rw [ObjectIndex.find?_update, if_pos rfl, hd, Option.map_some]

/-- `pay_to_content_master` and `pay_to_content_comp` give a side what they are called with. -/
theorem sidePaid_of_runs {side : Side} {content : Nat} {payout : ShareType}
    (h : Runs (payToContentSide side content payout) s () s') : SidePaid side content payout s s' := by
  obtain ⟨co, hco, hcases⟩ := runs_payToContentSide h
  obtain ⟨co', hco', hsplit⟩ := find?_of_splits (Writes.splits_eq h (by decide)) hco
  have hgap : ∀ id, s'.gap id = s.gap id - (btcm payout).amountIn id :=
    fun id => payToContentSide_gap h
  rcases hcases with ⟨hnone, kept, hkept, hr⟩ | ⟨-, toPay, totalPaid, kept, t, htoPay, hpaid, hkept, hr⟩
  · obtain ⟨haccounts, hdgpo, d, hd, hpool⟩ := runs_setAccumulated ⟨co, hco, rfl⟩ hr
    obtain rfl := Option.some.inj (hco'.symm.trans hd)
    refine ⟨⟨co, co', kept, kept, s, hco, by omega, hnone ▸ .nil, haccounts.symm, hco', hsplit, hpool,
      ?_⟩, fun a => by rw [Database.sharesOf, haccounts]; rfl, by rw [hdgpo], hgap⟩
    rw [ContentObject.payeesTotal, hnone, List.map_nil, List.sum_nil]
    omega
  · have htotal := payDistributions_total hpaid
    have hpayees := payeesPaid_of_runs hpaid
    obtain ⟨hshares, hfund, -⟩ := hpayees.vesting
    have hpool := payDistributions_pool hpaid hco
    have hsum : kept.toInt = (co.accumulated side).toInt + payout.toInt - co.payeesTotal side payout := by
      rw [ContentObject.payeesTotal, ← htoPay, ← htotal]
      omega
    rcases hr with hr | ⟨heq, rfl⟩
    · obtain ⟨haccounts, hdgpo, d, hd, hpool⟩ := runs_setAccumulated hpool hr
      obtain rfl := Option.some.inj (hco'.symm.trans hd)
      exact ⟨⟨co, co', toPay, kept, t, hco, htoPay, hpayees, haccounts.symm, hco', hsplit, hpool, hsum⟩,
        fun a => (by rw [Database.sharesOf, haccounts]; exact hshares a), by rw [hdgpo, hfund], hgap⟩
    · obtain ⟨d, hd, hpool⟩ := hpool
      obtain rfl := Option.some.inj (hd.symm.trans hco')
      refine ⟨⟨co, d, toPay, kept, s', hco, htoPay, hpayees, rfl, hco', hsplit, ?_, hsum⟩, hshares,
        hfund, hgap⟩
      rw [hpool, ← heq]
      cases side <;> rfl

end Given

end BtcmChain
