import BtcmChain.Chain.Beside
import BtcmChain.Lib.SharePool
import BtcmChain.Sound.Conservation
import BtcmChain.Sound.Prices

set_option autoImplicit false
set_option synthInstance.maxSize 10000000
set_option synthInstance.maxHeartbeats 200000

/-!
# The value of a vesting share

The vesting shares are shares of the vesting fund. `create_vesting` deposits, a power-down
redeems, route by route and then the rest, each at the price the step before has left. All of
them round down what goes to the one who asks, so that nobody else's share loses
(`shares_keep_value`). A quotient that does not fit 63 bits is read as a negative amount, which
gives even less.
-/

namespace BtcmChain

/-- The vesting shares and the fund behind them, as a pool of shares. -/
def GlobalSupply.vestingPool (p : GlobalSupply) : SharePool where
  shares := p.totalVestingShares.toInt
  fund := p.totalVestingFundBtcm.toInt

def Database.vestingPool (s : Database) : SharePool := s.dgpo.vestingPool

section Steps

variable {s s' : Database} {a : AccountId}

/-- The vesting price is the ratio of the pool, while it is solvent. -/
theorem vestingSharePrice_of_solvent {p : GlobalSupply} (h : p.vestingPool.Solvent) :
    p.vestingSharePrice = ⟨vests p.totalVestingShares, btcm p.totalVestingFundBtcm⟩ := by
  obtain ⟨hshares, hfund⟩ := h
  have hne : ¬ (p.totalVestingFundBtcm = 0 ∨ p.totalVestingShares = 0) := by
    rintro (hzero | hzero)
    · rw [GlobalSupply.vestingPool, hzero] at hfund
      exact absurd hfund (lt_irrefl _)
    · rw [GlobalSupply.vestingPool, hzero] at hshares
      exact absurd hshares (lt_irrefl _)
  exact if_neg hne

theorem mulPrice_deposit {p : GlobalSupply} {amount : Asset} {shares : ShareType}
    (hp : p.vestingPool.Solvent) (hbtcm : amount.assetId = BTCM_SYMBOL)
    (h : amount.mulPrice p.vestingSharePrice = .ok (vests shares)) :
    0 ≤ amount.amount.toInt ∧
      shares.toInt * p.vestingPool.fund ≤ amount.amount.toInt * p.vestingPool.shares := by
  rw [vestingSharePrice_of_solvent hp, Asset.mulPrice, hbtcm] at h
  obtain ⟨hshares, hfund⟩ := hp
  change (if 0 < p.totalVestingFundBtcm then _ else _) = _ at h
  have hpos : 0 < p.totalVestingFundBtcm := Int64.lt_iff_toInt_lt.mpr hfund
  rw [if_pos hpos, except_map_ok] at h
  obtain ⟨x, hx, hxs⟩ := h
  obtain rfl : x = shares := congrArg Asset.amount hxs
  have hnonneg := scale_nonneg hshares hfund hx
  exact ⟨hnonneg, scale_le hnonneg hshares.le hfund hx⟩

theorem mulPrice_redeem {p : GlobalSupply} {n : ShareType} {paid : Asset}
    (hp : p.vestingPool.Solvent) (hn : 0 ≤ n.toInt)
    (h : (vests n).mulPrice p.vestingSharePrice = .ok paid) :
    paid.amount.toInt * p.vestingPool.shares ≤ n.toInt * p.vestingPool.fund := by
  rw [vestingSharePrice_of_solvent hp, Asset.mulPrice] at h
  obtain ⟨hshares, hfund⟩ := hp
  change (if 0 < p.totalVestingShares then _ else _) = _ at h
  have hpos : 0 < p.totalVestingShares := Int64.lt_iff_toInt_lt.mpr hshares
  rw [if_pos hpos, except_map_ok] at h
  obtain ⟨x, hx, rfl⟩ := h
  exact scale_le hn hfund.le hshares hx

/-! ## Depositing -/

/-- `create_vesting` deposits into the pool without diluting anybody. -/
theorem createVesting_noDilution {amount r : Asset} (hr : Runs (createVesting a amount) s r s')
    (hs : s.vestingPool.Solvent) : s.vestingPool.NoDilution s'.vestingPool ∧
      0 ≤ s'.vestingPool.fund := by
  obtain ⟨shares, acct, x, p, v, -, hv⟩ := runs_createVesting hr
  obtain ⟨hnonneg, hle⟩ := mulPrice_deposit hs hv.isBtcm hv.price
  have hsame : s'.funds = (s.vested a acct x p v).funds := hv.same (i := .funds) (by decide)
  have hpool : s'.vestingPool = ⟨s.vestingPool.shares + shares.toInt,
      s.vestingPool.fund + amount.amount.toInt⟩ := by
    have hsupply : s'.dgpo.toGlobalSupply = p := congrArg Funds.supply hsame
    rw [Database.vestingPool, hsupply, GlobalSupply.vestingPool, hv.total_eq, hv.fund_eq]
    rfl
  rw [hpool]
  have hfund : 0 < s.vestingPool.fund := hs.2
  refine ⟨SharePool.noDilution_deposit hle, ?_⟩
  show 0 ≤ s.vestingPool.fund + amount.amount.toInt
  omega

/-! ## Redeeming -/

/-- What touches no money leaves the pool as it is. -/
theorem Within.vestingPool_eq {α : Type} {m : DbM α} {x : α} (hr : Runs m s x s')
    (h : Within [Concern.stakes, .voting, .laps] m) : s'.vestingPool = s.vestingPool := by
  have hfunds : s'.funds = s.funds := h.same (i := .funds) (by decide) hr
  exact congrArg (fun f => f.supply.vestingPool) hfunds

/-- Shares are paid for at the price of the pool they leave. -/
theorem creditConverted_redeems {n : ShareType} {paid : Asset} (hn : 0 ≤ n.toInt)
    (hpaid : (vests n).mulPrice s.dgpo.vestingSharePrice = .ok paid)
    (hr : Runs (creditConverted a n paid) s () s') : s.vestingPool.Redeems s'.vestingPool := by
  obtain ⟨_, t, h1, h2⟩ := runs_bind.mp hr
  obtain ⟨acct, f, -, -, rfl⟩ := runs_modifyFunds.mp h1
  obtain ⟨p, hp, rfl⟩ := runs_modifySupply.mp h2
  simp only [except_bind_ok, except_pure_ok, safeSub_ok, Asset.amountOf_ok] at hp
  obtain ⟨x, ⟨-, rfl⟩, fund, hfund, shares, hshares, rfl⟩ := hp
  -- only the liquid balance of the account was written in between
  have hpool : GlobalSupply.vestingPool { s.dgpo.toGlobalSupply with
      totalVestingFundBtcm := fund, totalVestingShares := shares } =
      ⟨s.vestingPool.shares - n.toInt, s.vestingPool.fund - paid.amount.toInt⟩ := by
    rw [GlobalSupply.vestingPool]
    exact congrArg₂ SharePool.mk hshares hfund
  show s.vestingPool.Redeems (GlobalSupply.vestingPool _)
  refine hpool ▸ ⟨?_, fun hs _ => SharePool.noDilution_redeem (mulPrice_redeem hs hn hpaid)⟩
  show s.vestingPool.shares - n.toInt ≤ s.vestingPool.shares
  omega

/-- A route that is paid in BTCM redeems its shares of the pool. -/
theorem depositBtcm_redeems {w total total' : ShareType} {r : Entry WithdrawVestingRouteObject}
    (hr : Runs (depositBtcm w total r) s total' s') : s.vestingPool.Redeems s'.vestingPool := by
  rcases runs_ite.mp hr with ⟨-, hr⟩ | ⟨-, hr⟩
  · obtain ⟨-, rfl⟩ := runs_pure.mp hr
    exact SharePool.Redeems.refl _
  · simp only [runs_bind_get, runs_bind_ofExcept, convertShares, bind_assoc, runs_bind_reads] at hr
    obtain ⟨_, -, d, -, x, -, paid, hpaid, hr⟩ := hr
    obtain ⟨_, t, hr, hx⟩ := runs_bind.mp hr
    obtain ⟨-, rfl⟩ := runs_pure.mp hx
    rcases runs_whenM.mp hr with ⟨hpos, hr⟩ | ⟨-, rfl⟩
    · have hpos := of_decide_eq_true hpos
      rw [Int64.lt_iff_toInt_lt, Int64.toInt_zero] at hpos
      exact creditConverted_redeems hpos.le hpaid hr
    · exact SharePool.Redeems.refl _

/-- A power-down as a whole. The vesting routes move shares from account to account, the
others and the rest are redeemed one after the other. -/
theorem withdrawFrom_redeems (hr : Runs (withdrawFrom a) s () s') :
    s.vestingPool.Redeems s'.vestingPool := by
  simp only [withdrawFrom, runs_bind_get, runs_bind_ofExcept] at hr
  obtain ⟨acct, -, w, -, hr⟩ := hr
  obtain ⟨routes, s0, hlist, hrest⟩ := runs_bind.mp hr
  obtain ⟨asVests, t1, h1, hrest⟩ := runs_bind.mp hrest
  obtain ⟨asBtcm, t2, h2, hrest⟩ := runs_bind.mp hrest
  simp only [runs_bind_ofExcept, runs_bind_require, convertShares, bind_assoc,
    runs_bind_reads] at hrest
  obtain ⟨rest, -, toConvert, -, hpos, paid, hpaid, hend⟩ := hrest
  obtain ⟨_, t3, h3, hend⟩ := runs_bind.mp hend
  obtain ⟨_, t4, h4, h5⟩ := runs_bind.mp hend
  have hpos := of_decide_eq_true hpos
  rw [Int64.le_iff_toInt_le, Int64.toInt_zero] at hpos
  have hlisted : s0.vestingPool = s.vestingPool := Within.vestingPool_eq hlist inferInstance
  have hvests : t1.vestingPool = s0.vestingPool := Within.vestingPool_eq h1 inferInstance
  have hbtcm : t1.vestingPool.Redeems t2.vestingPool :=
    foldlM_induction (P := fun _ t => t1.vestingPool.Redeems t.vestingPool)
      (fun r _ _ _ _ _ ht hstep => ht.trans (depositBtcm_redeems hstep)) h2 (SharePool.Redeems.refl _)
  have hstake : t3.dgpo.toGlobalSupply = t2.dgpo.toGlobalSupply :=
    congrArg Funds.supply (Writes.funds_eq h3 (by decide))
  have hcredit : t3.vestingPool.Redeems t4.vestingPool :=
    creditConverted_redeems hpos (by rw [hstake]; exact hpaid) h4
  have hvotes : s'.vestingPool = t4.vestingPool := Within.vestingPool_eq h5 inferInstance
  have hstake : t3.vestingPool = t2.vestingPool := congrArg GlobalSupply.vestingPool hstake
  rw [hvotes, ← hlisted, ← hvests]
  exact hbtcm.trans (hstake ▸ hcredit)

instance (a : AccountId) : Respects (fun s t : Database => s.vestingPool.Redeems t.vestingPool)
    (withdrawFrom a) := ⟨withdrawFrom_redeems⟩

end Steps

/-! ## Runs -/

/-- What deposits into the fund or redeems from it: `create_vesting` to any account, and of
`process_vesting_withdrawals` the whole, one account, and each conversion for an account. -/
inductive VestingStep : Database → Database → Prop
  | deposit {s s' : Database} {a : AccountId} {amount r : Asset}
      (hr : Runs (createVesting a amount) s r s') : VestingStep s s'
  | route {s s' : Database} {w total total' : ShareType} {r : Entry WithdrawVestingRouteObject}
      (hr : Runs (depositBtcm w total r) s total' s') : VestingStep s s'
  | rest {s s' : Database} {a : AccountId} {n : ShareType} (hn : 0 ≤ n)
      (hr : Runs (do creditConverted a n (← convertShares n)) s () s') : VestingStep s s'
  | account {s s' : Database} {a : AccountId} (hr : Runs (withdrawFrom a) s () s') : VestingStep s s'
  | block {s s' : Database} (hr : Runs processVestingWithdrawals s () s') : VestingStep s s'

theorem VestingStep.noDilution {s s' : Database} (h : VestingStep s s') (hs : s.vestingPool.Solvent)
    (hs' : 0 < s'.vestingPool.shares) :
    s.vestingPool.NoDilution s'.vestingPool ∧ 0 ≤ s'.vestingPool.fund := by
  have hredeems (hr : s.vestingPool.Redeems s'.vestingPool) :
      s.vestingPool.NoDilution s'.vestingPool ∧ 0 ≤ s'.vestingPool.fund := by
    have hkeep := hr.2 hs hs'
    exact ⟨hkeep, (hkeep.solvent hs hs').2.le⟩
  cases h with
  | deposit hr => exact createVesting_noDilution hr hs
  | route hr => exact hredeems (depositBtcm_redeems hr)
  | rest hn hr =>
      rw [Int64.le_iff_toInt_le, Int64.toInt_zero] at hn
      simp only [convertShares, bind_assoc, runs_bind_reads, runs_bind_ofExcept] at hr
      obtain ⟨paid, hpaid, hr⟩ := hr
      exact hredeems (creditConverted_redeems hn hpaid hr)
  | account hr => exact hredeems (withdrawFrom_redeems hr)
  | block hr =>
      exact hredeems (Respects.rel (R := fun s t : Database => s.vestingPool.Redeems t.vestingPool) hr)

/-- As long as there are shares with something behind them, no deposit and no withdrawal takes
anything from the value of a share, in whatever state it happens. -/
theorem shares_keep_value {s s' : Database} (h : VestingStep s s') (hs : s.vestingPool.Solvent)
    (hs' : 0 < s'.vestingPool.shares) :
    s.vestingPool.fund * s'.vestingPool.shares ≤ s'.vestingPool.fund * s.vestingPool.shares ∧
      0 ≤ s'.vestingPool.fund := h.noDilution hs hs'

/-- However many deposits and withdrawals follow each other, the fund is not drained by them. -/
theorem value_kept_along {s s' : Database}
    (h : Relation.ReflTransGen (fun t u => VestingStep t u ∧ 0 < u.vestingPool.shares) s s')
    (hs : s.vestingPool.Solvent) :
    s'.vestingPool.Solvent ∧ s.vestingPool.NoDilution s'.vestingPool := by
  induction h with
  | refl => exact ⟨hs, SharePool.NoDilution.refl _⟩
  | tail _ hstep ih =>
      obtain ⟨ht, hkept⟩ := ih
      have hnext := (hstep.1.noDilution ht hstep.2).1
      exact ⟨hnext.solvent ht hstep.2, hkept.trans hnext hs.1.le ht.1 hstep.2.le⟩

section Samples

open Sample

/-- A genesis with a thousand vesting shares, nothing behind them, and a million BTCM. -/
def fundedGenesis : GenesisState where
  initSupply := 1000000
  initSupply_nonneg := million_nonneg
  initialVestingBalances := [⟨3, 1000, thousand_nonneg⟩]

/-- The second block after it, in which `initminer` is the first to deposit. -/
def depositBlock : SignedBlock where
  witness := "initminer1"
  timestamp := 1585422006
  transactions := [[.transferToVesting "initminer" "initminer" (btcm 7)]]

/-- With the pay of the second producer there are 720292 shares of 5007 BTCM. For 5 BTCM more there
are 719 shares, and a share is worth a little more. -/
theorem deposit_keeps_value : ∃ s s', Reachable s ∧ s.vestingPool = ⟨720292, 5007⟩ ∧
    VestingStep s s' ∧ s'.vestingPool = ⟨721011, 5012⟩ ∧
      s.vestingPool.fund * s'.vestingPool.shares ≤ s'.vestingPool.fund * s.vestingPool.shares ∧
      0 ≤ s'.vestingPool.fund := by
  have hrun : leadsTo (replay fundedGenesis [firstBlock, depositBlock]) {} (fun s =>
      decide (s.vestingPool = ⟨720292, 5007⟩) && leadsTo (do let _ ← createVesting 3 (btcm 5)) s (fun t =>
        decide (t.vestingPool = ⟨721011, 5012⟩))) = true := by
    decide +kernel
  obtain ⟨s, hs, hdeposit⟩ := leadsTo_iff.mp hrun
  rw [Bool.and_eq_true] at hdeposit
  obtain ⟨t, hr, ht⟩ := leadsTo_iff.mp hdeposit.2
  obtain ⟨x, u, hr, hu⟩ := runs_bind.mp hr
  obtain ⟨-, rfl⟩ := runs_pure.mp hu
  have hpool := of_decide_eq_true hdeposit.1
  have hpool' := of_decide_eq_true ht
  exact ⟨s, t, replay_reachable hs, hpool, .deposit hr, hpool',
    shares_keep_value (.deposit hr) (by rw [hpool]; decide) (by rw [hpool']; decide)⟩

end Samples

end BtcmChain
