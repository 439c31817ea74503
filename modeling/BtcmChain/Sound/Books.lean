import BtcmChain.Chain.Run

set_option autoImplicit false

/-!
# The books

For each asset, what the books say there is of it (`booked`) and what the objects of the
state hold of it (`held`). Their difference is the `gap`, and every program shifts the gap
of each asset by an amount its arguments and its result determine. The lemmas of this
module say by how much, from the primitives up: crediting a balance lowers the gap,
booking supply raises it, and whatever moves money from one place to another leaves it
where it was.

The gap of BTCM and the gap of XUSD are the two differences `validate_invariants` asserts
to be zero; for any other asset the books are its asset object.
-/

namespace BtcmChain

/-! ## Booked and held -/

/-- The amount of one asset in an amount: all of it, or nothing when it is another asset. -/
def Asset.amountIn (a : Asset) (id : AssetId) : ℤ := if a.assetId = id then a.amount.toInt else 0

/-- What the account object itself holds of an asset, which is BTCM or XUSD. -/
def AccountFunds.liquid (f : AccountFunds) (id : AssetId) : ℤ :=
  if id = BTCM_SYMBOL then f.balance.toInt else if id = XUSD_SYMBOL then f.mbdBalance.toInt else 0

/-- What a balance object of an account holds of an asset that is not BTCM or XUSD. -/
def AccountBalanceObject.issued (b : AccountBalanceObject) (id : AssetId) : ℤ :=
  if id = BTCM_SYMBOL ∨ id = XUSD_SYMBOL then 0 else if b.assetType = id then b.balance.toInt else 0

/-- What an order in the book holds for sale of an asset. -/
def LimitOrderObject.onSale (o : LimitOrderObject) (id : AssetId) : ℤ := o.amountForSale.amountIn id

/-- What a conversion request holds of BTCM or XUSD until it is due. -/
def ConvertRequestObject.converting (c : ConvertRequestObject) (id : AssetId) : ℤ :=
  if id = BTCM_SYMBOL ∨ id = XUSD_SYMBOL then c.amount.amountIn id else 0

/-- What a claim from genesis holds, which is BTCM. -/
def BalanceObject.claimable (b : BalanceObject) (id : AssetId) : ℤ :=
  if id = BTCM_SYMBOL then b.balance.toInt else 0

/-- What a content has accumulated on both sides, which is BTCM. -/
def ContentPool.pooled (p : ContentPool) (id : AssetId) : ℤ :=
  if id = BTCM_SYMBOL then p.accumulatedBalanceMaster.toInt + p.accumulatedBalanceComp.toInt else 0

/-- The supply in the books, less what the vesting fund holds of it. -/
def GlobalSupply.outside (p : GlobalSupply) (id : AssetId) : ℤ :=
  if id = BTCM_SYMBOL then p.currentSupply.toInt - p.totalVestingFundBtcm.toInt
  else if id = XUSD_SYMBOL then p.currentMbdSupply.toInt else 0

/-- The supply an asset object records, for an asset that is not BTCM or XUSD. -/
def Database.issuedSupply (s : Database) (id : AssetId) : ℤ :=
  if id = BTCM_SYMBOL ∨ id = XUSD_SYMBOL then 0
  else (s.assets.find? id).elim 0 fun a => a.currentSupply.toInt

/-- What the books say of an asset, minus what the objects of the state hold of it. -/
def Database.gap (s : Database) (id : AssetId) : ℤ :=
  s.dgpo.outside id + s.issuedSupply id - s.accounts.sum (fun _ a => a.liquid id) -
    s.accountBalances.sum (fun _ b => b.issued id) - s.limitOrders.sum (fun _ o => o.onSale id) -
    s.convertRequests.sum (fun _ c => c.converting id) - s.balances.sum (fun _ b => b.claimable id) -
    s.contents.sum (fun _ c => c.pooled id)

section Shifts

variable {s s' : Database} {id : AssetId} {k : Nat}

/-- The gap between the books and the state is a matter of the funds alone. -/
theorem gap_congr (h : s'.funds = s.funds) : s'.gap id = s.gap id := by
  have hview : ∀ t : Database, t.gap id = t.funds.supply.outside id +
      (if id = BTCM_SYMBOL ∨ id = XUSD_SYMBOL then 0
        else (t.funds.assets.find? id).elim 0 fun a => a.currentSupply.toInt) -
      t.funds.accounts.sum (fun _ a => a.2.liquid id) -
      t.funds.accountBalances.sum (fun _ b => b.issued id) -
      t.funds.limitOrders.sum (fun _ o => o.onSale id) -
      t.funds.convertRequests.sum (fun _ c => c.converting id) -
      t.funds.balances.sum (fun _ b => b.claimable id) -
      t.funds.pools.sum (fun _ p => p.pooled id) := by
    intro t
    simp only [Database.funds, FlatMap.sum_mapVals]
    rfl
  rw [hview, hview, h]

theorem gap_account_update {a b : AccountObject} (h : s.accounts.find? k = some a) :
    Database.gap { s with accounts := s.accounts.update k fun _ => b } id =
      s.gap id + (a.liquid id - b.liquid id) := by
  simp only [Database.gap, Database.issuedSupply, ObjectIndex.sum_update h]
  ring

theorem gap_account_create (a : AccountObject) :
    Database.gap { s with accounts := s.accounts.create a } id = s.gap id - a.liquid id := by
  simp only [Database.gap, Database.issuedSupply, ObjectIndex.sum_create]
  ring

theorem gap_accountBalance_update {a b : AccountBalanceObject}
    (h : s.accountBalances.find? k = some a) :
    Database.gap { s with accountBalances := s.accountBalances.update k fun _ => b } id =
      s.gap id + (a.issued id - b.issued id) := by
  simp only [Database.gap, Database.issuedSupply, ObjectIndex.sum_update h]
  ring

theorem gap_accountBalance_create (b : AccountBalanceObject) :
    Database.gap { s with accountBalances := s.accountBalances.create b } id =
      s.gap id - b.issued id := by
  simp only [Database.gap, Database.issuedSupply, ObjectIndex.sum_create]
  ring

theorem gap_order_create (o : LimitOrderObject) :
    Database.gap { s with limitOrders := s.limitOrders.create o } id = s.gap id - o.onSale id := by
  simp only [Database.gap, Database.issuedSupply, ObjectIndex.sum_create]
  ring

theorem gap_order_update {o o' : LimitOrderObject} (h : s.limitOrders.find? k = some o) :
    Database.gap { s with limitOrders := s.limitOrders.update k fun _ => o' } id =
      s.gap id + (o.onSale id - o'.onSale id) := by
  simp only [Database.gap, Database.issuedSupply, ObjectIndex.sum_update h]
  ring

theorem gap_order_remove {o : LimitOrderObject} (h : s.limitOrders.find? k = some o) :
    Database.gap { s with limitOrders := s.limitOrders.remove k } id = s.gap id + o.onSale id := by
  simp only [Database.gap, Database.issuedSupply, ObjectIndex.sum_remove h]
  ring

theorem gap_claim_update {b b' : BalanceObject} (h : s.balances.find? k = some b) :
    Database.gap { s with balances := s.balances.update k fun _ => b' } id =
      s.gap id + (b.claimable id - b'.claimable id) := by
  simp only [Database.gap, Database.issuedSupply, ObjectIndex.sum_update h]
  ring

theorem gap_claim_remove {b : BalanceObject} (h : s.balances.find? k = some b) :
    Database.gap { s with balances := s.balances.remove k } id = s.gap id + b.claimable id := by
  simp only [Database.gap, Database.issuedSupply, ObjectIndex.sum_remove h]
  ring

theorem gap_content_update {c d : ContentObject} (h : s.contents.find? k = some c) :
    Database.gap { s with contents := s.contents.update k fun _ => d } id =
      s.gap id + (c.pooled id - d.pooled id) := by
  simp only [Database.gap, Database.issuedSupply, ObjectIndex.sum_update h]
  ring

theorem gap_content_create (c : ContentObject) :
    Database.gap { s with contents := s.contents.create c } id = s.gap id - c.pooled id := by
  simp only [Database.gap, Database.issuedSupply, ObjectIndex.sum_create]
  ring

/-- Changing the books shifts the gap by what is booked outside the vesting fund. -/
theorem gap_supply (p : GlobalSupply) :
    Database.gap { s with dgpo := { s.dgpo with toGlobalSupply := p } } id =
      s.gap id + (p.outside id - s.dgpo.outside id) := by
  simp only [Database.gap, Database.issuedSupply]
  ring

theorem runs_modifySupply_gap {change : GlobalSupply → Except Exn GlobalSupply}
    (h : Runs (modifySupply change) s () s') :
    ∃ p, change s.dgpo.toGlobalSupply = .ok p ∧
      s'.gap id = s.gap id + (p.outside id - s.dgpo.outside id) := by
  obtain ⟨p, hp, rfl⟩ := runs_modifySupply.mp h
  exact ⟨p, hp, gap_supply p⟩

end Shifts

/-! ## Amounts -/

section Amounts

variable {a b : Asset} {id : AssetId}

theorem xusd_ne_btcm : XUSD_SYMBOL ≠ BTCM_SYMBOL := by decide

theorem amountIn_neg (h : a.neg = .ok b) : b.amountIn id = -a.amountIn id := by
  obtain ⟨hamount, hid⟩ := Asset.neg_ok.mp h
  simp only [Asset.amountIn, hid, hamount]
  split <;> simp

theorem amountIn_of_zero (h : a.amount = 0) : a.amountIn id = 0 := by
  simp [Asset.amountIn, h]

end Amounts

/-! ## Balances, supplies and vesting -/

section Ledger

variable {s s' : Database} {a : AccountId} {delta : Asset} {id : AssetId}

theorem adjustBtcm_gap {x : ShareType} (h : Runs (adjustBtcm a x) s () s') :
    s'.gap id = s.gap id - (btcm x).amountIn id := by
  obtain ⟨acct, y, hacct, hy, rfl⟩ := runs_adjustBtcm h
  rw [Database.withFunds, gap_account_update hacct]
  by_cases hid : id = BTCM_SYMBOL
  · subst hid
    simp only [AccountFunds.liquid, Asset.amountIn, if_true, btcm_assetId, btcm_amount, hy]
    ring
  · simp [AccountFunds.liquid, Asset.amountIn, hid, Ne.symm hid]

/-- Interest is paid into a balance and booked at once, so it does not show. -/
theorem adjustMbd_gap {x : ShareType} (h : Runs (adjustMbd a x) s () s') :
    s'.gap id = s.gap id - (xusd x).amountIn id := by
  obtain ⟨acct, r, y, p, hacct, hr, hy, hmbd, hsupply, hfund, rfl⟩ := runs_adjustMbd h
  obtain ⟨hbalance, hinterest⟩ := accrue_ok hr
  have hacct' : Database.accounts { s with dgpo := { s.dgpo with toGlobalSupply := p } } = s.accounts :=
    rfl
  rw [Database.withFunds, gap_account_update (by rw [hacct']; exact hacct), gap_supply]
  by_cases hid : id = BTCM_SYMBOL
  · subst hid
    simp [AccountFunds.liquid, Asset.amountIn, GlobalSupply.outside, xusd_ne_btcm, hbalance, hsupply,
      hfund]
  · by_cases hid' : id = XUSD_SYMBOL
    · subst hid'
      simp only [AccountFunds.liquid, Asset.amountIn, GlobalSupply.outside, xusd_ne_btcm, if_true,
        if_false, xusd_assetId, xusd_amount, hmbd, hy, hinterest]
      ring
    · simp [AccountFunds.liquid, Asset.amountIn, GlobalSupply.outside, hid, hid', Ne.symm hid']

theorem adjustUserIssued_gap (hbtcm : delta.assetId ≠ BTCM_SYMBOL) (hxusd : delta.assetId ≠ XUSD_SYMBOL)
    (h : Runs (adjustUserIssued a delta) s () s') : s'.gap id = s.gap id - delta.amountIn id := by
  rcases runs_adjustUserIssued h with ⟨hz, rfl⟩ | ⟨-, -, rfl⟩ | ⟨k, b, x, hb, -, htype, hx, -, rfl⟩
  · rw [amountIn_of_zero hz, sub_zero]
  · rw [gap_accountBalance_create]
    by_cases hid : delta.assetId = id
    · subst hid
      simp [AccountBalanceObject.issued, Asset.amountIn, hbtcm, hxusd]
    · simp [AccountBalanceObject.issued, Asset.amountIn, hid]
  · rw [gap_accountBalance_update hb]
    by_cases hid : delta.assetId = id
    · subst hid
      simp only [AccountBalanceObject.issued, Asset.amountIn, hbtcm, hxusd, or_self, if_false, htype,
        if_true, hx]
      ring
    · simp [AccountBalanceObject.issued, Asset.amountIn, hid, htype]

/-- Whatever `adjust_balance` credits is held from then on, while the books do not change. -/
theorem adjustBalance_gap (h : Runs (adjustBalance a delta) s () s') :
    s'.gap id = s.gap id - delta.amountIn id := by
  obtain ⟨amount, asset⟩ := delta
  rcases runs_adjustBalance h with ⟨hid, h⟩ | ⟨hid, h⟩ | ⟨hid, h⟩
  · have hid : asset = BTCM_SYMBOL := hid
    subst hid
    exact adjustBtcm_gap h
  · have hid : asset = XUSD_SYMBOL := hid
    subst hid
    exact adjustMbd_gap h
  · exact adjustUserIssued_gap hid.1 hid.2 h

/-- Whatever is added to the supply is booked; the part that goes into the vesting fund at
once does not show. -/
theorem adjustSupply_gap {adjustVesting : Bool} (h : Runs (adjustSupply delta adjustVesting) s () s') :
    s'.gap id = s.gap id + delta.amountIn id := by
  simp only [adjustSupply, runs_bind_reads, runs_ite] at h
  rcases h with ⟨hid, h⟩ | ⟨hid, ⟨hid', h⟩ | ⟨-, h⟩⟩
  · obtain ⟨p, hp, hgap⟩ := @runs_modifySupply_gap _ _ id _ h
    rw [hgap]
    obtain ⟨amount, asset⟩ := delta
    have hid : asset = BTCM_SYMBOL := hid
    subst hid
    have hbook : p.currentSupply.toInt - p.totalVestingFundBtcm.toInt =
        s.dgpo.currentSupply.toInt - s.dgpo.totalVestingFundBtcm.toInt + amount.toInt ∧
          p.currentMbdSupply = s.dgpo.currentMbdSupply := by
      split at hp <;> simp only [except_bind_ok, except_pure_ok, safeAdd_ok] at hp <;>
        obtain ⟨v, -, t, ht, c, hc, w, -, f, hf, rfl⟩ := hp <;>
        exact ⟨by dsimp only; omega, rfl⟩
    by_cases hid : id = BTCM_SYMBOL
    · subst hid
      simp only [GlobalSupply.outside, Asset.amountIn, if_true, hbook.1]
      ring
    · simp [GlobalSupply.outside, Asset.amountIn, hid, Ne.symm hid, hbook.2]
  · obtain ⟨p, hp, hgap⟩ := @runs_modifySupply_gap _ _ id _ h
    simp only [except_bind_ok, except_pure_ok, safeAdd_ok] at hp
    obtain ⟨c, hc, _, -, _, -, v, -, rfl⟩ := hp
    rw [hgap]
    obtain ⟨amount, asset⟩ := delta
    have hid' : asset = XUSD_SYMBOL := hid'
    subst hid'
    by_cases hid : id = XUSD_SYMBOL
    · subst hid
      simp only [GlobalSupply.outside, Asset.amountIn, xusd_ne_btcm, if_true, if_false, hc]
      ring
    · simp [GlobalSupply.outside, Asset.amountIn, hid, Ne.symm hid]
  · exact absurd h runs_throw

/-- A fee is burnt: taken from the balance and from the supply. -/
theorem payFee_gap (h : Runs (payFee a delta) s () s') : s'.gap id = s.gap id := by
  simp only [payFee, runs_bind_require, runs_ite] at h
  obtain ⟨-, ⟨-, h⟩ | ⟨-, h⟩⟩ := h
  · rw [(runs_pure.mp h).2]
  · rw [runs_bind_ofExcept] at h
    obtain ⟨debit, -, h⟩ := h
    rw [runs_bind] at h
    obtain ⟨_, t, h1, h2⟩ := h
    rw [adjustSupply_gap h2, adjustBalance_gap h1]
    ring

/-- BTCM that is vested goes into the vesting fund, which the books count. -/
theorem createVesting_gap {r : Asset} (h : Runs (createVesting a delta) s r s') :
    s'.gap id = s.gap id - delta.amountIn id := by
  obtain ⟨shares, acct, x, p, v, -, hv⟩ := runs_createVesting h
  rw [gap_congr (hv.same (by decide : Concern.funds ∉ [Concern.voting, .laps]))]
  have hshape : (s.vested a acct x p v).gap id = s.gap id + (p.outside id - s.dgpo.outside id) := by
    simp only [Database.vested, Database.gap, Database.issuedSupply,
      ObjectIndex.sum_update hv.account]
    ring
  obtain ⟨amount, asset⟩ := delta
  have hid : asset = BTCM_SYMBOL := hv.isBtcm
  have hfund := hv.fund_eq
  subst hid
  rw [hshape]
  by_cases hid : id = BTCM_SYMBOL
  · subst hid
    simp only [GlobalSupply.outside, Asset.amountIn, if_true, hv.supply_eq, hfund]
    ring
  · simp [GlobalSupply.outside, Asset.amountIn, hid, Ne.symm hid, hv.mbdSupply_eq]

/-- BTCM that is paid as XUSD leaves the supply, and the XUSD enters it. -/
theorem createMbd_gap {r : Asset} (h : Runs (createMbd a delta) s r s') :
    s'.gap id = s.gap id - delta.amountIn id := by
  rcases runs_createMbd h with ⟨hz, rfl⟩ | ⟨-, -, h⟩ | ⟨-, -, mbd, debit, t, u, -, hneg, h1, h2, h3⟩
  · rw [amountIn_of_zero hz, sub_zero]
  · exact adjustBalance_gap h
  · rw [adjustSupply_gap h3, adjustSupply_gap h2, adjustBalance_gap h1, amountIn_neg hneg]
    ring

end Ledger

/-! ## The order book -/

section Market

variable {s s' : Database} {id : AssetId} {order : Nat}

theorem cancelOrder_gap (h : Runs (cancelOrder order) s () s') : s'.gap id = s.gap id := by
  obtain ⟨o, seller, t, ho, -, h1, horders, rfl⟩ := runs_cancelOrder h
  rw [← horders, gap_order_remove (horders ▸ ho), adjustBalance_gap h1, LimitOrderObject.onSale]
  ring

/-- A filled order holds `pays` less, its seller `receives` more. -/
theorem fillOrder_gap {pays receives : Asset} {gone : Bool}
    (h : Runs (fillOrder order pays receives) s gone s') :
    s'.gap id = s.gap id + pays.amountIn id - receives.amountIn id := by
  obtain ⟨o, seller, t, ho, hbase, -, h1, horders, hcases⟩ := runs_fillOrder h
  rw [← horders] at ho hcases
  have hcredit := @adjustBalance_gap _ _ _ _ id h1
  rcases hcases with ⟨rfl, -, rfl⟩ | ⟨-, rest, hrest, c, u, -, rfl, hu⟩
  · rw [gap_order_remove ho, hcredit, LimitOrderObject.onSale]
    ring
  · have hsold : o.onSale id - (o.sold rest).onSale id = pays.amountIn id := by
      simp only [LimitOrderObject.onSale, LimitOrderObject.amountForSale, LimitOrderObject.sold,
        Asset.amountIn, hbase, hrest]
      split <;> ring
    rcases hu with ⟨-, -, hu⟩ | ⟨-, -, rfl⟩
    · rw [cancelOrder_gap hu, gap_order_update ho, hcredit, hsold]
      ring
    · rw [gap_order_update ho, hcredit, hsold]
      ring

/-- In a match each side receives what the other pays. -/
theorem matchOrders_gap {new old : Nat} {gone : Bool} (h : Runs (matchOrders new old) s gone s') :
    s'.gap id = s.gap id := by
  obtain ⟨n, o, trade, gone', t, -, -, -, h1, h2⟩ := runs_matchOrders h
  rw [fillOrder_gap h2, fillOrder_gap h1]
  ring

theorem applyOrder_gap {gone : Bool} (h : Runs (applyOrder order) s gone s') :
    s'.gap id = s.gap id :=
  applyOrder_induction (P := fun t => t.gap id = s.gap id)
    (fun _ _ _ _ ht hr => (matchOrders_gap hr).trans ht) h rfl

end Market

/-! ## Paying contents and platforms -/

section Cashout

variable {s s' : Database} {id : AssetId}

theorem amountIn_btcm (x : ShareType) (id : AssetId) :
    (btcm x).amountIn id = if id = BTCM_SYMBOL then x.toInt else 0 := by
  simp only [Asset.amountIn, btcm_assetId, btcm_amount, eq_comm]

theorem amountIn_btcm_add {x y z : ShareType} (h : z.toInt = x.toInt + y.toInt) :
    (btcm z).amountIn id = (btcm x).amountIn id + (btcm y).amountIn id := by
  simp only [amountIn_btcm, h]
  split <;> simp

theorem amountIn_btcm_sub {x y z : ShareType} (h : z.toInt = x.toInt - y.toInt) :
    (btcm z).amountIn id = (btcm x).amountIn id - (btcm y).amountIn id := by
  simp only [amountIn_btcm, h]
  split <;> simp

/-- What a payee gets is held from then on, while the books do not change. -/
theorem payDistribution_gap {toPay total total' : ShareType} {d : Distribution}
    (h : Runs (payDistribution toPay total d) s total' s') :
    s'.gap id + (btcm total').amountIn id = s.gap id + (btcm total).amountIn id := by
  simp only [payDistribution, runs_bind_ofExcept, runs_bind_getAccount, safeAdd_ok, safeSub_ok] at h
  obtain ⟨reward, -, t, ht, vesting, hvesting, author, -, h⟩ := h
  rw [runs_bind] at h
  obtain ⟨_, t1, h1, h⟩ := h
  rw [runs_bind] at h
  obtain ⟨_, t2, h2, h⟩ := h
  obtain ⟨rfl, rfl⟩ := runs_pure.mp h
  rw [createMbd_gap h2, createVesting_gap h1, amountIn_btcm_add ht, amountIn_btcm_sub hvesting]
  ring

theorem payDistributions_gap {toPay total : ShareType} {ds : List Distribution}
    (h : Runs (payDistributions toPay ds) s total s') :
    s'.gap id = s.gap id - (btcm total).amountIn id := by
  have hsum := foldlM_induction (P := fun total t => t.gap id + (btcm total).amountIn id = s.gap id)
    (fun d _ _ _ _ _ ht hr => (payDistribution_gap hr).trans ht) h
    (by rw [amountIn_of_zero rfl, add_zero])
  omega

/-- Setting what a side of a content has accumulated changes the gap by the difference. -/
theorem setAccumulated_gap {content : Nat} {side : Side} {x : ShareType} {c : ContentObject}
    (hc : s.contents.find? content = some c)
    (h : Runs (modifyPool content fun p => .ok (p.setAccumulated x side)) s () s') :
    s'.gap id = s.gap id + (btcm (c.accumulated side)).amountIn id - (btcm x).amountIn id := by
  obtain ⟨c', p, hc', hp, rfl⟩ := runs_modifyPool.mp h
  obtain rfl := Option.some.inj (hc.symm.trans hc')
  obtain rfl := Except.ok.inj hp
  rw [gap_content_update hc]
  cases side <;>
    simp only [amountIn_btcm, ContentPool.pooled, ContentPool.setAccumulated, ContentPool.accumulated] <;>
    split <;> ring

/-- Paying a side moves the payout to its payees or into its pool, whatever was in the
pool before. -/
theorem payToContentSide_gap {side : Side} {content : Nat} {payout : ShareType}
    (h : Runs (payToContentSide side content payout) s () s') :
    s'.gap id = s.gap id - (btcm payout).amountIn id := by
  obtain ⟨co, hco, ⟨-, x, hx, hr⟩ | ⟨-, toPay, total, rest, t, htoPay, hpaid, hrest, hr⟩⟩ :=
    runs_payToContentSide h
  · rw [setAccumulated_gap hco hr, amountIn_btcm_add hx]
    ring
  · obtain ⟨c, hc, hpool⟩ := payDistributions_pool hpaid hco
    have hsum : (btcm rest).amountIn id = (btcm payout).amountIn id +
        (btcm (co.accumulated side)).amountIn id - (btcm total).amountIn id := by
      rw [amountIn_btcm_sub hrest, amountIn_btcm_add htoPay]
    rcases hr with hr | ⟨heq, rfl⟩
    · rw [setAccumulated_gap hc hr, payDistributions_gap hpaid, hsum, hpool]
      ring
    · rw [payDistributions_gap hpaid]
      rw [← heq] at hsum
      omega

end Cashout

end BtcmChain
