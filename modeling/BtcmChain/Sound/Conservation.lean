import BtcmChain.Sound.Books

set_option autoImplicit false

/-!
# Operations keep the books

Every evaluator moves money without creating or destroying any, with two exceptions:
`asset_issue` and `asset_reserve` credit and debit BTCM and XUSD like any other asset, but
the supply they adjust is the one in the asset object, which for these two is not the one
in the books. What an operation shifts the gap of BTCM and XUSD by is exactly what it
issues and reserves of them, summed over all evaluators it calls.
-/

namespace BtcmChain

/-! ## The evaluators -/

section Evaluators

variable {s s' : Database} {id : AssetId}

theorem gap_asset_create {a : AssetObject} (h : a.currentSupply = 0) :
    Database.gap { s with assets := s.assets.create a } id = s.gap id := by
  have hsupply : Database.issuedSupply { s with assets := s.assets.create a } id = s.issuedSupply id := by
    simp only [Database.issuedSupply, ObjectIndex.find?_create]
    split
    · rfl
    · split
      case isTrue heq =>
        have hnone : s.assets.find? id = none := heq ▸ s.assets.find?_nextId
        simp [hnone, h]
      case isFalse => rfl
  simp only [Database.gap, hsupply]

/-- A change of the recorded supply shows unless the asset is BTCM or XUSD. -/
theorem gap_asset_update {k : AssetId} {a : AssetObject} {x : ShareType} (h : s.assets.find? k = some a) :
    Database.gap { s with assets := s.assets.update k fun _ => { a with currentSupply := x } } id =
      s.gap id + if id = BTCM_SYMBOL ∨ id = XUSD_SYMBOL then 0
        else if k = id then x.toInt - a.currentSupply.toInt else 0 := by
  have hsupply : Database.issuedSupply
      { s with assets := s.assets.update k fun _ => { a with currentSupply := x } } id =
      s.issuedSupply id + if id = BTCM_SYMBOL ∨ id = XUSD_SYMBOL then 0
        else if k = id then x.toInt - a.currentSupply.toInt else 0 := by
    simp only [Database.issuedSupply, ObjectIndex.find?_update]
    split
    · rfl
    · by_cases hk : k = id
      · subst hk
        simp [h]
      · simp [hk, Ne.symm hk]
  simp only [Database.gap, hsupply]
  ring

theorem transferEvaluator_gap {from_ to_ : String} {amount : Asset}
    (h : Runs (transferEvaluator from_ to_ amount) s () s') : s'.gap id = s.gap id := by
  obtain ⟨f, t, s0, s1, acct, debit, -, -, hsame, -, -, -, hneg, h1, h2⟩ := runs_transferEvaluator h
  rw [adjustBalance_gap h2, adjustBalance_gap h1, gap_congr (hsame .funds), amountIn_neg hneg]
  ring

theorem transferToVestingEvaluator_gap {from_ to_ : String} {amount : Asset}
    (h : Runs (transferToVestingEvaluator from_ to_ amount) s () s') : s'.gap id = s.gap id := by
  obtain ⟨f, t, s1, acct, debit, r, -, -, -, -, hneg, h1, h2⟩ := runs_transferToVestingEvaluator h
  rw [createVesting_gap h2, adjustBalance_gap h1, amountIn_neg hneg]
  ring

theorem debitBtcm_gap {a : AccountId} {x : Asset} (h : Runs (debitBtcm a x) s () s') :
    s'.gap id = s.gap id + x.amountIn id := by
  obtain ⟨acct, y, hacct, hid, hy, rfl⟩ := runs_debitBtcm h
  obtain ⟨amount, asset⟩ := x
  have hid : asset = BTCM_SYMBOL := hid
  subst hid
  rw [Database.withFunds, gap_account_update hacct]
  by_cases hid : id = BTCM_SYMBOL
  · subst hid
    simp only [AccountFunds.liquid, Asset.amountIn, if_true, hy]
    ring
  · simp [AccountFunds.liquid, Asset.amountIn, hid, Ne.symm hid]

/-- A new account holds nothing of any asset. -/
theorem newAccount_liquid (name : String) (owner active basic : Authority) (key : PublicKey)
    (json recovery : String) (received : ShareType) (now : TimePointSec) :
    (newAccount name owner active basic key json recovery received now).liquid id = 0 := by
  simp [newAccount, AccountFunds.liquid]

theorem accountCreateEvaluator_gap [Externals] {o : AccountCreateOperation}
    (hfee : 0 ≤ o.fee.amount.toInt) (h : Runs (accountCreateEvaluator o) s () s') :
    s'.gap id = s.gap id := by
  obtain ⟨creator, t, u, a, -, -, hdebit, rfl, -, rfl, hvest⟩ := runs_accountCreateEvaluator h
  have hdebit : t.gap id = s.gap id + o.fee.amountIn id := debitBtcm_gap hdebit
  rcases hvest with ⟨-, r, hvest⟩ | ⟨hle, rfl⟩
  · rw [createVesting_gap hvest, gap_account_create, newAccount_liquid, hdebit]
    ring
  · have hzero : o.fee.amount = 0 := Int64.toInt_inj.mp (le_antisymm hle hfee)
    rw [gap_account_create, newAccount_liquid, hdebit, amountIn_of_zero hzero]
    ring

theorem accountCreateWithDelegationEvaluator_gap {o : AccountCreateWithDelegationOperation}
    (hfee : 0 ≤ o.fee.amount.toInt) (h : Runs (accountCreateWithDelegationEvaluator o) s () s') :
    s'.gap id = s.gap id := by
  obtain ⟨creator, t, t1, t2, u, a, delegation, -, -, -, -, hdebit, hstake, rfl, -, rfl, hu, hvest⟩ :=
    runs_accountCreateWithDelegationEvaluator h
  have ht1 : t1.gap id = s.gap id + o.fee.amountIn id := by
    rw [gap_congr (Writes.funds_eq hstake (by decide)), debitBtcm_gap hdebit]
  have hu' : u.gap id = s.gap id + o.fee.amountIn id := by
    have hcreate := @gap_account_create t1 id (newAccount o.newAccountName o.owner
      o.active o.basic o.memoKey o.jsonMetadata "" delegation s.dgpo.time)
    rw [newAccount_liquid, ht1, sub_zero] at hcreate
    rcases hu with ⟨-, rfl⟩ | ⟨-, rfl⟩
    · exact hcreate
    · rw [← hcreate]
      exact gap_congr rfl
  rcases hvest with ⟨-, r, hvest⟩ | ⟨hle, rfl⟩
  · rw [createVesting_gap hvest, hu']
    ring
  · have hzero : o.fee.amount = 0 := Int64.toInt_inj.mp (le_antisymm hle hfee)
    rw [hu', amountIn_of_zero hzero, add_zero]

theorem convertEvaluator_gap {owner : String} {amount : Asset}
    (h : Runs (convertEvaluator owner amount) s () s') : s'.gap id = s.gap id := by
  obtain ⟨e, acct, debit, issued, s1, s2, p, -, -, -, hneg, h1, -, h2, hbtcm, hxusd, hc, hm, hf, rfl⟩ :=
    runs_convertEvaluator h
  obtain ⟨x, asset⟩ := amount
  obtain ⟨y, asset'⟩ := issued
  have hbtcm : asset = BTCM_SYMBOL := hbtcm
  have hxusd : asset' = XUSD_SYMBOL := hxusd
  subst hbtcm
  subst hxusd
  rw [gap_supply, adjustBalance_gap h2, adjustBalance_gap h1, amountIn_neg hneg]
  by_cases hid : id = BTCM_SYMBOL
  · subst hid
    simp only [Asset.amountIn, GlobalSupply.outside, if_true, xusd_ne_btcm, if_false, hc, hf]
    ring
  · by_cases hid' : id = XUSD_SYMBOL
    · subst hid'
      simp only [Asset.amountIn, GlobalSupply.outside, if_true, xusd_ne_btcm, Ne.symm xusd_ne_btcm,
        if_false, hm]
      ring
    · simp [Asset.amountIn, GlobalSupply.outside, hid, hid', Ne.symm hid, Ne.symm hid']

theorem createOrder_gap {owner : String} {orderid : UInt32} {amountToSell : Asset}
    {price : Except Exn Price} {fillOrKill : Bool} {expiration : TimePointSec}
    (hprice : ∀ p, price = .ok p → p.base.assetId = amountToSell.assetId)
    (h : Runs (createOrder owner orderid amountToSell price fillOrKill expiration) s () s') :
    s'.gap id = s.gap id := by
  obtain ⟨e, acct, debit, s1, o, filled, -, -, -, hneg, h1, hp, hsale, -, h2⟩ := runs_createOrder h
  have honSale : o.onSale id = amountToSell.amountIn id := by
    simp only [LimitOrderObject.onSale, LimitOrderObject.amountForSale, Asset.amountIn, hprice _ hp,
      hsale]
  rw [applyOrder_gap h2, gap_order_create, adjustBalance_gap h1, amountIn_neg hneg, honSale]
  ring

theorem challengeAuthorityEvaluator_gap {challenger challenged : String} {requireOwner : Bool}
    (h : Runs (challengeAuthorityEvaluator challenger challenged requireOwner) s () s') :
    s'.gap id = s.gap id := by
  obtain ⟨f, t, s1, s2, debit, r, -, -, -, hneg, h1, h2, hsame, -⟩ := runs_challengeAuthorityEvaluator h
  rw [gap_congr (hsame .funds), createVesting_gap h2, adjustBalance_gap h1, amountIn_neg hneg]
  ring

theorem streamingPlatformUpdateEvaluator_gap {owner url : String} {fee : Asset}
    (h : Runs (streamingPlatformUpdateEvaluator owner url fee) s () s') : s'.gap id = s.gap id := by
  obtain ⟨acct, -, -, -, ⟨-, hsame, -⟩ | ⟨-, p, t, u, vested, -, rfl, hfee, -, hbook⟩⟩ :=
    runs_streamingPlatformUpdateEvaluator h
  · exact gap_congr (hsame .funds)
  · rw [gap_congr (Writes.funds_eq hbook (by decide)), payFee_gap hfee]
    exact gap_congr rfl

theorem balanceClaimEvaluator_gap [Externals] {account : String} {balance : Nat} {key : PublicKey}
    {claimed : Asset} (h : Runs (balanceClaimEvaluator account balance key claimed) s () s') :
    s'.gap id = s.gap id := by
  obtain ⟨b, gettie, t, hb, -, hid, hcases, h1⟩ := runs_balanceClaimEvaluator h
  obtain ⟨x, asset⟩ := claimed
  have hid : asset = BTCM_SYMBOL := hid
  subst hid
  have hx : Asset.amountIn ⟨x, BTCM_SYMBOL⟩ id = if id = BTCM_SYMBOL then x.toInt else 0 :=
    amountIn_btcm x id
  rw [adjustBalance_gap h1, hx]
  rcases hcases with ⟨rest, hrest, rfl⟩ | ⟨rfl, rfl⟩
  · rw [gap_claim_update hb]
    simp only [BalanceObject.claimable, hrest]
    split <;> ring
  · rw [gap_claim_remove hb]
    simp only [BalanceObject.claimable]
    split <;> ring

theorem contentEvaluator_gap {o : ContentOperation} (h : Runs (contentEvaluator o) s () s') :
    s'.gap id = s.gap id := by
  obtain ⟨-, rfl⟩ := runs_contentEvaluator h
  rw [gap_content_create]
  simp [ContentPool.pooled, ContentOperation.toObject]

theorem edit_pool (o : ContentUpdateOperation) (now : TimePointSec) (c : ContentObject) :
    (o.edit now c).toContentPool = c.toContentPool := by
  unfold ContentUpdateOperation.edit
  split <;> rfl

theorem contentUpdateEvaluator_gap {o : ContentUpdateOperation}
    (h : Runs (contentUpdateEvaluator o) s () s') : s'.gap id = s.gap id := by
  obtain ⟨e, he, -, h⟩ := runs_contentUpdateEvaluator h
  have hedited : (o.editedState e s).gap id = s.gap id := by
    rw [ContentUpdateOperation.editedState, gap_content_update (ObjectIndex.find?_of_findBy? he).1,
      edit_pool]
    ring
  rcases h with rfl | ⟨-, -, hr⟩
  · exact hedited
  · rw [payToContentSide_gap hr, amountIn_of_zero (a := btcm 0) rfl, hedited, sub_zero]

theorem assetCreateEvaluator_gap {o : AssetCreateOperation} (h : Runs (assetCreateEvaluator o) s () s') :
    s'.gap id = s.gap id := by
  obtain ⟨e, acct, t, a, -, -, -, -, hfee, hzero, -, rfl⟩ := runs_assetCreateEvaluator h
  rw [gap_asset_create hzero, payFee_gap hfee]

/-- Issuing BTCM or XUSD credits what the books do not count, and other assets are booked with it.
-/
theorem assetIssueEvaluator_gap {issuer to_ : String} {x : Asset}
    (h : Runs (assetIssueEvaluator issuer x to_) s () s') :
    s'.gap id = s.gap id - if id = BTCM_SYMBOL ∨ id = XUSD_SYMBOL then x.amountIn id else 0 := by
  obtain ⟨a, e, supply, t, ha, -, hsupply, -, h1, hassets, rfl⟩ := runs_assetIssueEvaluator h
  rw [← hassets, gap_asset_update (hassets ▸ ha), adjustBalance_gap h1]
  simp only [Asset.amountIn, hsupply]
  split <;> split <;> ring

/-- Reserving BTCM or XUSD debits what stays in the books, and other assets are booked with it. -/
theorem assetReserveEvaluator_gap {payer : String} {x : Asset}
    (h : Runs (assetReserveEvaluator payer x) s () s') :
    s'.gap id = s.gap id + if id = BTCM_SYMBOL ∨ id = XUSD_SYMBOL then x.amountIn id else 0 := by
  obtain ⟨a, e, debit, supply, t, ha, -, hneg, hsupply, h1, hassets, rfl⟩ :=
    runs_assetReserveEvaluator h
  rw [← hassets, gap_asset_update (hassets ▸ ha), adjustBalance_gap h1, amountIn_neg hneg]
  simp only [Asset.amountIn, hsupply]
  split <;> split <;> ring

end Evaluators

/-! ## Operations -/

/-- What an operation issues of an asset, less what it reserves. -/
def Operation.netIssued : Operation → AssetId → ℤ
  | .assetIssue _ x _, id => x.amountIn id
  | .assetReserve _ _ x, id => -x.amountIn id
  | _, _ => 0

section Operations

variable [Externals] {s s' : Database} {id : AssetId}

/-- An evaluator call shifts the gap of BTCM and XUSD by what it issues and reserves, and
no other gap. -/
theorem evaluate_gap {push : Nat → DbM Unit} {op : Operation} (hop : op.isProposalUpdate = false)
    (hv : op.validate = .ok ()) (h : Runs (evaluate push op) s () s') :
    s'.gap id = s.gap id - if id = BTCM_SYMBOL ∨ id = XUSD_SYMBOL then op.netIssued id else 0 := by
  -- all but two operations issue nothing
  have hkeep : op.netIssued id = 0 → s'.gap id = s.gap id →
      s'.gap id = s.gap id - if id = BTCM_SYMBOL ∨ id = XUSD_SYMBOL then op.netIssued id else 0 := by
    intro hnet hgap
    rw [hnet, hgap, ite_self, sub_zero]
  cases hi : op.writes .funds with
  | false =>
    refine hkeep ?_ (gap_congr (evaluate_same hop hi h))
    cases op <;> first | rfl | exact (Bool.false_ne_true hi.symm).elim
  | true =>
    cases op <;> first | exact (Bool.false_ne_true hi).elim | skip
    case assetUpdate o => cases hv
    case assetIssue issuer x to_ => exact assetIssueEvaluator_gap h
    case assetReserve issuer payer x =>
      rw [assetReserveEvaluator_gap h]
      simp only [Operation.netIssued]
      split <;> ring
    all_goals refine hkeep rfl ?_
    case content o => exact contentEvaluator_gap h
    case contentUpdate o => exact contentUpdateEvaluator_gap h
    case transfer from_ to_ amount memo => exact transferEvaluator_gap h
    case transferToVesting from_ to_ amount => exact transferToVestingEvaluator_gap h
    case limitOrderCreate o =>
      refine createOrder_gap (fun p hp => ?_) h
      unfold Price.make at hp
      split at hp <;> cases hp
      rfl
    case limitOrderCreate2 o =>
      refine createOrder_gap (fun p hp => ?_) h
      cases hp
      simp only [Operation.validate, LimitOrderCreate2Operation.validate, except_bind_ok,
        fcAssert_ok, decide_eq_true_eq] at hv
      obtain ⟨_, -, _, hid, -⟩ := hv
      exact hid.symm
    case limitOrderCancel owner orderid =>
      simp only [evaluate, limitOrderCancelEvaluator, runs_bind_getBy] at h
      obtain ⟨o, -, h⟩ := h
      exact cancelOrder_gap h
    case convert owner requestid amount => exact convertEvaluator_gap h
    case accountCreate o =>
      simp only [Operation.validate, AccountCreateOperation.validate, except_bind_ok, fcAssertE,
        Asset.ge_ok] at hv
      obtain ⟨_, -, _, -, _, -, _, -, _, -, _, -, r, ⟨-, rfl⟩, hfee⟩ := hv
      exact accountCreateEvaluator_gap (by simpa [Int64.le_iff_toInt_le] using hfee) h
    case streamingPlatformUpdate owner url fee => exact streamingPlatformUpdateEvaluator_gap h
    case assetCreate o => exact assetCreateEvaluator_gap h
    case challengeAuthority challenger challenged requireOwner =>
      exact challengeAuthorityEvaluator_gap h
    case balanceClaim account balance key claimed => exact balanceClaimEvaluator_gap h
    case accountCreateWithDelegation o =>
      simp only [Operation.validate, AccountCreateWithDelegationOperation.validate, except_bind_ok,
        fcAssertE, Asset.ge_ok] at hv
      obtain ⟨_, -, _, -, _, -, _, -, _, -, _, -, _, -, _, -, _, ⟨r, ⟨-, rfl⟩, hfee⟩, -⟩ := hv
      exact accountCreateWithDelegationEvaluator_gap (by simpa [Int64.le_iff_toInt_le] using hfee) h

/-- What the calls of an operation issue of an asset, less what they reserve. -/
def netIssuedBy (l : List Call) (id : AssetId) : ℤ := (l.map fun c => c.op.netIssued id).sum

omit [Externals] in
theorem netIssuedBy_append (l l' : List Call) :
    netIssuedBy (l ++ l') id = netIssuedBy l id + netIssuedBy l' id := by
  simp [netIssuedBy]

/-- An operation with all it executes shifts the gaps by what it issues and reserves. -/
theorem applyOperation_gap {n : Nat} {op : Operation} (hv : op.validate = .ok ())
    (hs : ProposalsValid s) (h : Runs (applyOperation n op) s () s') :
    s'.gap id = s.gap id -
      if id = BTCM_SYMBOL ∨ id = XUSD_SYMBOL then netIssuedBy (calls n op s) id else 0 := by
  let R : Database → List Call → Database → Prop := fun s l s' =>
    s'.gap id = s.gap id - if id = BTCM_SYMBOL ∨ id = XUSD_SYMBOL then netIssuedBy l id else 0
  have hR : Traces R :=
    { pending := fun s x => by
        have hsame : Database.gap { s with proposals := x } id = s.gap id := gap_congr rfl
        show Database.gap { s with proposals := x } id = _
        rw [hsame]
        simp [netIssuedBy]
      append := fun {s t u l l'} h1 h2 => by
        show u.gap id = _
        rw [show u.gap id = _ from h2, show t.gap id = _ from h1, netIssuedBy_append]
        split <;> ring
      update := fun {s u o l} h => by
        show u.gap id = _
        rw [show u.gap id = _ from h]
        simp [netIssuedBy, Operation.netIssued] }
  refine (applyOperation_trace hR (fun push op s s' hop hv h => ?_) n op s s' hv hs h).1
  show s'.gap id = _
  rw [evaluate_gap hop hv h]
  simp [netIssuedBy]

end Operations

/-! ## The equations of `validate_invariants` -/

/-- Booked BTCM minus the BTCM on accounts, on sale, claimable, in content pools, being
converted and in the vesting fund. -/
def Database.btcmGap (s : Database) : ℤ :=
  s.dgpo.currentSupply.toInt -
    (s.accounts.sum (fun _ a => a.balance.toInt) +
      s.limitOrders.sum (fun _ o =>
        if o.sellPrice.base.assetId = BTCM_SYMBOL then o.forSale.toInt else 0) +
      s.balances.sum (fun _ b => b.balance.toInt) +
      s.contents.sum (fun _ c => c.accumulatedBalanceMaster.toInt + c.accumulatedBalanceComp.toInt) +
      s.convertRequests.sum (fun _ c =>
        if c.amount.assetId = BTCM_SYMBOL then c.amount.amount.toInt else 0) +
      s.dgpo.totalVestingFundBtcm.toInt)

/-- Booked XUSD minus the XUSD on accounts, on sale and being converted. -/
def Database.xusdGap (s : Database) : ℤ :=
  s.dgpo.currentMbdSupply.toInt -
    (s.accounts.sum (fun _ a => a.mbdBalance.toInt) +
      s.limitOrders.sum (fun _ o =>
        if o.sellPrice.base.assetId = XUSD_SYMBOL then o.forSale.toInt else 0) +
      s.convertRequests.sum (fun _ c =>
        if c.amount.assetId = XUSD_SYMBOL then c.amount.amount.toInt else 0))

theorem sum_zero {α : Type} (ix : ObjectIndex α) : (ix.sum fun _ _ => (0 : ℤ)) = 0 :=
  FlatMap.sum_eq_zero fun _ _ _ => rfl

theorem gap_btcm (s : Database) : s.gap BTCM_SYMBOL = s.btcmGap := by
  have hissued : s.accountBalances.sum (fun _ b => b.issued BTCM_SYMBOL) = 0 := sum_zero _
  rw [Database.gap, hissued]
  show s.dgpo.currentSupply.toInt - s.dgpo.totalVestingFundBtcm.toInt + 0 -
    s.accounts.sum (fun _ a => a.balance.toInt) - 0 - _ - _ -
    s.balances.sum (fun _ b => b.balance.toInt) -
    s.contents.sum (fun _ c =>
      c.accumulatedBalanceMaster.toInt + c.accumulatedBalanceComp.toInt) = _
  rw [Database.btcmGap]
  show _ = s.dgpo.currentSupply.toInt - (_ + s.limitOrders.sum (fun _ o => o.onSale BTCM_SYMBOL) + _ + _ +
    s.convertRequests.sum (fun _ c => c.converting BTCM_SYMBOL) + _)
  ring

theorem gap_xusd (s : Database) : s.gap XUSD_SYMBOL = s.xusdGap := by
  have hissued : s.accountBalances.sum (fun _ b => b.issued XUSD_SYMBOL) = 0 := sum_zero _
  have hbalances : s.balances.sum (fun _ b => b.claimable XUSD_SYMBOL) = 0 := sum_zero _
  have hpools : s.contents.sum (fun _ c => c.pooled XUSD_SYMBOL) = 0 := sum_zero _
  rw [Database.gap, hissued, hbalances, hpools]
  show s.dgpo.currentMbdSupply.toInt + 0 - s.accounts.sum (fun _ a => a.mbdBalance.toInt) -
    0 - _ - _ - 0 - 0 = _
  rw [Database.xusdGap]
  show _ = s.dgpo.currentMbdSupply.toInt - (_ + s.limitOrders.sum (fun _ o => o.onSale XUSD_SYMBOL) +
    s.convertRequests.sum (fun _ c => c.converting XUSD_SYMBOL))
  ring

/-- An operation keeps both differences exactly when what it issues and reserves of BTCM
cancels out, and of XUSD too; for most operations that is nothing at all. -/
theorem operation_conserves_iff [Externals] {op : Operation} {s s' : Database} (hs : Reachable s)
    (hv : op.validate = .ok ()) (h : Runs (applyOperation BTCM_MAX_PROPOSAL_NESTING op) s () s') :
    (s'.btcmGap = s.btcmGap ∧ s'.xusdGap = s.xusdGap) ↔
      netIssuedBy (calls BTCM_MAX_PROPOSAL_NESTING op s) BTCM_SYMBOL = 0 ∧
        netIssuedBy (calls BTCM_MAX_PROPOSAL_NESTING op s) XUSD_SYMBOL = 0 := by
  have hb := @applyOperation_gap _ _ _ BTCM_SYMBOL _ _ hv hs.proposalsValid h
  have hx := @applyOperation_gap _ _ _ XUSD_SYMBOL _ _ hv hs.proposalsValid h
  rw [gap_btcm, gap_btcm, if_pos (Or.inl rfl)] at hb
  rw [gap_xusd, gap_xusd, if_pos (Or.inr rfl)] at hx
  rw [hb, hx]
  constructor
  · rintro ⟨h1, h2⟩
    exact ⟨by omega, by omega⟩
  · rintro ⟨h1, h2⟩
    rw [h1, h2]
    exact ⟨sub_zero _, sub_zero _⟩

section Samples

open Sample

/-- A genesis in which `initminer` holds a million satoshis of BTCM. -/
def richGenesis : GenesisState where
  initSupply := 1000000
  initSupply_nonneg := million_nonneg

/-- The first block behind that genesis, with no transactions. -/
def firstBlock : SignedBlock := ⟨"initminer", 1585422003, []⟩

/-- Anyone may reserve 1000 BTCM of `initminer`, and they are still booked. -/
theorem reserve_destroys_off_the_books :
    ∃ s s', Reachable s ∧ 1 ≤ s.dgpo.headBlockNumber ∧
      (Operation.assetReserve "initminer1" "initminer" (btcm 1000)).validate = .ok () ∧
      Runs (applyOperation BTCM_MAX_PROPOSAL_NESTING
        (.assetReserve "initminer1" "initminer" (btcm 1000))) s () s' ∧
      s.btcmGap = 0 ∧ s'.btcmGap = 1000 := by
  have hrun : leadsTo (replay richGenesis [firstBlock]) {} (fun s =>
      leadsTo (applyOperation BTCM_MAX_PROPOSAL_NESTING
        (.assetReserve "initminer1" "initminer" (btcm 1000))) s fun s' =>
        decide (1 ≤ s.dgpo.headBlockNumber ∧ s.btcmGap = 0 ∧ s'.btcmGap = 1000)) = true := by
    decide +kernel
  obtain ⟨s, hs, hrun⟩ := leadsTo_iff.mp hrun
  obtain ⟨s', hop, hgap⟩ := leadsTo_iff.mp hrun
  obtain ⟨hhead, h0, h1⟩ := of_decide_eq_true hgap
  exact ⟨s, s', replay_reachable hs, hhead, by decide, hop, h0, h1⟩

/-- A transfer of BTCM keeps both differences as they are. -/
theorem transfer_conserves :
    ∃ s s', Reachable s ∧
      Runs (applyOperation BTCM_MAX_PROPOSAL_NESTING
        (.transfer "initminer" "initminer1" (btcm 1000) "")) s () s' ∧
      s'.btcmGap = s.btcmGap ∧ s'.xusdGap = s.xusdGap := by
  have hrun : leadsTo (replay richGenesis [firstBlock]) {} (fun s =>
      leadsTo (applyOperation BTCM_MAX_PROPOSAL_NESTING
        (.transfer "initminer" "initminer1" (btcm 1000) "")) s fun _ => true) = true := by
    decide +kernel
  obtain ⟨s, hs, hrun⟩ := leadsTo_iff.mp hrun
  obtain ⟨s', hop, -⟩ := leadsTo_iff.mp hrun
  refine ⟨s, s', replay_reachable hs, hop, ?_⟩
  refine (operation_conserves_iff (replay_reachable hs) (by decide) hop).mpr ?_
  rw [calls_eq_self rfl]
  exact ⟨rfl, rfl⟩

end Samples

end BtcmChain
