import BtcmChain.Evaluator.Btcm

set_option autoImplicit false
set_option synthInstance.maxSize 10000000
set_option synthInstance.maxHeartbeats 200000

/-!
# Evaluators of the asset operations

Issuing and reserving go through `adjust_balance` and the asset object's supply. For
BTCM and XUSD, which are asset objects too, the first changes a balance and the
second is *not* the supply of the books: nothing in these evaluators tells the core
assets apart.

A sub-asset belongs to the issuer of its parent, which is the asset whose symbol stands in front of
the last dot (`requireParent`). Creating an asset has a fee of at least `BTCM_ASSET_CREATION_FEE`,
which is taken from the balance of the issuer. Issuing checks the largest supply, and that it is
the issuer who does it; reserving takes from the payer what the issuer signs for, and nothing
relates the two.
-/

namespace BtcmChain

/-- `get<by_id>` on the assets: the asset with this id, which has to be there. -/
def getAssetObject (id : AssetId) : DbM AssetObject := do
  let a ← reads fun s => s.assets.find? id
  a.elim (throw (.assert "Asset with symbol id ${d} does not exist exist")) pure

instance (id : AssetId) : Writes (getAssetObject id) [] :=
  ⟨by unfold getAssetObject; infer_instance⟩

@[simp] theorem runs_bind_getAssetObject {β : Type} {id : AssetId} {s s' : Database} {b : β}
    {f : AssetObject → DbM β} :
    Runs (getAssetObject id >>= f) s b s' ↔ ∃ a, s.assets.find? id = some a ∧ Runs (f a) s b s' := by
  refine runs_bind_of_still fun a t => ?_
  simp only [getAssetObject, runs_bind_reads]
  cases h : s.assets.find? id with
  | none => simp
  | some x => simp [eq_comm]

/-- What stands before the last dot of a symbol, if it has one. -/
def parentSymbol (symbol : String) : Option String :=
  if '.' ∈ symbol.toList then
    some (String.ofList (symbol.toList.reverse.dropWhile (· ≠ '.')).tail.reverse)
  else none

/-- A sub-asset belongs to the issuer of its parent, which has to be there. -/
def requireParent (symbol : String) (issuer : AccountId) : DbM Unit :=
  (parentSymbol symbol).elim (pure ()) fun parent => do
    let p ← assetIndex.getBy (·.symbolString = parent)
      "Asset ${s} may only be created by issuer of ${p}, but ${p} has not been registered"
    require (p.val.issuer = issuer) "Asset ${s} may only be created by issuer of ${p}"

instance (x : String) (i : AccountId) : Writes (requireParent x i) [] :=
  ⟨by unfold requireParent; infer_instance⟩

/-- `BTCM_ASSET_CREATION_FEE`, which is the same for sub-assets. -/
def BTCM_ASSET_CREATION_FEE : Asset := xusd 10000000

/-- `asset_create_evaluator`: a new asset, whose symbol nobody has used, for a fee. -/
def assetCreateEvaluator (o : AssetCreateOperation) : DbM Unit := do
  let known ← assetIndex.any (·.symbolString = o.symbol)
  require (!known) "Asset with symbol ${s} already exist"
  let issuer ← getAccount o.issuer
  requireE (o.fee.ge BTCM_ASSET_CREATION_FEE) "Insufficient fee, need ${m}"
  let balance ← getBalance issuer.id o.fee.assetId
  requireE (balance.ge o.fee) "Insufficient balance, can't pay fee!"
  requireParent o.symbol issuer.id
  payFee issuer.id o.fee
  let _ ← assetIndex.create
    { issuer := issuer.id, symbolString := o.symbol, precision := o.precision
      options := o.commonOptions }

/-- Add to the supply that is recorded in an asset object. -/
def adjustAssetSupply (id : AssetId) (delta : ShareType) : DbM Unit :=
  assetIndex.modify id fun a => do
    let currentSupply ← safeAdd a.currentSupply delta
    return { a with currentSupply }

/-- `asset_issue_evaluator`: the issuer gives so much more of an asset to an account, within the
largest supply. -/
def assetIssueEvaluator (issuer : String) (assetToIssue : Asset) (issueToAccount : String) :
    DbM Unit := do
  let a ← getAssetObject assetToIssue.assetId
  let issuerAc ← getAccount issuer
  require (issuerAc.id = a.issuer) "db().get_account(o.issuer).id == asset_symbol_itr -> issuer"
  let to_ ← getAccount issueToAccount
  let supply ← ofExcept (safeAdd a.currentSupply assetToIssue.amount)
  require (supply ≤ a.options.maxSupply)
    "(current_supply + o.asset_to_issue.amount) <= options.max_supply"
  adjustBalance to_.id assetToIssue
  adjustAssetSupply assetToIssue.assetId assetToIssue.amount

/-- `asset_reserve_evaluator`. It is the *payer* who loses the amount, and the issuer
who signs; nothing relates the two, nor the issuer to the asset. -/
def assetReserveEvaluator (payer : String) (amountToReserve : Asset) : DbM Unit := do
  let _ ← getAssetObject amountToReserve.assetId
  let payerAc ← getAccount payer
  let debit ← ofExcept amountToReserve.neg
  adjustBalance payerAc.id debit
  adjustAssetSupply amountToReserve.assetId debit.amount

/-- `asset_update_evaluator`. The stateless check of the operation always fails, so
it never runs. -/
def assetUpdateEvaluator (o : AssetUpdateOperation) : DbM Unit := do
  let a ← getAssetObject o.assetToUpdate
  require (o.newOptions.flags &&& 0x30 = 0)
    "!(options.flags & disable_force_settle || options.flags & global_settle)"
  require (o.newOptions.issuerPermissions &&& 0x30 = 0)
    "!(options.issuer_permissions & disable_force_settle || options.issuer_permissions & global_settle)"
  require (o.newOptions.issuerPermissions &&& ~~~a.options.issuerPermissions = 0)
    "Cannot reinstate previously revoked issuer permissions on an asset."
  require ((o.newOptions.flags ^^^ a.options.flags) &&& ~~~a.options.issuerPermissions = 0)
    "Flag change is forbidden by issuer permissions"
  let issuer ← getAccount o.issuer
  require (issuer.id = a.issuer) "d.get_account(o.issuer).id == a.issuer"
  o.newIssuer.elim (assetIndex.modify o.assetToUpdate fun a => .ok { a with options := o.newOptions })
    fun name => do
      let new ← getAccount name
      assetIndex.modify o.assetToUpdate fun a =>
        .ok { a with options := o.newOptions, issuer := new.id }

instance (o : AssetCreateOperation) : Writes (assetCreateEvaluator o) [.funds] :=
  ⟨by unfold assetCreateEvaluator; infer_instance⟩
instance (i : AssetId) (d : ShareType) : Writes (adjustAssetSupply i d) [.funds] :=
  ⟨by unfold adjustAssetSupply; infer_instance⟩
instance (i : String) (a : Asset) (t : String) : Writes (assetIssueEvaluator i a t) [.funds] :=
  ⟨by unfold assetIssueEvaluator; infer_instance⟩
instance (p : String) (a : Asset) : Writes (assetReserveEvaluator p a) [.funds] :=
  ⟨by unfold assetReserveEvaluator; infer_instance⟩
instance (o : AssetUpdateOperation) : Writes (assetUpdateEvaluator o) [.funds] :=
  ⟨by unfold assetUpdateEvaluator; infer_instance⟩

/-! ## Inversion -/

section Inversion

variable {s s' : Database}

theorem runs_requireParent {symbol : String} {issuer : AccountId}
    (h : Runs (requireParent symbol issuer) s () s') : s' = s := by
  rw [requireParent] at h
  cases hparent : parentSymbol symbol with
  | none =>
      rw [hparent] at h
      exact (runs_pure.mp h).2
  | some parent =>
      rw [hparent] at h
      simp only [Option.elim_some, runs_bind_getBy, runs_require] at h
      obtain ⟨-, -, -, rfl⟩ := h
      rfl

/-- The issuer pays the fee and the asset starts without supply. -/
theorem runs_assetCreateEvaluator {o : AssetCreateOperation}
    (h : Runs (assetCreateEvaluator o) s () s') :
    ∃ (e : Entry AccountObject) (acct : AccountObject) (t : Database) (a : AssetObject),
      s.accountNamed o.issuer = some (e.id, e.val) ∧ s.accounts.find? e.id = some acct ∧
      o.fee.assetId = XUSD_SYMBOL ∧ o.fee.amount.toInt ≤ acct.mbdBalance.toInt ∧
      Runs (payFee e.id o.fee) s () t ∧ a.currentSupply = 0 ∧ a.options = o.commonOptions ∧
      s' = { t with assets := t.assets.create a } := by
  simp only [assetCreateEvaluator, runs_bind_any, runs_bind_require, runs_bind_getAccount,
    runs_bind_requireE, runs_bind_getBalance, Asset.ge_ok] at h
  obtain ⟨-, e, he, ⟨hid, -⟩, acct, hacct, ⟨-, hge⟩, h⟩ := h
  rw [runs_bind] at h
  obtain ⟨_, s0, hparent, h⟩ := h
  obtain rfl := runs_requireParent hparent
  rw [runs_bind] at h
  obtain ⟨_, t, hfee, h⟩ := h
  simp only [runs_bind_create, runs_pure] at h
  obtain ⟨-, -, rfl⟩ := h
  have hge := of_decide_eq_true hge.symm
  have hid : o.fee.assetId = XUSD_SYMBOL := hid
  have hbalance : s0.balanceOn e.id acct o.fee.assetId = acct.mbdBalance := by
    rw [hid]
    rfl
  rw [hbalance] at hge
  exact ⟨e, acct, t, _, he, hacct, hid, Int64.le_iff_toInt_le.mp hge, hfee, rfl, rfl, rfl⟩

theorem runs_adjustAssetSupply {id : AssetId} {delta : ShareType}
    (h : Runs (adjustAssetSupply id delta) s () s') :
    ∃ (a : AssetObject) (x : ShareType), s.assets.find? id = some a ∧
      x.toInt = a.currentSupply.toInt + delta.toInt ∧
      s' = { s with assets := s.assets.update id fun _ => { a with currentSupply := x } } := by
  obtain ⟨a, b, ha, hb, rfl⟩ := Table.runs_modify.mp h
  simp only [except_bind_ok, except_pure_ok, safeAdd_ok] at hb
  obtain ⟨x, hx, rfl⟩ := hb
  exact ⟨a, x, ha, hx, rfl⟩

/-- Issuing credits the receiver and raises the supply the asset object records, up to
its maximum. -/
theorem runs_assetIssueEvaluator {issuer issueToAccount : String} {x : Asset}
    (h : Runs (assetIssueEvaluator issuer x issueToAccount) s () s') :
    ∃ (a : AssetObject) (to_ : Entry AccountObject) (supply : ShareType) (t : Database),
      s.assets.find? x.assetId = some a ∧ s.accountNamed issueToAccount = some (to_.id, to_.val) ∧
      supply.toInt = a.currentSupply.toInt + x.amount.toInt ∧
      supply.toInt ≤ a.options.maxSupply.toInt ∧ Runs (adjustBalance to_.id x) s () t ∧
      t.assets = s.assets ∧
      s' = { t with assets := s.assets.update x.assetId fun _ => { a with currentSupply := supply } } := by
  simp only [assetIssueEvaluator, runs_bind_getAssetObject, runs_bind_getAccount, runs_bind_require,
    runs_bind_ofExcept, safeAdd_ok] at h
  obtain ⟨a, ha, issuerAc, -, -, to_, hto, supply, hsupply, hmax, h⟩ := h
  rw [runs_bind] at h
  obtain ⟨_, t, h1, h⟩ := h
  have hassets := (adjustBalance_tables h1).2.1
  obtain ⟨a', y, ha', hy, rfl⟩ := runs_adjustAssetSupply h
  rw [hassets] at ha'
  obtain rfl := Option.some.inj (ha.symm.trans ha')
  obtain rfl : y = supply := Int64.toInt_inj.mp (hy.trans hsupply.symm)
  have hmax := of_decide_eq_true hmax
  exact ⟨a, to_, y, t, ha, hto, hsupply, Int64.le_iff_toInt_le.mp hmax, h1, hassets,
    by rw [← hassets]⟩

/-- Reserving debits the payer and lowers the supply the asset object records. -/
theorem runs_assetReserveEvaluator {payer : String} {x : Asset}
    (h : Runs (assetReserveEvaluator payer x) s () s') :
    ∃ (a : AssetObject) (e : Entry AccountObject) (debit : Asset) (supply : ShareType) (t : Database),
      s.assets.find? x.assetId = some a ∧ s.accountNamed payer = some (e.id, e.val) ∧
      x.neg = .ok debit ∧ supply.toInt = a.currentSupply.toInt - x.amount.toInt ∧
      Runs (adjustBalance e.id debit) s () t ∧ t.assets = s.assets ∧
      s' = { t with assets := s.assets.update x.assetId fun _ => { a with currentSupply := supply } } := by
  simp only [assetReserveEvaluator, runs_bind_getAssetObject, runs_bind_getAccount,
    runs_bind_ofExcept] at h
  obtain ⟨a, ha, e, he, debit, hdebit, h⟩ := h
  rw [runs_bind] at h
  obtain ⟨_, t, h1, h⟩ := h
  have hassets := (adjustBalance_tables h1).2.1
  obtain ⟨a', y, ha', hy, rfl⟩ := runs_adjustAssetSupply h
  rw [hassets] at ha'
  obtain rfl := Option.some.inj (ha.symm.trans ha')
  rw [(Asset.neg_ok.mp hdebit).1, ← sub_eq_add_neg] at hy
  exact ⟨a, e, debit, y, t, ha, he, hdebit, hy, h1, hassets, by rw [← hassets]⟩

end Inversion

end BtcmChain
