import BtcmChain.Chain.NetworkLoad
import BtcmChain.Chain.Transactions
import BtcmChain.Db.SnapshotLog
import Mathlib.Data.List.Dedup

set_option autoImplicit false
set_option synthInstance.maxSize 10000000
set_option synthInstance.maxHeartbeats 200000

/-!
# Bandwidth

Every account that signs a transaction is charged for its size. The averages and the load of the
network stand beside the objects of `Chain.Transactions`, whose programs never look at them: a
block is applied here in the same steps as there, with the size of the block checked first and
the signers of a transaction charged once its signatures are known to be good.

How many bytes a transaction or a block takes is a parameter.
-/

namespace BtcmChain

/-- `fc::raw::pack_size` of transactions and blocks, of which it only matters that a block is no
shorter than each of its transactions. -/
class Packing where
  transactionSize : SignedTransaction → UInt64
  blockSize : BlockContents → UInt64
  /-- The bytes of a block are those of its transactions, and more. -/
  transactionSize_le : ∀ {b : BlockContents} {t : SignedTransaction}, t ∈ b.transactions →
    (transactionSize t).toNat ≤ (blockSize b).toNat

/-! ## Averages -/

/-- The bandwidth fields of `account_object`: what it has used on average and altogether, and when.
-/
structure AccountUsage where
  averageBandwidth : UInt64 := 0
  lifetimeBandwidth : UInt64 := 0
  lastBandwidthUpdate : TimePointSec := 0
  averageMarketBandwidth : UInt64 := 0
  lastMarketBandwidthUpdate : TimePointSec := 0
  deriving DecidableEq

/-- `(now - last).to_seconds()`, which is negative when the clock was ahead. -/
def secondsSince (last now : TimePointSec) : ℤ := now.toNat - last.toNat

/-- The average before a transaction, faded, and `n` on top. The signed time goes into the product
as an unsigned number. -/
def fadeAndAdd (average : UInt64) (deltaTime : ℤ) (n : UInt64) : UInt64 :=
  if BTCM_BANDWIDTH_AVERAGE_WINDOW_SECONDS.toNat ≤ deltaTime then n
  else
    let oldWeight :=
      if 0 < deltaTime then
        average * UInt64.ofInt (BTCM_BANDWIDTH_AVERAGE_WINDOW_SECONDS.toNat - deltaTime) /
          BTCM_BANDWIDTH_AVERAGE_WINDOW_SECONDS
      else average
    oldWeight + n

/-- The weighted mean of the average before a transaction and of `n`. -/
def weigh (average : UInt64) (deltaTime : ℤ) (n : UInt64) : UInt64 :=
  if BTCM_BANDWIDTH_AVERAGE_WINDOW_SECONDS.toNat ≤ deltaTime then n
  else
    let oldWeight :=
      average * UInt64.ofInt (BTCM_BANDWIDTH_AVERAGE_WINDOW_SECONDS.toNat - deltaTime)
    let newWeight := UInt64.ofInt deltaTime * n
    (oldWeight + newWeight) / BTCM_BANDWIDTH_AVERAGE_WINDOW_SECONDS

namespace AccountUsage

/-- What a transaction of so many units makes of the fields. -/
def charge (u : AccountUsage) (now : TimePointSec) (n : UInt64) : AccountUsage :=
  { u with
    lifetimeBandwidth := u.lifetimeBandwidth + n
    averageBandwidth := fadeAndAdd u.averageBandwidth (secondsSince u.lastBandwidthUpdate now) n
    lastBandwidthUpdate := now }

/-- What an account has used after a transaction with a market operation: the market average, and
the time of it. -/
def chargeMarket (u : AccountUsage) (now : TimePointSec) (n : UInt64) : AccountUsage :=
  { u with
    averageMarketBandwidth :=
      weigh u.averageMarketBandwidth (secondsSince u.lastMarketBandwidthUpdate now) n
    lastMarketBandwidthUpdate := now }

end AccountUsage

/-! ## The meters -/

/-- All objects, the load of the network, and what every account has used. -/
structure Metered where
  objects : Objects
  load : NetworkLoad := .genesis
  usage : AccountId → AccountUsage := fun _ => {}

/-- Programs over the chain with its bandwidth, which return or throw. -/
abbrev MeteredM := StateT Metered (Except Exn)

/-- Run a program on the objects, with the bandwidth left as it is. -/
def onObjects {α : Type} (m : ObjectsM α) : MeteredM α := fun s =>
  (m s.objects).map fun r => (r.1, { s with objects := r.2 })

theorem runs_onObjects {α : Type} {m : ObjectsM α} {s s' : Metered} {a : α} :
    Runs (onObjects m) s a s' ↔ ∃ o, Runs m s.objects a o ∧ s' = { s with objects := o } := by
  simp only [Runs, onObjects]
  cases m s.objects with
  | error e => simp [Except.map]
  | ok r =>
      obtain ⟨b, o⟩ := r
      simp only [Except.map, Except.ok.injEq, Prod.mk.injEq]
      constructor
      · rintro ⟨rfl, rfl⟩
        exact ⟨o, ⟨rfl, rfl⟩, rfl⟩
      · rintro ⟨o, ⟨rfl, rfl⟩, rfl⟩
        exact ⟨rfl, rfl⟩

/-- `get_effective_vesting_shares` of the core symbol: own shares, less those delegated, and those
received. -/
def AccountObject.effectiveVestingShares (a : AccountObject) : Except Exn ShareType := do
  let own ← safeSub a.vestingShares a.delegatedVestingShares
  let held ← safeAdd own a.receivedVestingShares
  let kept ← safeSub held a.redelegatedVestingShares
  safeAdd kept a.rereceivedVestingShares

/-- Put down what an account has used, and leave all other accounts alone. -/
def setUsage (a : AccountId) (u : AccountUsage) : MeteredM Unit :=
  modify fun s => { s with usage := Function.update s.usage a u }

/-- `update_account_bandwidth`: the average is checked against the shares, and the transaction added
to it. -/
def updateAccountBandwidth (a : Entry AccountObject) (trxSize : UInt32) : MeteredM Unit := do
  let totalVestingShares ← reads fun s => s.objects.db.dgpo.totalVestingShares
  whenM (0 < totalVestingShares) do
    let now ← reads fun s => s.objects.db.dgpo.time
    let usage ← reads fun s => s.usage a.id
    let usage := usage.charge now (trxSize.toUInt64 * BTCM_BANDWIDTH_PRECISION)
    let shares ← ofExcept a.val.effectiveVestingShares
    let accountVshares := if UInt128.ofShare shares = 0 then 1 else UInt128.ofShare shares
    let maxVirtualBandwidth ← reads fun s => s.load.maxVirtualBandwidth
    ofExcept (fcAssert
      (UInt128.ofUInt64 usage.averageBandwidth * UInt128.ofShare totalVestingShares <
        accountVshares * UInt128.ofUInt64 maxVirtualBandwidth)
      "account exceeded maximum allowed bandwidth per vesting share")
    setUsage a.id usage

/-- `update_account_market_bandwidth`: the same for the market average, against a tenth of the
capacity. -/
def updateAccountMarketBandwidth (a : Entry AccountObject) (trxSize : UInt32) : MeteredM Unit := do
  let totalVestingShares ← reads fun s => s.objects.db.dgpo.totalVestingShares
  whenM (0 < totalVestingShares) do
    let now ← reads fun s => s.objects.db.dgpo.time
    let usage ← reads fun s => s.usage a.id
    let usage := usage.chargeMarket now (trxSize.toUInt64 * BTCM_BANDWIDTH_PRECISION)
    let shares ← ofExcept a.val.effectiveVestingShares
    let accountVshares := UInt128.ofShare shares
    ofExcept (fcAssert (0 < accountVshares)
      "only accounts with a positive vesting balance may transact")
    let maxVirtualBandwidth ← reads fun s => s.load.maxVirtualBandwidth / 10
    ofExcept (fcAssert
      (UInt128.ofUInt64 usage.averageMarketBandwidth * UInt128.ofShare totalVestingShares <
        accountVshares * UInt128.ofUInt64 maxVirtualBandwidth)
      "account exceeded maximum allowed bandwidth per vesting share")
    setUsage a.id usage

/-- `is_market_operation`: the four operations that are charged to the market average too. -/
def Operation.isMarket : Operation → Bool
  | .limitOrderCreate _ | .limitOrderCancel _ _ | .transfer _ _ _ _ | .transferToVesting _ _ _ => true
  | _ => false

/-- The accounts that `_apply_transaction` charges: all whose authority is required, each of them
once. -/
def Transaction.required (t : Transaction) : List String :=
  nameSet (t.operations.flatMap Operation.requiredNames)

/-- Charge one account for a transaction: its bandwidth, and its market bandwidth when there is a
market operation. -/
def chargeAccount (t : Transaction) (trxSize : UInt32) (auth : String) : MeteredM Unit := do
  let acnt ← onObjects (onDb (getAccount auth))
  updateAccountBandwidth acnt trxSize
  whenM (t.operations.any Operation.isMarket) do
    let acnt ← onObjects (onDb (getAccount auth))
    updateAccountMarketBandwidth acnt trxSize

/-- Charge all accounts whose authority a transaction requires, in the order of their names. -/
def meterTransaction (t : Transaction) (trxSize : UInt32) : MeteredM Unit :=
  t.required.forM (chargeAccount t trxSize)

/-! ## Transactions and blocks -/

section Apply

variable [Externals] [Cryptography]

/-- `_apply_transaction` up to the signatures: the operations are validated, duplicates are looked
for, and the signatures are checked. -/
def checkTransaction (skip : SkipFlags) (t : SignedTransaction) : ObjectsM Unit := do
  whenM (!skip.validate) (ofExcept do
    fcAssert (!t.operations.isEmpty) "A transaction must have at least one operation"
    validateAll t.operations)
  let known ← reads fun s => s.knows t.id
  ofExcept (fcAssert (skip.transactionDupeCheck || !known)
    "trx_idx.indices().get<by_trx_id>().find(trx_id) == trx_idx.indices().get<by_trx_id>().end()")
  let authorized ← reads fun s => Cryptography.verifyAuthority t s.db
  whenM (!(skip.transactionSignatures || skip.authorityCheck)) (ofExcept authorized)

/-- `_apply_transaction` behind the bandwidth: the time, the record of the transaction, and its
operations. -/
def executeTransaction (skip : SkipFlags) (t : SignedTransaction) : ObjectsM Unit := do
  checkTime skip t.toTransaction
  whenM (!skip.transactionDupeCheck) (createTransactionObject t)
  onDb (t.operations.forM (applyOperation BTCM_MAX_PROPOSAL_NESTING))

theorem applySignedTransaction_eq (skip : SkipFlags) (t : SignedTransaction) :
    applySignedTransaction skip t = (do
      checkTransaction skip t
      executeTransaction skip t) := by
  simp only [applySignedTransaction, checkTransaction, executeTransaction, bind_assoc]

variable [Packing]

/-- `_apply_transaction`: the checks, the charges, and the operations, in this order. -/
def applyMeteredTransaction (skip : SkipFlags) (t : SignedTransaction) : MeteredM Unit := do
  onObjects (checkTransaction skip t)
  meterTransaction t.toTransaction (Packing.transactionSize t).toUInt32
  onObjects (executeTransaction skip t)

/-- `_apply_block` up to the transactions: the checks of the header, and who produces the block. -/
def openBlock (skip : SkipFlags) (b : BlockContents) : MeteredM Unit := do
  onObjects do
    ofExcept (fcAssert (skip.merkleCheck ||
      b.transactionMerkleRoot = Cryptography.merkleRoot b.transactions) "mysterious place...")
    onDb (validateBlockHeader skip b)
  let maximumBlockSize ← reads fun s => s.objects.db.dgpo.maximumBlockSize
  ofExcept (fcAssert (Packing.blockSize b ≤ maximumBlockSize.toUInt64) "Block Size is too Big")
  onObjects (onDb (modifyParams fun p => { p with currentWitness := b.witness }))

/-- What `update_global_dynamic_data` does to the load, before it moves the clock. -/
def updateLoad (b : BlockContents) : MeteredM Unit :=
  modify fun s =>
    let d := s.objects.db
    { s with
      load := s.load.update (d.slotAtTime b.timestamp).toNat (d.dgpo.headBlockNumber + 1)
        d.dgpo.maximumBlockSize (Packing.blockSize b) }

/-- `_apply_block` behind the transactions: the network load, the global properties, and all that
happens once a block. -/
def closeBlock (skip : SkipFlags) (id : BlockId) (b : BlockContents) : MeteredM Unit := do
  updateLoad b
  onObjects do
    onDb do
      updateGlobalDynamicDataUnder skip b.witness b.timestamp
      updateSigningWitness b.witness b.timestamp
      updateLastIrreversibleBlock
    createBlockSummary id
    clearExpiredTransactions
    onDb do
      clearExpiredProposals
      settleBlock
      accountRecoveryProcessing

/-- `_apply_block`, behind the check that the parent is the head block. -/
def applyMeteredBlock (skip : SkipFlags) (id : BlockId) (b : BlockContents) : MeteredM Unit := do
  openBlock skip b
  b.transactions.forM (applyMeteredTransaction skip)
  closeBlock skip id b

end Apply

/-! ## What the parts leave alone -/

section Frames

variable {s s' : Metered}

theorem runs_setUsage {a : AccountId} {u : AccountUsage} :
    Runs (setUsage a u) s () s' ↔ s' = { s with usage := Function.update s.usage a u } := runs_modify

/-- An average is covered by the share of the capacity that the vesting shares stand for. -/
def Metered.covers (s : Metered) (accountVshares : UInt128) (capacity average : UInt64) : Bool :=
  UInt128.ofUInt64 average * UInt128.ofShare s.objects.db.dgpo.totalVestingShares <
    accountVshares * UInt128.ofUInt64 capacity

/-- The shares that the first check counts with: an account without any counts as having one. -/
def countedShares (shares : ShareType) : UInt128 :=
  if UInt128.ofShare shares = 0 then 1 else UInt128.ofShare shares

/-- The first charge of an account, if there are vesting shares at all. -/
theorem runs_updateAccountBandwidth {a : Entry AccountObject} {trxSize : UInt32}
    (h : Runs (updateAccountBandwidth a trxSize) s () s') :
    (¬ 0 < s.objects.db.dgpo.totalVestingShares ∧ s' = s) ∨
      0 < s.objects.db.dgpo.totalVestingShares ∧
        ∃ u shares, u = (s.usage a.id).charge s.objects.db.dgpo.time
            (trxSize.toUInt64 * BTCM_BANDWIDTH_PRECISION) ∧
          a.val.effectiveVestingShares = .ok shares ∧
          s.covers (countedShares shares) s.load.maxVirtualBandwidth u.averageBandwidth = true ∧
          s' = { s with usage := Function.update s.usage a.id u } := by
  simp only [updateAccountBandwidth, runs_bind_reads, runs_whenM, decide_eq_true_eq,
    decide_eq_false_iff_not] at h
  obtain ⟨htotal, h⟩ | ⟨htotal, rfl⟩ := h
  · simp only [runs_bind_ofExcept, runs_bind_reads, runs_setUsage, fcAssert_ok] at h
    obtain ⟨shares, hshares, _, hcovers, rfl⟩ := h
    exact Or.inr ⟨htotal, _, shares, rfl, hshares, hcovers, rfl⟩
  · exact Or.inl ⟨htotal, rfl⟩

/-- A run of the second charge: the checks that it made, and what it has put down. -/
theorem runs_updateAccountMarketBandwidth {a : Entry AccountObject} {trxSize : UInt32}
    (h : Runs (updateAccountMarketBandwidth a trxSize) s () s') :
    (¬ 0 < s.objects.db.dgpo.totalVestingShares ∧ s' = s) ∨
      0 < s.objects.db.dgpo.totalVestingShares ∧
        ∃ u shares, u = (s.usage a.id).chargeMarket s.objects.db.dgpo.time
            (trxSize.toUInt64 * BTCM_BANDWIDTH_PRECISION) ∧
          a.val.effectiveVestingShares = .ok shares ∧ 0 < UInt128.ofShare shares ∧
          s.covers (UInt128.ofShare shares) (s.load.maxVirtualBandwidth / 10)
            u.averageMarketBandwidth = true ∧
          s' = { s with usage := Function.update s.usage a.id u } := by
  simp only [updateAccountMarketBandwidth, runs_bind_reads, runs_whenM, decide_eq_true_eq,
    decide_eq_false_iff_not] at h
  obtain ⟨htotal, h⟩ | ⟨htotal, rfl⟩ := h
  · simp only [runs_bind_ofExcept, runs_bind_reads, runs_setUsage, fcAssert_ok] at h
    obtain ⟨shares, hshares, _, hpositive, _, hcovers, rfl⟩ := h
    exact Or.inr ⟨htotal, _, shares, rfl, hshares, of_decide_eq_true hpositive, hcovers, rfl⟩
  · exact Or.inl ⟨htotal, rfl⟩

/-- What a transaction makes of the fields of one who signed it. -/
def Metered.charged (s : Metered) (t : Transaction) (trxSize : UInt32) (a : AccountId) :
    AccountUsage :=
  let n := trxSize.toUInt64 * BTCM_BANDWIDTH_PRECISION
  let now := s.objects.db.dgpo.time
  if 0 < s.objects.db.dgpo.totalVestingShares then
    let usage := (s.usage a).charge now n
    if t.operations.any Operation.isMarket then usage.chargeMarket now n else usage
  else s.usage a

/-- The checks of a charge, which the average has to stand: it is covered by the shares of the
account. -/
structure Metered.Covered (s : Metered) (t : Transaction) (u : AccountUsage) (shares : ShareType) :
    Prop where
  average : s.covers (countedShares shares) s.load.maxVirtualBandwidth u.averageBandwidth = true
  marketAverage : t.operations.any Operation.isMarket = true → 0 < UInt128.ofShare shares ∧
    s.covers (UInt128.ofShare shares) (s.load.maxVirtualBandwidth / 10)
      u.averageMarketBandwidth = true

/-- One who signed a transaction is charged for it, and the checks hold of what is put down. -/
structure Metered.Charges (s : Metered) (t : Transaction) (trxSize : UInt32)
    (e : Nat × AccountObject) (u : AccountUsage) : Prop where
  usage : u = s.charged t trxSize e.1
  covered : 0 < s.objects.db.dgpo.totalVestingShares →
    ∃ shares, e.2.effectiveVestingShares = .ok shares ∧ s.Covered t u shares

theorem runs_chargeAccount {t : Transaction} {trxSize : UInt32} {auth : String}
    (h : Runs (chargeAccount t trxSize auth) s () s') :
    ∃ e u, s.objects.db.accountNamed auth = some e ∧ s.Charges t trxSize e u ∧
      s' = { s with usage := Function.update s.usage e.1 u } := by
  have hget {u v : Metered} {a : Entry AccountObject}
      (hr : Runs (onObjects (onDb (getAccount auth))) u a v) :
      u.objects.db.accountNamed auth = some (a.id, a.val) ∧ v = u := by
    obtain ⟨o, ho, rfl⟩ := runs_onObjects.mp hr
    obtain ⟨d, hd, rfl⟩ := runs_onDb.mp ho
    obtain ⟨hfound, rfl⟩ := Table.runs_getBy.mp hd
    exact ⟨hfound, rfl⟩
  obtain ⟨a, r, ha, hrest⟩ := runs_bind.mp h
  obtain ⟨hfound, rfl⟩ := hget ha
  obtain ⟨_, v, hfirst, hsecond⟩ := runs_bind.mp hrest
  rcases runs_updateAccountBandwidth hfirst with
    ⟨htotal, rfl⟩ | ⟨htotal, u, shares, hu, hshares, hcovers, rfl⟩
  · -- no vesting shares, no charge
    have hv : s' = v := by
      rcases runs_whenM.mp hsecond with ⟨-, hmore⟩ | ⟨-, rfl⟩
      · obtain ⟨a', w, ha', hlast⟩ := runs_bind.mp hmore
        obtain ⟨-, rfl⟩ := hget ha'
        rcases runs_updateAccountMarketBandwidth hlast with ⟨-, rfl⟩ | ⟨hpositive, -⟩
        · rfl
        · exact absurd hpositive htotal
      · rfl
    refine ⟨_, v.usage a.id, hfound, ⟨?_, fun hpositive => absurd hpositive htotal⟩, ?_⟩
    · rw [Metered.charged, if_neg htotal]
    · rw [hv, Function.update_eq_self]
  · rcases runs_whenM.mp hsecond with ⟨hmarket, hmore⟩ | ⟨hmarket, rfl⟩
    · obtain ⟨a', w, ha', hlast⟩ := runs_bind.mp hmore
      obtain ⟨hfound', rfl⟩ := hget ha'
      obtain ⟨hid, hval⟩ := Prod.mk.inj (Option.some.inj (hfound'.symm.trans hfound))
      rcases runs_updateAccountMarketBandwidth hlast with
        ⟨hno, -⟩ | ⟨-, u', shares', hu', hshares', hpositive, hcovers', rfl⟩
      · exact absurd htotal hno
      · rw [hid] at hu'
        rw [hval] at hshares'
        cases hshares.symm.trans hshares'
        simp only [Function.update_self] at hu'
        have haverage : u'.averageBandwidth = u.averageBandwidth := by rw [hu', AccountUsage.chargeMarket]
        refine ⟨_, u', hfound, ⟨?_, fun _ => ⟨shares, hshares, ?_, fun _ => ⟨hpositive, hcovers'⟩⟩⟩, ?_⟩
        · simp only [Metered.charged, if_pos htotal, if_pos hmarket, hu', hu]
        · rw [haverage]
          exact hcovers
        · simp only [hid, Function.update_idem]
    · have hordinary : ¬ t.operations.any Operation.isMarket = true := by simp [hmarket]
      refine ⟨_, u, hfound, ⟨?_, fun _ => ⟨shares, hshares, hcovers, fun h => absurd h hordinary⟩⟩, rfl⟩
      simp only [Metered.charged, if_pos htotal, if_neg hordinary, hu]

/-- No account has two names: two names under which the same account is found are one. -/
theorem accountNamed_inj {d : Database} {auth auth' : String} {e e' : Nat × AccountObject}
    (h : d.accountNamed auth = some e) (h' : d.accountNamed auth' = some e') (hid : e.1 = e'.1) :
    auth = auth' := by
  obtain ⟨hfind, hname⟩ := ObjectIndex.find?_of_findBy? h
  obtain ⟨hfind', hname'⟩ := ObjectIndex.find?_of_findBy? h'
  rw [hid, hfind'] at hfind
  rw [← of_decide_eq_true hname, ← of_decide_eq_true hname', Option.some.inj hfind]

/-- The charge of another account changes nothing in what this one is charged. -/
theorem Metered.Charges.other {t : Transaction} {trxSize : UInt32} {e : Nat × AccountObject}
    {u v : AccountUsage} {a : AccountId} (hne : e.1 ≠ a)
    (h : Metered.Charges { s with usage := Function.update s.usage a v } t trxSize e u) :
    s.Charges t trxSize e u := by
  refine ⟨?_, fun htotal => ?_⟩
  · rw [h.usage]
    simp only [Metered.charged, Function.update_of_ne hne]
  · obtain ⟨shares, hshares, hcovered⟩ := h.covered htotal
    exact ⟨shares, hshares, hcovered.average, hcovered.marketAverage⟩

theorem runs_chargeAccounts {t : Transaction} {trxSize : UInt32} {l : List String} (hl : l.Nodup)
    (h : Runs (l.forM (chargeAccount t trxSize)) s () s') :
    s'.objects = s.objects ∧ s'.load = s.load ∧
      (∀ auth ∈ l, ∃ e, s.objects.db.accountNamed auth = some e ∧
        s.Charges t trxSize e (s'.usage e.1)) ∧
      ∀ a, (∀ auth ∈ l, ∀ e, s.objects.db.accountNamed auth = some e → e.1 ≠ a) →
        s'.usage a = s.usage a := by
  induction l generalizing s with
  | nil =>
      obtain ⟨-, rfl⟩ := runs_pure.mp h
      exact ⟨rfl, rfl, by simp, fun _ _ => rfl⟩
  | cons auth l ih =>
      obtain ⟨hnew, hl⟩ := List.nodup_cons.mp hl
      obtain ⟨_, r, hfirst, hrest⟩ := runs_bind.mp h
      obtain ⟨e, u, he, hu, rfl⟩ := runs_chargeAccount hfirst
      obtain ⟨hobjects, hload, hcharged, hkept⟩ := ih hl hrest
      have hothers : ∀ auth' ∈ l, ∀ e', s.objects.db.accountNamed auth' = some e' → e'.1 ≠ e.1 := by
        intro auth' hmem e' he' hid
        exact hnew (accountNamed_inj he' he hid ▸ hmem)
      refine ⟨hobjects, hload, ?_, ?_⟩
      · intro auth' hmem
        rcases List.mem_cons.mp hmem with rfl | hmem
        · have hself : s'.usage e.1 = u := (hkept e.1 hothers).trans (Function.update_self ..)
          exact ⟨e, he, hself ▸ hu⟩
        · obtain ⟨e', he', hcharges⟩ := hcharged auth' hmem
          exact ⟨e', he', hcharges.other (hothers auth' hmem e' he')⟩
      · intro a ha
        rw [hkept a fun auth' hmem => ha auth' (List.mem_cons_of_mem _ hmem)]
        exact Function.update_of_ne (Ne.symm (ha auth List.mem_cons_self e he)) ..

theorem nodup_required (t : Transaction) : t.required.Nodup :=
  (List.perm_insertionSort _ _).nodup_iff.mpr (List.nodup_dedup _)

/-- Every account whose authority is required is charged, once, and nobody else is. -/
theorem runs_meterTransaction {t : Transaction} {trxSize : UInt32}
    (h : Runs (meterTransaction t trxSize) s () s') :
    s'.objects = s.objects ∧ s'.load = s.load ∧
      (∀ auth ∈ t.required, ∃ e, s.objects.db.accountNamed auth = some e ∧
        s.Charges t trxSize e (s'.usage e.1)) ∧
      ∀ a, (∀ auth ∈ t.required, ∀ e, s.objects.db.accountNamed auth = some e → e.1 ≠ a) →
        s'.usage a = s.usage a :=
  runs_chargeAccounts (nodup_required t) h

section Blocks

variable [Externals] [Cryptography]

theorem runs_checkTransaction {skip : SkipFlags} {t : SignedTransaction} {o o' : Objects}
    (h : Runs (checkTransaction skip t) o () o') : o' = o := by
  simp only [checkTransaction, runs_bind_whenM_ofExcept, runs_bind_reads, runs_bind_ofExcept,
    runs_whenM, runs_ofExcept] at h
  obtain ⟨-, -, -, ⟨-, -, rfl⟩ | ⟨-, rfl⟩⟩ := h <;> rfl

variable [Packing]

/-- The charges come on top of what is done to the objects. -/
theorem runs_applyMeteredTransaction {skip : SkipFlags} {t : SignedTransaction}
    (h : Runs (applyMeteredTransaction skip t) s () s') :
    Runs (applySignedTransaction skip t) s.objects () s'.objects ∧ s'.load = s.load ∧
      ∃ u, Runs (meterTransaction t.toTransaction (Packing.transactionSize t).toUInt32) s () u ∧
        s'.usage = u.usage := by
  obtain ⟨_, r, hfirst, hrest⟩ := runs_bind.mp h
  obtain ⟨o, hcheck, rfl⟩ := runs_onObjects.mp hfirst
  obtain rfl := runs_checkTransaction hcheck
  obtain ⟨_, u, hmeter, hlast⟩ := runs_bind.mp hrest
  obtain ⟨o', hexec, rfl⟩ := runs_onObjects.mp hlast
  obtain ⟨hobjects, hload, -⟩ := runs_meterTransaction hmeter
  rw [hobjects] at hexec
  refine ⟨?_, hload, u, hmeter, rfl⟩
  rw [applySignedTransaction_eq]
  exact runs_bind.mpr ⟨(), s.objects, hcheck, hexec⟩

omit [Externals] [Packing] in
theorem writes_validateBlockHeader (skip : SkipFlags) (b : BlockContents) :
    Writes (validateBlockHeader skip b) [] :=
  ⟨by unfold validateBlockHeader; infer_instance⟩

omit [Externals] in
/-- A block is opened: its size is checked, and no meter moves. -/
theorem runs_openBlock {skip : SkipFlags} {b : BlockContents} (h : Runs (openBlock skip b) s () s') :
    s'.load = s.load ∧ s'.usage = s.usage ∧ s'.objects.db.clock = s.objects.db.clock ∧
      s.objects.db.dgpo.time < b.timestamp ∧ (Packing.blockSize b).toNat < 2 ^ 32 := by
  obtain ⟨_, t, hfirst, hrest⟩ := runs_bind.mp h
  obtain ⟨o, ho, rfl⟩ := runs_onObjects.mp hfirst
  rw [runs_bind_ofExcept] at ho
  obtain ⟨_, -, ho⟩ := ho
  obtain ⟨d, hd, rfl⟩ := runs_onDb.mp ho
  have hclock : d.clock = s.objects.db.clock :=
    (writes_validateBlockHeader skip b).clock_eq hd (by decide)
  simp only [validateBlockHeader, runs_bind_headBlockTime, runs_bind_require] at hd
  rw [runs_bind_reads, runs_bind_ofExcept] at hrest
  obtain ⟨_, hsize, hrest⟩ := hrest
  obtain ⟨o, ho, rfl⟩ := runs_onObjects.mp hrest
  obtain ⟨d', hd', rfl⟩ := runs_onDb.mp ho
  have hle := UInt64.le_iff_toNat_le.mp (of_decide_eq_true (fcAssert_ok.mp hsize))
  rw [UInt32.toNat_toUInt64] at hle
  exact ⟨rfl, rfl, (Writes.clock_eq hd' (by decide)).trans hclock, of_decide_eq_true hd.1,
    lt_of_le_of_lt hle (UInt32.toNat_lt _)⟩

omit [Cryptography] in
/-- A block is closed: the load is that of the block. -/
theorem runs_closeBlock {skip : SkipFlags} {id : BlockId} {b : BlockContents}
    (h : Runs (closeBlock skip id b) s () s') :
    s'.usage = s.usage ∧
      s'.load = s.load.update (s.objects.db.slotAtTime b.timestamp).toNat
        (s.objects.db.dgpo.headBlockNumber + 1) s.objects.db.dgpo.maximumBlockSize
        (Packing.blockSize b) := by
  obtain ⟨_, t, hload, hrest⟩ := runs_bind.mp h
  obtain rfl := runs_modify.mp hload
  obtain ⟨o, -, rfl⟩ := runs_onObjects.mp hrest
  exact ⟨rfl, rfl⟩

end Blocks

end Frames

/-! ## Runs -/

namespace Metered

section Runs

variable [Externals] [Cryptography] [Packing]

/-- Whether a transaction may come now: inside a block it is one of the block's, between blocks
`push_transaction` looks at its size. -/
def Admits (s : Metered) (t : SignedTransaction) : Option BlockContents → Prop
  | some b => t ∈ b.transactions
  | none => Packing.transactionSize t ≤ (s.objects.db.dgpo.maximumBlockSize - 256).toUInt64

/-- The states of all runs, between blocks and inside the block given. Transactions between
blocks are those that wait for one. -/
inductive Reached : Option BlockContents → Metered → Prop
  | genesis {g : GenesisState} {d : Database} : Runs (initGenesis g) {} () d →
      Reached none { objects := { db := d } }
  | opened {skip : SkipFlags} {b : BlockContents} {s s' : Metered} : Reached none s →
      Runs (openBlock skip b) s () s' → Reached (some b) s'
  | applied {skip : SkipFlags} {o : Option BlockContents} {t : SignedTransaction} {s s' : Metered} :
      Reached o s → s.Admits t o → Runs (applyMeteredTransaction skip t) s () s' → Reached o s'
  | closed {skip : SkipFlags} {id : BlockId} {b : BlockContents} {s s' : Metered} :
      Reached (some b) s → Runs (closeBlock skip id b) s () s' → Reached none s'

theorem Reached.block {skip : SkipFlags} {id : BlockId} {b : BlockContents} {s s' : Metered}
    (hs : Reached none s) (h : Runs (applyMeteredBlock skip id b) s () s') : Reached none s' := by
  obtain ⟨_, t, hopen, h⟩ := runs_bind.mp h
  obtain ⟨_, u, hall, hclose⟩ := runs_bind.mp h
  have hu : Reached (some b) u :=
    forM_induction (P := Reached (some b)) (fun t ht v w hv hr => hv.applied ht hr) hall
      (hs.opened hopen)
  exact hu.closed hclose

end Runs

end Metered

/-! ## Pending transactions -/

/-- The objects with their undo sessions, whether there is a session for what is pending, and what
is. -/
structure TransactionPool where
  log : Watched Metered
  pendingTxSession : Bool := false
  pendingTx : List SignedTransaction := []

namespace TransactionPool

variable [Externals] [Cryptography] [Packing]

/-- `push_transaction`. A transaction that throws may leave anything behind (`halfway`); it is the
destructor of its session that cleans up. -/
def pushTransaction (halfway : Metered → Metered) (skip : SkipFlags) (t : SignedTransaction) :
    EStateM Exn TransactionPool Unit := fun p =>
  let s := p.log.objects
  if Packing.transactionSize t ≤ (s.objects.db.dgpo.maximumBlockSize - 256).toUInt64 then
    let pending := if p.pendingTxSession then p.log else p.log.startUndoSession
    let session := pending.startUndoSession
    match applyMeteredTransaction skip t s with
    | .ok ((), s') =>
        let pendingTx := p.pendingTx ++ [t]
        match (session.change s').merge with
        | .ok log => .ok () { log, pendingTxSession := true, pendingTx }
        | .error e => .error e
            { log := (session.change s').destroy false, pendingTxSession := true, pendingTx }
    | .error e => .error e
        { p with log := (session.change (halfway s)).destroy false, pendingTxSession := true }
  else .error (.assert
    "fc::raw::pack_size(trx) <= (get_dynamic_global_properties().maximum_block_size - 256)") p

/-- A pool on a node that runs: the undo database is on, which it is not only while blocks are
replayed at the start. -/
inductive Reached (halfway : Metered → Metered) : TransactionPool → Prop
  | opened {log : Watched Metered} : Metered.Reached none log.objects → log.disabled = false →
      Reached halfway { log }
  | pushed {skip : SkipFlags} {t : SignedTransaction} {p : TransactionPool} : Reached halfway p →
      Reached halfway (after (pushTransaction halfway skip t) p)

end TransactionPool

end BtcmChain
