import BtcmChain.Chain.Vesting
import BtcmChain.Chain.Schedule
import BtcmChain.Protocol.Validate
import Mathlib.Data.UInt

set_option autoImplicit false
set_option synthInstance.maxSize 10000000
set_option synthInstance.maxHeartbeats 200000

/-!
# Evaluators of the base operations

`do_apply` of accounts, transfers, vesting, orders, witnesses and recovery, each
under its operation's name. An evaluator runs after the operation passed its
stateless checks and either returns or throws; its footprint is declared right
after it.

What several evaluators share has a name of its own: taking BTCM from a balance (`debitBtcm`), the
record of a new account (`newAccount`), raising and lowering a delegation, and clearing the votes
of an account that names a proxy. The footprints (`runs_…`) say which concerns of the state an
evaluator may touch. They are proved by walking through the evaluator once, so that an invariant of
some concern has to look only at the evaluators that touch it.
-/

namespace BtcmChain

/-! ## Witnesses and feeds -/

/-- `witness_update_evaluator`: an account becomes a witness, or changes what it says as one. -/
def witnessUpdateEvaluator (o : WitnessUpdateOperation) : DbM Unit := do
  let _ ← getAccount o.owner
  require (o.url.utf8ByteSize ≤ 2048) "o.url.size() <= BTCM_MAX_WITNESS_URL_LENGTH"
  let found ← witnessIndex.findBy? (·.owner = o.owner)
  let now ← headBlockTime
  found.elim
    (do
      let _ ← witnessIndex.create
        { owner := o.owner, url := o.url, signingKey := o.blockSigningKey, created := now
          props := o.props })
    fun w => witnessIndex.modify w.id fun w =>
      .ok { w with url := o.url, signingKey := o.blockSigningKey, props := o.props }

instance (o : WitnessUpdateOperation) : Writes (witnessUpdateEvaluator o) [.rates, .voting, .laps, .finality] :=
  ⟨by unfold witnessUpdateEvaluator; infer_instance⟩

/-- `feed_publish_evaluator`: a witness publishes a price, and the time is noted with it. -/
def feedPublishEvaluator (publisher : String) (exchangeRate : Price) : DbM Unit := do
  let witness ← getWitness publisher
  let now ← headBlockTime
  witnessIndex.modify witness.id fun w =>
    .ok { w with mbdExchangeRate := exchangeRate, lastMbdExchangeUpdate := now }

instance (p : String) (r : Price) : Writes (feedPublishEvaluator p r) [.rates] :=
  ⟨by
    unfold feedPublishEvaluator
    have hkeeps := fun id (now : TimePointSec) => within_modifyWitness (D := [.rates]) id
      (fun w => .ok { w with
        mbdExchangeRate := r
        lastMbdExchangeUpdate := now })
      (fun h => absurd (by simp) h) (fun _ w w' hw => by cases hw; rfl)
      (fun _ w w' hw => by cases hw; rfl) fun _ w w' hw => by cases hw; rfl
    infer_instance⟩

/-- `witness_vote_weight`: an account's own shares, and everything that is proxied to it. -/
def AccountObject.witnessVoteWeight (a : AccountObject) : Except Exn ShareType :=
  a.proxiedVsfVotes.foldlM safeAdd a.vestingShares

/-- `account_witness_vote_evaluator`: an account without a proxy votes for a witness, or takes its
vote back. -/
def accountWitnessVoteEvaluator (account witness : String) (approve : Bool) : DbM Unit := do
  let voter ← getAccount account
  require (voter.val.proxy = "")
    "A proxy is currently set, please clear the proxy before voting for a witness"
  let w ← getWitness witness
  let vote ← witnessVoteIndex.findBy? fun v => v.account = voter.id ∧ v.witness = w.id
  vote.elim
    (do
      require approve "vote doesn't exist, user must be indicate a desire to approve witness"
      require (voter.val.witnessesVotedFor < 30) "account has voted for too many witnesses"
      let _ ← witnessVoteIndex.create { witness := w.id, account := voter.id }
      let weight ← ofExcept voter.val.witnessVoteWeight
      adjustWitnessVote w.id weight
      modifyProfile voter.id fun p => .ok { p with witnessesVotedFor := p.witnessesVotedFor + 1 })
    fun v => do
      require (!approve) "vote currently exists, user must be indicate a desire to reject witness"
      let weight ← ofExcept voter.val.witnessVoteWeight
      let minus ← ofExcept (safeNeg weight)
      adjustWitnessVote w.id minus
      modifyProfile voter.id fun p => .ok { p with witnessesVotedFor := p.witnessesVotedFor - 1 }
      witnessVoteIndex.remove v.id

instance (a w : String) (b : Bool) : Writes (accountWitnessVoteEvaluator a w b) [.voting, .laps] :=
  ⟨by unfold accountWitnessVoteEvaluator; infer_instance⟩

/-- The proxy-loop check: follow the chain of proxies from `proxy`. -/
def checkProxyChain : Nat → List AccountId → String → DbM Unit
  | 0, _, proxy => if proxy = "" then pure () else throw .outOfFuel
  | n + 1, chain, proxy =>
      if proxy = "" then pure ()
      else do
        let next ← getAccount proxy
        require (next.id ∉ chain) "Attempt to create a proxy loop"
        require (chain.length + 1 ≤ 4) "Proxy chain is too long"
        checkProxyChain n (next.id :: chain) next.val.proxy

instance (n : Nat) (c : List AccountId) (p : String) : Writes (checkProxyChain n c p) [] := by
  induction n generalizing c p with
  | zero => exact ⟨by unfold checkProxyChain; infer_instance⟩
  | succ n ih => exact ⟨by unfold checkProxyChain; infer_instance⟩

/-- `clear_witness_votes`: all votes of an account for witnesses are removed, without changing a
tally. -/
def clearWitnessVotes (a : AccountId) : DbM Unit := do
  let votes ← witnessVoteIndex.rangeBy (·.account = a) (·.witness)
  votes.forM fun v => witnessVoteIndex.remove v.id
  modifyProfile a fun p => .ok { p with witnessesVotedFor := 0 }

/-- `clear_streaming_platform_votes`: all votes of an account for platforms are removed, without
changing a tally. -/
def clearStreamingPlatformVotes (a : AccountId) : DbM Unit := do
  let votes ← streamingPlatformVoteIndex.rangeBy (·.account = a) (·.streamingPlatform)
  votes.forM fun v => streamingPlatformVoteIndex.remove v.id
  modifyProfile a fun p => .ok { p with streamingPlatformsVotedFor := 0 }

instance (a : AccountId) : Writes (clearWitnessVotes a) [.voting, .laps] :=
  ⟨by unfold clearWitnessVotes; infer_instance⟩
instance (a : AccountId) : Writes (clearStreamingPlatformVotes a) [.voting] :=
  ⟨by unfold clearStreamingPlatformVotes; infer_instance⟩

/-- `account_witness_proxy_evaluator`: an account sets, changes or drops its proxy, and the votes
move along. -/
def accountWitnessProxyEvaluator (account proxy : String) : DbM Unit := do
  let acct ← getAccount account
  require (acct.val.proxy ≠ proxy) "something must change"
  let delta ← ofExcept ((acct.val.vestingShares :: acct.val.proxiedVsfVotes).mapM safeNeg)
  adjustProxiedWitnessVotesAll delta 4 acct.id
  if proxy ≠ "" then do
    let newProxy ← getAccount proxy
    checkProxyChain 4 [newProxy.id, acct.id] newProxy.val.proxy
    clearWitnessVotes acct.id
    clearStreamingPlatformVotes acct.id
    modifyProfile acct.id fun p => .ok { p with proxy }
    let back ← ofExcept (delta.mapM safeNeg)
    adjustProxiedWitnessVotesAll back 4 acct.id
  else modifyProfile acct.id fun p => .ok { p with proxy }

instance (a p : String) : Writes (accountWitnessProxyEvaluator a p) [.voting, .laps] :=
  ⟨by unfold accountWitnessProxyEvaluator; infer_instance⟩

/-! ## Accounts -/

/-- The account object that both creation operations start from. -/
def newAccount (name : String) (owner active basic : Authority) (memoKey : PublicKey)
    (jsonMetadata recoveryAccount : String) (received : ShareType) (now : TimePointSec) :
    AccountObject where
  name
  owner
  active
  basic
  memoKey
  jsonMetadata
  recoveryAccount
  receivedVestingShares := received
  created := now
  lastVoteTime := now

/-- Take an amount of BTCM out of an account's balance. -/
def debitBtcm (a : AccountId) (amount : Asset) : DbM Unit :=
  modifyFunds a fun f => do
    let x ← amount.amountOf BTCM_SYMBOL
    let balance ← safeSub f.balance x
    return { f with balance }

instance (a : AccountId) (x : Asset) : Writes (debitBtcm a x) [.funds] :=
  ⟨by unfold debitBtcm; infer_instance⟩

theorem runs_debitBtcm {a : AccountId} {x : Asset} {s s' : Database} (h : Runs (debitBtcm a x) s () s') :
    ∃ (acct : AccountObject) (y : ShareType), s.accounts.find? a = some acct ∧
      x.assetId = BTCM_SYMBOL ∧ y.toInt = acct.balance.toInt - x.amount.toInt ∧
      s' = s.withFunds a acct { acct.toAccountFunds with balance := y } := by
  obtain ⟨acct, f, hacct, hf, rfl⟩ := runs_modifyFunds.mp h
  simp only [except_bind_ok, except_pure_ok, safeSub_ok, Asset.amountOf_ok] at hf
  obtain ⟨_, ⟨hid, rfl⟩, y, hy, rfl⟩ := hf
  exact ⟨acct, y, hacct, hid, hy, rfl⟩

/-- `account_create_evaluator`: a new account, paid for by its creator. Genesis creates accounts
through it, without a fee. -/
def accountCreateEvaluator [Externals] (o : AccountCreateOperation) : DbM Unit := do
  ofExcept (validateJson o.jsonMetadata)
  let creator ← getAccount o.creator
  let head ← reads fun s => s.dgpo.headBlockNumber
  let now ← headBlockTime
  let minimum ← reads fun s => s.witnessSchedule.medianProps.accountCreationFee
  whenM (0 < head) do
    requireE ((btcm creator.val.balance).ge o.fee) "Insufficient balance to create account"
    requireE (o.fee.ge minimum) "Insufficient Fee: ${f} required, ${p} provided"
  debitBtcm creator.id o.fee
  let id ← accountIndex.create
    (newAccount o.newAccountName o.owner o.active o.basic o.memoKey o.jsonMetadata o.creator 0 now)
  whenM (0 < o.fee.amount) do
    let _ ← createVesting id o.fee

instance [Externals] (o : AccountCreateOperation) :
    Writes (accountCreateEvaluator o)
      [.funds, .stakes, .listening, .names, .voting, .laps, .redelegations] :=
  ⟨by unfold accountCreateEvaluator; infer_instance⟩

/-- The creator pays the fee, and the fee is vested to the new account. -/
theorem runs_accountCreateEvaluator [Externals] {o : AccountCreateOperation} {s s' : Database}
    (h : Runs (accountCreateEvaluator o) s () s') :
    ∃ (creator : Entry AccountObject) (t u : Database) (a : AccountObject),
      s.accountNamed o.creator = some (creator.id, creator.val) ∧
      (0 < s.dgpo.headBlockNumber → o.fee.amount.toInt ≤ creator.val.balance.toInt) ∧
      Runs (debitBtcm creator.id o.fee) s () t ∧
      a = newAccount o.newAccountName o.owner o.active o.basic o.memoKey o.jsonMetadata o.creator 0
        s.dgpo.time ∧
      t.accounts.any (fun b => a.name = b.name) = false ∧
      u = { t with accounts := t.accounts.create a } ∧
      (0 < o.fee.amount.toInt ∧ (∃ r, Runs (createVesting t.accounts.nextId o.fee) u r s') ∨
        o.fee.amount.toInt ≤ 0 ∧ s' = u) := by
  simp only [accountCreateEvaluator, runs_bind_ofExcept, runs_bind_getAccount, runs_bind_reads,
    runs_bind_headBlockTime] at h
  obtain ⟨_, -, creator, hcreator, h⟩ := h
  rw [runs_bind] at h
  obtain ⟨_, t0, hchecks, h⟩ := h
  have hchecked : t0 = s ∧
      (0 < s.dgpo.headBlockNumber → o.fee.amount.toInt ≤ creator.val.balance.toInt) := by
    rcases runs_whenM.mp hchecks with ⟨-, hr⟩ | ⟨hhead, rfl⟩
    · simp only [runs_bind_requireE, runs_requireE, Asset.ge_ok] at hr
      obtain ⟨⟨-, hge⟩, -, rfl⟩ := hr
      have hge := of_decide_eq_true hge.symm
      exact ⟨rfl, fun _ => Int64.le_iff_toInt_le.mp hge⟩
    · exact ⟨rfl, fun hpos => absurd hpos (of_decide_eq_false hhead)⟩
  obtain ⟨rfl, hfunds⟩ := hchecked
  rw [runs_bind] at h
  obtain ⟨_, t, hdebit, h⟩ := h
  rw [runs_bind_create] at h
  obtain ⟨hfree, h⟩ := h
  refine ⟨creator, t, _, _, hcreator, hfunds, hdebit, rfl, hfree, rfl, ?_⟩
  rcases runs_whenM.mp h with ⟨hpos, h⟩ | ⟨hpos, h⟩
  · rw [runs_bind] at h
    obtain ⟨r, v, hvest, h⟩ := h
    obtain ⟨-, rfl⟩ := runs_pure.mp h
    have hpos := of_decide_eq_true hpos
    rw [Int64.lt_iff_toInt_lt, Int64.toInt_zero] at hpos
    exact Or.inl ⟨hpos, r, hvest⟩
  · have hpos := of_decide_eq_false hpos
    rw [Int64.lt_iff_toInt_lt, Int64.toInt_zero] at hpos
    exact Or.inr ⟨by omega, h⟩

/-- Every listed account exists; where one does not, the lookup throws. -/
def requireAccounts (names : List String) : DbM Unit :=
  names.forM fun name => do
    let _ ← getAccount name

instance (names : List String) : Writes (requireAccounts names) [] :=
  ⟨by unfold requireAccounts; infer_instance⟩

theorem runs_requireAccounts {names : List String} {s s' : Database} {u : Unit}
    (h : Runs (requireAccounts names) s u s') : s' = s := by
  refine forM_induction (P := fun t => t = s) (fun name _ t t' ht hr => ?_) h rfl
  simp only [runs_bind_getAccount, runs_pure] at hr
  obtain ⟨-, -, -, rfl⟩ := hr
  exact ht

theorem runs_bind_requireAccounts {β : Type} {names : List String} {s s' : Database} {b : β}
    {f : Unit → DbM β} (h : Runs (requireAccounts names >>= f) s b s') : Runs (f ()) s b s' := by
  obtain ⟨_, t, h1, h2⟩ := runs_bind.mp h
  rw [runs_requireAccounts h1] at h2
  exact h2

/-- `creator.vesting_shares - creator.delegated_vesting_shares - ( to_withdraw - withdrawn )`: what
the creator may still delegate. -/
def AccountStake.availableShares (a : AccountStake) : Except Exn ShareType := do
  let own ← safeSub a.vestingShares a.delegatedVestingShares
  let leaving ← safeSub a.toWithdraw a.withdrawn
  safeSub own leaving

/-- `account_create_with_delegation_evaluator`: a new account, for a fee and shares that its creator
delegates to it. -/
def accountCreateWithDelegationEvaluator (o : AccountCreateWithDelegationOperation) : DbM Unit := do
  let creator ← getAccount o.creator
  let now ← headBlockTime
  let minimum ← reads fun s => s.witnessSchedule.medianProps.accountCreationFee
  let price ← reads fun s => s.dgpo.vestingSharePrice
  requireE ((btcm creator.val.balance).ge o.fee) "Insufficient balance to create account."
  let available ← ofExcept creator.val.availableShares
  requireE ((vests available).ge o.delegation)
    "Insufficient vesting shares to delegate to new account."
  let minimumX ← ofExcept (safeMul minimum.amount 5)
  let target ← ofExcept ((btcm minimumX).mulPrice price)
  let feeX ← ofExcept (safeMul o.fee.amount 5)
  let feeWorth ← ofExcept ((btcm feeX).mulPrice price)
  let current ← ofExcept (feeWorth.add o.delegation)
  requireE (current.ge target) "Insufficient delegation ${f} required, ${p} provided."
  requireAccounts (o.owner.accountAuths.keys ++ o.active.accountAuths.keys ++ o.basic.accountAuths.keys)
  debitBtcm creator.id o.fee
  let delegation ← ofExcept (o.delegation.amountOf VESTS_SYMBOL)
  modifyStake creator.id fun a => do
    let delegatedVestingShares ← safeAdd a.delegatedVestingShares delegation
    return { a with delegatedVestingShares }
  let id ← accountIndex.create
    (newAccount o.newAccountName o.owner o.active o.basic o.memoKey o.jsonMetadata "" delegation now)
  whenM (0 < o.delegation.amount) do
    let _ ← vestingDelegationIndex.create
      { delegator := o.creator, delegatee := o.newAccountName, vestingShares := delegation
        minDelegationTime := now + 2592000 }
  whenM (0 < o.fee.amount) do
    let _ ← createVesting id o.fee

instance (o : AccountCreateWithDelegationOperation) :
    Writes (accountCreateWithDelegationEvaluator o)
      [.funds, .stakes, .listening, .names, .voting, .laps, .redelegations] :=
  ⟨by unfold accountCreateWithDelegationEvaluator; infer_instance⟩

/-- The creator pays the fee and delegates; the new account starts with the delegation and
gets the fee vested. -/
theorem runs_accountCreateWithDelegationEvaluator {o : AccountCreateWithDelegationOperation}
    {s s' : Database} (h : Runs (accountCreateWithDelegationEvaluator o) s () s') :
    ∃ (creator : Entry AccountObject) (t t1 t2 u : Database) (a : AccountObject)
      (delegation : ShareType),
      s.accountNamed o.creator = some (creator.id, creator.val) ∧
      o.fee.amount.toInt ≤ creator.val.balance.toInt ∧ o.delegation.assetId = VESTS_SYMBOL ∧
      delegation = o.delegation.amount ∧ Runs (debitBtcm creator.id o.fee) s () t ∧
      Runs (modifyStake creator.id fun a => do
        let delegatedVestingShares ← safeAdd a.delegatedVestingShares delegation
        return { a with delegatedVestingShares }) t () t1 ∧
      a = newAccount o.newAccountName o.owner o.active o.basic o.memoKey o.jsonMetadata "" delegation
        s.dgpo.time ∧
      t1.accounts.any (fun b => a.name = b.name) = false ∧
      t2 = { t1 with accounts := t1.accounts.create a } ∧
      (o.delegation.amount.toInt ≤ 0 ∧ u = t2 ∨
        t2.delegations.any (fun d => o.creator = d.delegator ∧ o.newAccountName = d.delegatee) =
          false ∧
        u = { t2 with
          delegations := t2.delegations.create
            { delegator := o.creator
              delegatee := o.newAccountName
              vestingShares := delegation
              minDelegationTime := s.dgpo.time + 2592000 } }) ∧
      (0 < o.fee.amount.toInt ∧ (∃ r, Runs (createVesting t1.accounts.nextId o.fee) u r s') ∨
        o.fee.amount.toInt ≤ 0 ∧ s' = u) := by
  simp only [accountCreateWithDelegationEvaluator, runs_bind_getAccount, runs_bind_headBlockTime,
    runs_bind_reads, runs_bind_requireE, runs_bind_ofExcept, Asset.ge_ok] at h
  obtain ⟨creator, hcreator, ⟨-, hge⟩, _, -, -, _, -, _, -, _, -, _, -, _, -, -, h⟩ := h
  replace h := runs_bind_requireAccounts h
  rw [runs_bind] at h
  obtain ⟨_, t, hdebit, h⟩ := h
  rw [runs_bind_ofExcept] at h
  obtain ⟨delegation, hdelegation, h⟩ := h
  obtain ⟨hvests, rfl⟩ := Asset.amountOf_ok.mp hdelegation
  rw [runs_bind] at h
  obtain ⟨_, t1, hstake, h⟩ := h
  rw [runs_bind_create] at h
  obtain ⟨hfree, h⟩ := h
  rw [runs_bind] at h
  obtain ⟨_, u, hdeleg, h⟩ := h
  have hge := of_decide_eq_true hge.symm
  refine ⟨creator, t, t1, _, u, _, _, hcreator, Int64.le_iff_toInt_le.mp hge, hvests, rfl, hdebit,
    hstake, rfl, hfree, rfl, ?_, ?_⟩
  · rcases runs_whenM.mp hdeleg with ⟨-, hr⟩ | ⟨hpos, rfl⟩
    · rw [runs_bind_create] at hr
      exact Or.inr ⟨hr.1, (runs_pure.mp hr.2).2⟩
    · have hpos := of_decide_eq_false hpos
      rw [Int64.lt_iff_toInt_lt, Int64.toInt_zero] at hpos
      exact Or.inl ⟨by omega, rfl⟩
  · rcases runs_whenM.mp h with ⟨hpos, h⟩ | ⟨hpos, h⟩
    · rw [runs_bind] at h
      obtain ⟨r, v, hvest, h⟩ := h
      obtain ⟨-, rfl⟩ := runs_pure.mp h
      have hpos := of_decide_eq_true hpos
      rw [Int64.lt_iff_toInt_lt, Int64.toInt_zero] at hpos
      exact Or.inl ⟨hpos, r, hvest⟩
    · have hpos := of_decide_eq_false hpos
      rw [Int64.lt_iff_toInt_lt, Int64.toInt_zero] at hpos
      exact Or.inr ⟨by omega, h⟩

/-- `update_owner_authority`: the owner authority is replaced, and the old one put into the history.
-/
def updateOwnerAuthority (account : AccountId) (owner : Authority) : DbM Unit := do
  let now ← headBlockTime
  let acct ← accountIndex.get account
  let _ ← ownerAuthorityHistoryIndex.create
    { account := acct.name, previousOwnerAuthority := acct.owner, lastValidTime := now }
  modifyProfile account fun p => .ok { p with owner, lastOwnerUpdate := now }

instance (a : AccountId) (o : Authority) : Writes (updateOwnerAuthority a o) [] :=
  ⟨by unfold updateOwnerAuthority; infer_instance⟩

/-- `account_update_evaluator`: the authorities that are given replace those of the account, and a
challenge may end. -/
def accountUpdateEvaluator [Externals] (o : AccountUpdateOperation) : DbM Unit := do
  ofExcept (validateJson o.jsonMetadata)
  require (o.account ≠ "temp") "o.account != BTCM_TEMP_ACCOUNT"
  let account ← getAccount o.account
  let now ← headBlockTime
  o.owner.elim (pure ()) fun owner => do
    require (3600 < secondsBetween now account.val.lastOwnerUpdate)
      "db().head_block_time() - account.last_owner_update > BTCM_OWNER_UPDATE_LIMIT"
    updateOwnerAuthority account.id owner
  modifyProfile account.id fun p =>
    let proves := (o.active.isSome || o.owner.isSome) && p.activeChallenged
    .ok { p with
      active := o.active.getD p.active
      basic := o.basic.getD p.basic
      memoKey := if o.memoKey ≠ 0 then o.memoKey else p.memoKey
      activeChallenged := if proves then false else p.activeChallenged
      lastActiveProved := if proves then now else p.lastActiveProved
      jsonMetadata := if 0 < o.jsonMetadata.utf8ByteSize then o.jsonMetadata else p.jsonMetadata }

instance [Externals] (o : AccountUpdateOperation) : Writes (accountUpdateEvaluator o) [] :=
  ⟨by unfold accountUpdateEvaluator; infer_instance⟩

/-! ## Transfers and vesting -/

/-- `transfer_evaluator`: an amount goes from one account to another. -/
def transferEvaluator (from_ to_ : String) (amount : Asset) : DbM Unit := do
  let fromAccount ← getAccount from_
  let toAccount ← getAccount to_
  let now ← headBlockTime
  whenM fromAccount.val.activeChallenged do
    modifyProfile fromAccount.id fun p =>
      .ok { p with activeChallenged := false, lastActiveProved := now }
  if amount.assetId ≠ VESTS_SYMBOL then do
    let balance ← getBalance fromAccount.id amount.assetId
    requireE (balance.ge amount) "db().get_balance( from_account, o.amount.asset_id ) >= o.amount"
    let debit ← ofExcept amount.neg
    adjustBalance fromAccount.id debit
    adjustBalance toAccount.id amount
  else throw (.assert "transferring of Vestings (VEST) is not allowed.")

instance (f t : String) (a : Asset) : Writes (transferEvaluator f t a) [.funds] :=
  ⟨by unfold transferEvaluator; infer_instance⟩

/-- A transfer debits what the sender has and credits it to the receiver; the sender's
answer to a challenge shows in no concern. -/
theorem runs_transferEvaluator {from_ to_ : String} {amount : Asset} {s s' : Database}
    (h : Runs (transferEvaluator from_ to_ amount) s () s') :
    ∃ (f t : Entry AccountObject) (s0 s1 : Database) (acct : AccountObject) (debit : Asset),
      s.accountNamed from_ = some (f.id, f.val) ∧ s.accountNamed to_ = some (t.id, t.val) ∧
      (∀ i, Cut.same i s s0) ∧ s0.accountBalances = s.accountBalances ∧
      s0.accounts.find? f.id = some acct ∧
      amount.amount.toInt ≤ (s0.balanceOn f.id acct amount.assetId).toInt ∧
      amount.neg = .ok debit ∧ Runs (adjustBalance f.id debit) s0 () s1 ∧
      Runs (adjustBalance t.id amount) s1 () s' := by
  simp only [transferEvaluator, runs_bind_getAccount, runs_bind_headBlockTime] at h
  obtain ⟨f, hf, t, ht, h⟩ := h
  rw [runs_bind] at h
  obtain ⟨_, s0, hprofile, h⟩ := h
  have hsame : ∀ i, Cut.same i s s0 := fun i =>
    (inferInstance : Within ([] : List Concern) _).same List.not_mem_nil hprofile
  have hbalances : s0.accountBalances = s.accountBalances := by
    rcases runs_whenM.mp hprofile with ⟨-, hr⟩ | ⟨-, rfl⟩
    · obtain ⟨_, _, -, -, rfl⟩ := runs_modifyProfile.mp hr
      rfl
    · rfl
  rw [runs_ite] at h
  rcases h with ⟨-, h⟩ | ⟨-, h⟩
  · simp only [runs_bind_getBalance, runs_bind_requireE, runs_bind_ofExcept, Asset.ge_ok] at h
    obtain ⟨acct, hacct, ⟨-, hge⟩, debit, hdebit, h⟩ := h
    rw [runs_bind] at h
    obtain ⟨_, s1, h1, h2⟩ := h
    have hge := of_decide_eq_true hge.symm
    exact ⟨f, t, s0, s1, acct, debit, hf, ht, hsame, hbalances, hacct, Int64.le_iff_toInt_le.mp hge,
      hdebit, h1, h2⟩
  · exact absurd h runs_throw

/-- `transfer_to_vesting_evaluator`: an amount of BTCM becomes vesting shares, of the sender or of
somebody else. -/
def transferToVestingEvaluator (from_ to_ : String) (amount : Asset) : DbM Unit := do
  let fromAccount ← getAccount from_
  let toAccount ← getAccount (if to_ = "" then from_ else to_)
  let balance ← getBalance fromAccount.id BTCM_SYMBOL
  requireE (balance.ge amount) "db().get_balance( from_account, BTCM_SYMBOL) >= o.amount"
  let debit ← ofExcept amount.neg
  adjustBalance fromAccount.id debit
  let _ ← createVesting toAccount.id amount

instance (f t : String) (a : Asset) :
    Writes (transferToVestingEvaluator f t a) [.funds, .stakes, .voting, .laps] :=
  ⟨by unfold transferToVestingEvaluator; infer_instance⟩

theorem runs_transferToVestingEvaluator {from_ to_ : String} {amount : Asset} {s s' : Database}
    (h : Runs (transferToVestingEvaluator from_ to_ amount) s () s') :
    ∃ (f t : Entry AccountObject) (s1 : Database) (acct : AccountObject) (debit r : Asset),
      s.accountNamed from_ = some (f.id, f.val) ∧
      s.accountNamed (if to_ = "" then from_ else to_) = some (t.id, t.val) ∧
      s.accounts.find? f.id = some acct ∧ amount.amount.toInt ≤ acct.balance.toInt ∧
      amount.neg = .ok debit ∧ Runs (adjustBalance f.id debit) s () s1 ∧
      Runs (createVesting t.id amount) s1 r s' := by
  simp only [transferToVestingEvaluator, runs_bind_getAccount, runs_bind_getBalance,
    runs_bind_requireE, runs_bind_ofExcept, Asset.ge_ok] at h
  obtain ⟨f, hf, t, ht, acct, hacct, ⟨-, hge⟩, debit, hdebit, h⟩ := h
  rw [runs_bind] at h
  obtain ⟨_, s1, h1, h⟩ := h
  rw [runs_bind] at h
  obtain ⟨r, s2, h2, h⟩ := h
  obtain ⟨-, rfl⟩ := runs_pure.mp h
  have hge := of_decide_eq_true hge.symm
  exact ⟨f, t, s1, acct, debit, r, hf, ht, hacct, Int64.le_iff_toInt_le.mp hge, hdebit, h1, h2⟩

/-- The withdraw schedule a `withdraw_vesting` of a positive amount sets. -/
def AccountStake.startWithdrawal (amount : ShareType) (now : TimePointSec) (a : AccountStake) :
    Except Exn AccountStake := do
  let thirteenth ← safeDiv amount 13
  let rate := if thirteenth = 0 then 1 else thirteenth
  fcAssert (a.vestingWithdrawRate ≠ rate) "this operation would not change the vesting withdraw rate"
  return { a with
    vestingWithdrawRate := rate
    nextVestingWithdrawal := now + 604800
    toWithdraw := amount
    withdrawn := 0 }

/-- `withdraw_vesting_evaluator`: an account begins to withdraw shares in weekly parts, or gives it
up. -/
def withdrawVestingEvaluator (account : String) (vestingShares : Asset) : DbM Unit := do
  let acct ← getAccount account
  let now ← headBlockTime
  require (0 ≤ acct.val.vestingShares) "account.vesting_shares >= asset( 0, VESTS_SYMBOL )"
  let own ← ofExcept (safeSub acct.val.vestingShares acct.val.delegatedVestingShares)
  requireE ((vests own).ge vestingShares) "Account does not have sufficient Steem Power for withdraw."
  let price ← reads fun s => s.dgpo.vestingSharePrice
  let fee ← reads fun s => s.witnessSchedule.medianProps.accountCreationFee
  let minVests ← ofExcept (fee.mulPrice price)
  requireE ((vests acct.val.vestingShares).gt { minVests with amount := minVests.amount * 10 })
    "Account registered by another account requires 10x account creation fee worth of Vestings before it can power down"
  if vestingShares.amount ≤ 0 then do
    require (vestingShares.amount ≠ 0 ∨ acct.val.vestingWithdrawRate ≠ 0)
      "this operation would not change the vesting withdraw rate"
    modifyStake acct.id fun a => .ok { a with
      vestingWithdrawRate := 0
      nextVestingWithdrawal := 0xffffffff
      toWithdraw := 0
      withdrawn := 0 }
  else modifyStake acct.id (AccountStake.startWithdrawal vestingShares.amount now)

instance (a : String) (v : Asset) : Writes (withdrawVestingEvaluator a v) [.stakes] :=
  ⟨by unfold withdrawVestingEvaluator; infer_instance⟩

/-- `set_withdraw_vesting_route_evaluator`: a percentage of withdrawals goes to another account, or
no longer does. -/
def setWithdrawVestingRouteEvaluator (fromAccount toAccount : String) (percent : UInt16)
    (autoVest : Bool) : DbM Unit := do
  let from_ ← getAccount fromAccount
  let to_ ← getAccount toAccount
  let route ← withdrawVestingRouteIndex.findBy? fun r =>
    r.fromAccount = from_.id ∧ r.toAccount = to_.id
  route.elim
    (do
      require (percent ≠ 0) "Cannot create a 0% destination."
      require (from_.val.withdrawRoutes < 10) "from_account.withdraw_routes < BTCM_MAX_WITHDRAW_ROUTES"
      let _ ← withdrawVestingRouteIndex.create
        { fromAccount := from_.id, toAccount := to_.id, percent, autoVest }
      modifyProfile from_.id fun p => .ok { p with withdrawRoutes := p.withdrawRoutes + 1 })
    fun r =>
      if percent = 0 then do
        withdrawVestingRouteIndex.remove r.id
        modifyProfile from_.id fun p => .ok { p with withdrawRoutes := p.withdrawRoutes - 1 }
      else withdrawVestingRouteIndex.modify r.id fun r => .ok { r with percent, autoVest }
  let routes ← withdrawRoutesOf from_.id
  require ((routes.map fun r => r.val.percent).sum ≤ 10000)
    "More than 100% of vesting allocated to destinations"

instance (f t : String) (p : UInt16) (b : Bool) :
    Writes (setWithdrawVestingRouteEvaluator f t p b) [.routes] :=
  ⟨by unfold setWithdrawVestingRouteEvaluator; infer_instance⟩

/-! ## Delegation -/

/-- How one redelegation follows a change of the delegation it is a share of. -/
def redelegationDelta (old now : ShareType) (pct : UInt16) : Except Exn Int64 := do
  let share := fun (x : ShareType) => do
    let q ← UInt128.div (UInt128.ofShare x * BitVec.ofNat 128 pct.toNat) 10000
    UInt128.toUInt64 q
  let before ← share old
  let after ← share now
  return (after - before).toInt64

/-- Walk the redelegations of an account and collect what each of them changes by. -/
def redelegate (old now : ShareType) (p : AccountProfile) :
    Except Exn (AccountProfile × List (AccountId × Int64)) :=
  p.redelegations.entries.foldlM (fun (acc : AccountProfile × List (AccountId × Int64)) e => do
    let delta ← redelegationDelta old now e.2.redelegatePct
    if delta = 0 then return acc
    else do
      let redelegated ← safeAdd e.2.redelegated delta
      let total ← safeAdd acc.1.redelegatedVestingShares delta
      return ({ acc.1 with
        redelegations := acc.1.redelegations.set e.1 { e.2 with redelegated }
        redelegatedVestingShares := total }, acc.2 ++ [(e.1, delta)])) (p, [])

/-- The tail of `delegate_vesting_shares_evaluator`: pass a change on to those the
delegatee redelegates to. -/
def updateRedelegations (delegatee : AccountId) (old now : ShareType) : DbM Unit := do
  let acct ← accountIndex.get delegatee
  whenM (old ≠ now ∧ acct.redelegations.size ≠ 0) do
    let r ← ofExcept (redelegate old now acct.toAccountProfile)
    modifyProfile delegatee fun _ => .ok r.1
    r.2.forM fun d => modifyProfile d.1 fun p => do
      let rereceivedVestingShares ← safeAdd p.rereceivedVestingShares d.2
      return { p with rereceivedVestingShares }

/-- What `redelegate` changes of a profile has nothing to do with votes. -/
theorem redelegate_voting {old now : ShareType} {p : AccountProfile}
    {r : AccountProfile × List (AccountId × Int64)} (h : redelegate old now p = .ok r) :
    r.1.voting = p.voting := by
  refine foldlM_ok_induction (P := fun _ acc => acc.1.voting = p.voting) h rfl
    fun done e rest acc acc' _ hacc hstep => ?_
  obtain ⟨delta, -, hstep⟩ := except_bind_ok.mp hstep
  split at hstep
  · cases hstep
    exact hacc
  · simp only [except_bind_ok, except_pure_ok] at hstep
    obtain ⟨_, -, _, -, rfl⟩ := hstep
    exact hacc

instance (d : AccountId) (o n : ShareType) : Writes (updateRedelegations d o n) [.redelegations] :=
  ⟨⟨fun {i} hi s _ s' h => by
    simp only [updateRedelegations, runs_bind_get] at h
    obtain ⟨acct, hacct, h⟩ := h
    rcases runs_whenM.mp h with ⟨-, h⟩ | ⟨-, rfl⟩
    · rw [runs_bind_ofExcept] at h
      obtain ⟨r, hr, h⟩ := h
      obtain ⟨_, t, h1, h2⟩ := runs_bind.mp h
      obtain ⟨a, _, ha, hp, rfl⟩ := runs_modifyProfile.mp h1
      obtain rfl := Except.ok.inj hp
      obtain rfl := Option.some.inj (ha.symm.trans hacct)
      have hfirst := same_account_update (i := i) (b := { a with toAccountProfile := r.1 }) ha rfl
        (fun _ => rfl) (fun _ => rfl) (fun _ => rfl) (fun _ => redelegate_voting hr)
        fun h => absurd h (by simpa using hi)
      exact Cut.same_trans hfirst (Within.same (D := [.redelegations]) hi h2)
    · exact Cut.same_refl i _⟩⟩

/-- Add to the shares that an account has delegated. -/
def adjustDelegated (a : AccountId) (delta : ShareType) : DbM Unit :=
  modifyStake a fun x => do
    let delegatedVestingShares ← safeAdd x.delegatedVestingShares delta
    return { x with delegatedVestingShares }

/-- Add to the shares that an account has received. -/
def adjustReceived (a : AccountId) (delta : ShareType) : DbM Unit :=
  modifyStake a fun x => do
    let receivedVestingShares ← safeAdd x.receivedVestingShares delta
    return { x with receivedVestingShares }

instance (a : AccountId) (d : ShareType) : Writes (adjustDelegated a d) [.stakes] :=
  ⟨by unfold adjustDelegated; infer_instance⟩
instance (a : AccountId) (d : ShareType) : Writes (adjustReceived a d) [.stakes] :=
  ⟨by unfold adjustReceived; infer_instance⟩

/-- What an increase by `delta` does to the platforms' total: it only counts when
exactly one side is a platform. -/
def platformDelta (delegatorSp delegateeSp : Bool) (delta : ShareType) : Except Exn ShareType :=
  if !delegatorSp && delegateeSp then .ok delta
  else if delegatorSp && !delegateeSp then safeNeg delta
  else .ok 0

/-- Apply a change to the platforms' total, unless it is zero. -/
def bookPlatformDelta (delta : ShareType) : DbM Unit :=
  if delta ≠ 0 then adjustTotalVestedByPlatforms delta else pure ()

instance (d : ShareType) : Writes (bookPlatformDelta d) [.stakes] :=
  ⟨by unfold bookPlatformDelta; infer_instance⟩

/-- A first delegation, or a larger one: `delta` more shares move at once. -/
def increaseDelegation (delegator delegatee : AccountId) (delegatorSp delegateeSp : Bool)
    (delta : ShareType) : DbM Unit := do
  adjustDelegated delegator delta
  adjustReceived delegatee delta
  let spDelta ← ofExcept (platformDelta delegatorSp delegateeSp delta)
  bookPlatformDelta spDelta

instance (a b : AccountId) (p q : Bool) (d : ShareType) :
    Writes (increaseDelegation a b p q d) [.stakes] :=
  ⟨by unfold increaseDelegation; infer_instance⟩

/-- A smaller delegation: the delegatee loses the shares at once, the delegator gets
them back when the expiration object is cleared. The platforms' total only follows
when the delegatee alone is a platform. -/
def decreaseDelegation (delegator : String) (delegatee : AccountId) (delegatorSp delegateeSp : Bool)
    (delta : ShareType) (expiration : TimePointSec) : DbM Unit := do
  let _ ← vestingDelegationExpirationIndex.create { delegator, vestingShares := delta, expiration }
  let minus ← ofExcept (safeNeg delta)
  adjustReceived delegatee minus
  bookPlatformDelta (if !delegatorSp && delegateeSp then minus else 0)

instance (a : String) (b : AccountId) (p q : Bool) (d : ShareType) (e : TimePointSec) :
    Writes (decreaseDelegation a b p q d e) [.stakes] :=
  ⟨by unfold decreaseDelegation; infer_instance⟩

/-- The checks on a smaller delegation: what remains, and what is taken away, is nothing or enough.
-/
def checkDecrease (old : ShareType) (vestingShares delta minUpdate minDelegation : Asset) : DbM Unit :=
  if 0 < vestingShares.amount then do
    requireE (delta.ge minUpdate) "Vests decrease is not enough of a difference. min_update: ${min}"
    requireE (vestingShares.ge minDelegation)
      "Delegation must be removed or leave minimum delegation amount of ${v}"
  else
    require (0 < old) "Delegation would set vesting_shares to zero, but it is already zero"

instance (old : ShareType) (v d u m : Asset) : Writes (checkDecrease old v d u m) [] :=
  ⟨by unfold checkDecrease; infer_instance⟩

/-- `delegate_vesting_shares_evaluator`: a delegation is made, increased or decreased to a new
amount. -/
def delegateVestingSharesEvaluator (delegator delegatee : String) (vestingShares : Asset) :
    DbM Unit := do
  let from_ ← getAccount delegator
  let to_ ← getAccount delegatee
  let fromSp ← findStreamingPlatform delegator
  let toSp ← findStreamingPlatform delegatee
  let delegation ← vestingDelegationIndex.findBy? fun d =>
    d.delegator = delegator ∧ d.delegatee = delegatee
  let available ← ofExcept from_.val.availableShares
  let fee ← reads fun s => s.witnessSchedule.medianProps.accountCreationFee
  let price ← reads fun s => s.dgpo.vestingSharePrice
  let period ← reads fun s => s.dgpo.delegationReturnPeriod
  let now ← headBlockTime
  let feeX ← ofExcept (safeMul fee.amount 10)
  let minDelegation ← ofExcept ((btcm feeX).mulPrice price)
  let minUpdate ← ofExcept (fee.mulPrice price)
  delegation.elim
    (do
      requireE ((vests available).ge vestingShares)
        "Account does not have enough vesting shares to delegate."
      requireE (vestingShares.ge minDelegation) "Account must delegate a minimum of ${v}"
      let shares ← ofExcept (vestingShares.amountOf VESTS_SYMBOL)
      let _ ← vestingDelegationIndex.create
        { delegator, delegatee, vestingShares := shares, minDelegationTime := now }
      increaseDelegation from_.id to_.id fromSp.isSome toSp.isSome shares)
    fun d => do
      let grows ← ofExcept (vestingShares.ge (vests d.val.vestingShares))
      if grows then do
        let delta ← ofExcept (vestingShares.sub (vests d.val.vestingShares))
        requireE (delta.ge minUpdate)
          "Vests increase is not enough of a difference. min_update: ${min}"
        requireE ((vests available).ge delta)
          "Account does not have enough vesting shares to delegate."
        increaseDelegation from_.id to_.id fromSp.isSome toSp.isSome delta.amount
        vestingDelegationIndex.modify d.id fun d => .ok { d with vestingShares := vestingShares.amount }
      else do
        let delta ← ofExcept ((vests d.val.vestingShares).sub vestingShares)
        checkDecrease d.val.vestingShares vestingShares delta minUpdate minDelegation
        decreaseDelegation delegator to_.id fromSp.isSome toSp.isSome delta.amount
          (max (now + period) d.val.minDelegationTime)
        if 0 < vestingShares.amount then
          vestingDelegationIndex.modify d.id fun d =>
            .ok { d with vestingShares := vestingShares.amount }
        else vestingDelegationIndex.remove d.id
  updateRedelegations to_.id (delegation.elim 0 fun d => d.val.vestingShares) vestingShares.amount

instance (a b : String) (v : Asset) :
    Writes (delegateVestingSharesEvaluator a b v) [.stakes, .redelegations] :=
  ⟨by unfold delegateVestingSharesEvaluator; infer_instance⟩

section Delegates

variable {s t : Database}

theorem runs_adjustDelegated {id : AccountId} {delta : ShareType} :
    Runs (adjustDelegated id delta) s () t ↔ ∃ a x, s.accounts.find? id = some a ∧
      x.toInt = a.delegatedVestingShares.toInt + delta.toInt ∧
      t = { s with accounts := s.accounts.update id fun _ => { a with delegatedVestingShares := x } } := by
  simp only [adjustDelegated, runs_modifyStake, except_bind_ok, except_pure_ok, safeAdd_ok]
  constructor
  · rintro ⟨a, _, ha, ⟨x, hx, rfl⟩, rfl⟩
    exact ⟨a, x, ha, hx, rfl⟩
  · rintro ⟨a, x, ha, hx, rfl⟩
    exact ⟨a, _, ha, ⟨x, hx, rfl⟩, rfl⟩

theorem runs_adjustReceived {id : AccountId} {delta : ShareType} :
    Runs (adjustReceived id delta) s () t ↔ ∃ a x, s.accounts.find? id = some a ∧
      x.toInt = a.receivedVestingShares.toInt + delta.toInt ∧
      t = { s with accounts := s.accounts.update id fun _ => { a with receivedVestingShares := x } } := by
  simp only [adjustReceived, runs_modifyStake, except_bind_ok, except_pure_ok, safeAdd_ok]
  constructor
  · rintro ⟨a, _, ha, ⟨x, hx, rfl⟩, rfl⟩
    exact ⟨a, x, ha, hx, rfl⟩
  · rintro ⟨a, x, ha, hx, rfl⟩
    exact ⟨a, _, ha, ⟨x, hx, rfl⟩, rfl⟩

/-- What a delegation does before it is passed on: the amount delegated so far, and the
state after the books have changed. -/
inductive Delegates (delegator delegatee : String) (amount available : ShareType)
    (from_ to_ : AccountId) (s : Database) : ShareType → Database → Prop
  | first {p q : Bool} {t : Database}
      (none : s.delegations.findBy? (fun d => d.delegator = delegator ∧ d.delegatee = delegatee) = none)
      (free : s.delegations.any (fun d => delegator = d.delegator ∧ delegatee = d.delegatee) = false)
      (enough : amount.toInt ≤ available.toInt)
      (run : Runs (increaseDelegation from_ to_ p q amount) { s with
        delegations := s.delegations.create
          { delegator, delegatee, vestingShares := amount, minDelegationTime := s.dgpo.time } } () t) :
      Delegates delegator delegatee amount available from_ to_ s 0 t
  | more {p q : Bool} {id : Nat} {d : VestingDelegationObject} {delta : ShareType} {t : Database}
      (found : s.delegations.findBy? (fun d => d.delegator = delegator ∧ d.delegatee = delegatee) =
        some (id, d))
      (delta_eq : delta.toInt = amount.toInt - d.vestingShares.toInt)
      (grows : d.vestingShares.toInt ≤ amount.toInt) (enough : delta.toInt ≤ available.toInt)
      (run : Runs (increaseDelegation from_ to_ p q delta) s () t) :
      Delegates delegator delegatee amount available from_ to_ s d.vestingShares
        { t with delegations := t.delegations.update id fun _ => { d with vestingShares := amount } }
  | less {p q : Bool} {id : Nat} {d : VestingDelegationObject} {delta : ShareType}
      {expiration : TimePointSec} {t : Database}
      (found : s.delegations.findBy? (fun d => d.delegator = delegator ∧ d.delegatee = delegatee) =
        some (id, d))
      (delta_eq : delta.toInt = d.vestingShares.toInt - amount.toInt)
      (shrinks : amount.toInt < d.vestingShares.toInt) (positive : 0 < amount.toInt)
      (run : Runs (decreaseDelegation delegator to_ p q delta expiration) s () t) :
      Delegates delegator delegatee amount available from_ to_ s d.vestingShares
        { t with delegations := t.delegations.update id fun _ => { d with vestingShares := amount } }
  | none {p q : Bool} {id : Nat} {d : VestingDelegationObject} {delta : ShareType}
      {expiration : TimePointSec} {t : Database}
      (found : s.delegations.findBy? (fun d => d.delegator = delegator ∧ d.delegatee = delegatee) =
        some (id, d))
      (delta_eq : delta.toInt = d.vestingShares.toInt - amount.toInt)
      (shrinks : amount.toInt < d.vestingShares.toInt) (zero : amount.toInt ≤ 0)
      (run : Runs (decreaseDelegation delegator to_ p q delta expiration) s () t) :
      Delegates delegator delegatee amount available from_ to_ s d.vestingShares
        { t with delegations := t.delegations.remove id }

theorem bookPlatformDelta_keeps {delta : ShareType} (h : Runs (bookPlatformDelta delta) s () t) :
    t.delegations = s.delegations ∧ t.delegationExpirations = s.delegationExpirations ∧
      t.accounts = s.accounts := by
  simp only [bookPlatformDelta, runs_ite] at h
  rcases h with ⟨-, h⟩ | ⟨-, h⟩
  · obtain ⟨_, -, rfl⟩ := runs_adjustTotalVestedByPlatforms.mp h
    exact ⟨rfl, rfl, rfl⟩
  · obtain ⟨-, rfl⟩ := runs_pure.mp h
    exact ⟨rfl, rfl, rfl⟩

/-- An increase of a delegation books on two accounts, the delegator's and the delegatee's. -/
theorem runs_increaseDelegation {from_ to_ : AccountId} {p q : Bool} {delta : ShareType}
    (h : Runs (increaseDelegation from_ to_ p q delta) s () t) :
    ∃ t1 t2, Runs (adjustDelegated from_ delta) s () t1 ∧ Runs (adjustReceived to_ delta) t1 () t2 ∧
      t.accounts = t2.accounts ∧ t.delegations = s.delegations ∧
      t.delegationExpirations = s.delegationExpirations := by
  simp only [increaseDelegation] at h
  rw [runs_bind] at h
  obtain ⟨_, t1, h1, h⟩ := h
  rw [runs_bind] at h
  obtain ⟨_, t2, h2, h⟩ := h
  rw [runs_bind_ofExcept] at h
  obtain ⟨_, -, h⟩ := h
  obtain ⟨hd, he, ha⟩ := bookPlatformDelta_keeps h
  obtain ⟨_, _, -, -, rfl⟩ := runs_adjustDelegated.mp h1
  obtain ⟨_, _, -, -, rfl⟩ := runs_adjustReceived.mp h2
  exact ⟨_, _, h1, h2, ha, hd, he⟩

/-- A decrease leaves the delegator's books and notes the return. -/
theorem runs_decreaseDelegation {delegator : String} {to_ : AccountId} {p q : Bool}
    {delta : ShareType} {expiration : TimePointSec}
    (h : Runs (decreaseDelegation delegator to_ p q delta expiration) s () t) :
    ∃ t1 t2 minus, minus.toInt = -delta.toInt ∧
      t1 = { s with
        delegationExpirations := s.delegationExpirations.create
          { delegator, vestingShares := delta, expiration } } ∧
      Runs (adjustReceived to_ minus) t1 () t2 ∧ t.accounts = t2.accounts ∧
      t.delegations = s.delegations ∧ t.delegationExpirations = t1.delegationExpirations := by
  simp only [decreaseDelegation, runs_bind_create, runs_bind_ofExcept, safeNeg_ok] at h
  obtain ⟨-, minus, hminus, h⟩ := h
  rw [runs_bind] at h
  obtain ⟨_, t2, h2, h⟩ := h
  obtain ⟨hd, he, ha⟩ := bookPlatformDelta_keeps h
  obtain ⟨_, _, -, -, rfl⟩ := runs_adjustReceived.mp h2
  exact ⟨_, _, minus, hminus, rfl, h2, ha, hd, he⟩

theorem runs_checkDecrease {old : ShareType} {v d u m : Asset} (h : Runs (checkDecrease old v d u m) s () t) :
    t = s := by
  simp only [checkDecrease, runs_ite, runs_bind_requireE, runs_requireE, runs_require] at h
  rcases h with ⟨-, -, -, rfl⟩ | ⟨-, -, rfl⟩ <;> rfl

/-- A delegation: the books first, then what the delegatee has redelegated. -/
theorem runs_delegateVestingSharesEvaluator {delegator delegatee : String} {vestingShares : Asset}
    {s' : Database} (h : Runs (delegateVestingSharesEvaluator delegator delegatee vestingShares) s () s') :
    ∃ (from_ to_ : Entry AccountObject) (available old : ShareType) (t : Database),
      s.accountNamed delegator = some (from_.id, from_.val) ∧
      s.accountNamed delegatee = some (to_.id, to_.val) ∧
      from_.val.availableShares = .ok available ∧
      Delegates delegator delegatee vestingShares.amount available from_.id to_.id s old t ∧
      Runs (updateRedelegations to_.id old vestingShares.amount) t () s' := by
  simp only [delegateVestingSharesEvaluator, runs_bind_getAccount, runs_bind_findStreamingPlatform,
    runs_bind_findBy?, runs_bind_ofExcept, runs_bind_reads, runs_bind_headBlockTime] at h
  obtain ⟨from_, hfrom, to_, hto, available, hav, feeX, -, minD, -, minU, -, h⟩ := h
  rw [runs_bind] at h
  obtain ⟨_, t, hbook, hredel⟩ := h
  have hfind : (vestingDelegationIndex.read s).findBy? = s.delegations.findBy? := rfl
  rw [hfind] at hbook hredel
  cases hd : s.delegations.findBy? (fun d => d.delegator = delegator ∧ d.delegatee = delegatee) with
  | none =>
      rw [hd] at hbook hredel
      simp only [Option.map_none, Option.elim_none, runs_bind_requireE, Asset.ge_ok,
        runs_bind_ofExcept, Asset.amountOf_ok, runs_bind_create] at hbook
      obtain ⟨⟨-, hge⟩, -, _, ⟨-, rfl⟩, hfree, hrun⟩ := hbook
      exact ⟨from_, to_, available, _, t, hfrom, hto, hav,
        .first hd hfree (Int64.le_iff_toInt_le.mp (of_decide_eq_true hge.symm)) hrun, hredel⟩
  | some e =>
      obtain ⟨id, d⟩ := e
      have hfound := (ObjectIndex.find?_of_findBy? hd).1
      rw [hd] at hbook hredel
      simp only [Option.map_some, Option.elim_some, runs_bind_ofExcept, Asset.ge_ok, runs_ite] at hbook
      obtain ⟨grows, ⟨-, rfl⟩, ⟨hgrows, hbook⟩ | ⟨hgrows, hbook⟩⟩ := hbook
      · simp only [Asset.sub_ok, runs_bind_requireE, Asset.ge_ok] at hbook
        obtain ⟨delta, ⟨-, -, hdelta⟩, -, ⟨-, hge⟩, hbook⟩ := hbook
        rw [runs_bind] at hbook
        obtain ⟨_, t1, hrun, hbook⟩ := hbook
        obtain ⟨_, _, -, -, -, hkeep, -⟩ := runs_increaseDelegation hrun
        obtain ⟨d', x, hd', hx, rfl⟩ := Table.runs_modify.mp hbook
        have hd' : t1.delegations.find? id = some d' := hd'
        rw [hkeep, hfound] at hd'
        obtain rfl := Option.some.inj hd'
        cases hx
        exact ⟨from_, to_, available, _, _, hfrom, hto, hav, .more hd hdelta
          (Int64.le_iff_toInt_le.mp (of_decide_eq_true hgrows))
          (Int64.le_iff_toInt_le.mp (of_decide_eq_true hge.symm)) hrun, hredel⟩
      · simp only [Asset.sub_ok] at hbook
        obtain ⟨delta, ⟨-, -, hdelta⟩, hbook⟩ := hbook
        rw [runs_bind] at hbook
        obtain ⟨_, t0, hcheck, hbook⟩ := hbook
        obtain rfl := runs_checkDecrease hcheck
        rw [runs_bind] at hbook
        obtain ⟨_, t1, hrun, hbook⟩ := hbook
        obtain ⟨_, _, _, -, -, -, -, hkeep, -⟩ := runs_decreaseDelegation hrun
        rw [decide_eq_true_eq, Int64.le_iff_toInt_le, not_le] at hgrows
        rcases runs_ite.mp hbook with ⟨hpos, hbook⟩ | ⟨hpos, hbook⟩
        · obtain ⟨d', x, hd', hx, rfl⟩ := Table.runs_modify.mp hbook
          have hd' : t1.delegations.find? id = some d' := hd'
          rw [hkeep, hfound] at hd'
          obtain rfl := Option.some.inj hd'
          cases hx
          exact ⟨from_, to_, available, _, _, hfrom, hto, hav,
            .less hd hdelta hgrows (Int64.lt_iff_toInt_lt.mp hpos) hrun, hredel⟩
        · obtain rfl := Table.runs_remove.mp hbook
          rw [Int64.lt_iff_toInt_lt, not_lt] at hpos
          exact ⟨from_, to_, available, _, _, hfrom, hto, hav, .none hd hdelta hgrows hpos hrun, hredel⟩

end Delegates

/-! ## Conversions and orders -/

/-- `convert_evaluator`: BTCM for XUSD at the effective median, at once. -/
def convertEvaluator (owner : String) (amount : Asset) : DbM Unit := do
  let acct ← getAccount owner
  let balance ← getBalance acct.id amount.assetId
  requireE (balance.ge amount) "db().get_balance( owner, o.amount.asset_id ) >= o.amount"
  let debit ← ofExcept amount.neg
  adjustBalance acct.id debit
  let median ← reads fun s => s.feedHistory.effectiveMedianHistory
  require (!median.isNull) "!fhistory.effective_median_history.is_null()"
  let issued ← ofExcept (amount.mulPrice median)
  adjustBalance acct.id issued
  modifySupply fun p => do
    let x ← amount.amountOf BTCM_SYMBOL
    let currentSupply ← safeSub p.currentSupply x
    let y ← issued.amountOf XUSD_SYMBOL
    let currentMbdSupply ← safeAdd p.currentMbdSupply y
    let less ← safeSub p.virtualSupply x
    let back ← issued.mulPrice median
    let z ← back.amountOf BTCM_SYMBOL
    let virtualSupply ← safeAdd less z
    return { p with currentSupply, currentMbdSupply, virtualSupply }

instance (o : String) (a : Asset) : Writes (convertEvaluator o a) [.funds] :=
  ⟨by unfold convertEvaluator; infer_instance⟩

/-- A conversion takes the BTCM from the balance and from the supply, and issues the XUSD
to both. -/
theorem runs_convertEvaluator {owner : String} {amount : Asset} {s s' : Database}
    (h : Runs (convertEvaluator owner amount) s () s') :
    ∃ (e : Entry AccountObject) (acct : AccountObject) (debit issued : Asset) (s1 s2 : Database)
      (p : GlobalSupply),
      s.accountNamed owner = some (e.id, e.val) ∧ s.accounts.find? e.id = some acct ∧
      amount.amount.toInt ≤ (s.balanceOn e.id acct amount.assetId).toInt ∧
      amount.neg = .ok debit ∧ Runs (adjustBalance e.id debit) s () s1 ∧
      amount.mulPrice s.feedHistory.effectiveMedianHistory = .ok issued ∧
      Runs (adjustBalance e.id issued) s1 () s2 ∧
      amount.assetId = BTCM_SYMBOL ∧ issued.assetId = XUSD_SYMBOL ∧
      p.currentSupply.toInt = s2.dgpo.currentSupply.toInt - amount.amount.toInt ∧
      p.currentMbdSupply.toInt = s2.dgpo.currentMbdSupply.toInt + issued.amount.toInt ∧
      p.totalVestingFundBtcm = s2.dgpo.totalVestingFundBtcm ∧
      s' = { s2 with dgpo := { s2.dgpo with toGlobalSupply := p } } := by
  simp only [convertEvaluator, runs_bind_getAccount, runs_bind_getBalance, runs_bind_requireE,
    runs_bind_ofExcept, Asset.ge_ok] at h
  obtain ⟨e, he, acct, hacct, ⟨-, hge⟩, debit, hdebit, h⟩ := h
  rw [runs_bind] at h
  obtain ⟨_, s1, h1, h⟩ := h
  simp only [runs_bind_reads, runs_bind_require, runs_bind_ofExcept] at h
  obtain ⟨-, issued, hissued, h⟩ := h
  rw [runs_bind] at h
  obtain ⟨_, s2, h2, h⟩ := h
  obtain ⟨p, hp, rfl⟩ := runs_modifySupply.mp h
  simp only [except_bind_ok, except_pure_ok, safeAdd_ok, safeSub_ok, Asset.amountOf_ok] at hp
  obtain ⟨_, ⟨hbtcm, rfl⟩, c, hc, _, ⟨hxusd, rfl⟩, m, hm, _, -, _, -, _, ⟨-, rfl⟩, v, -, rfl⟩ := hp
  have hge := of_decide_eq_true hge.symm
  have hfeed : s1.feedHistory = s.feedHistory :=
    congrArg Registry.feedHistory (adjustBalance_tables h1).2.2.2.2
  rw [hfeed] at hissued
  exact ⟨e, acct, debit, issued, s1, s2,
    { s2.dgpo.toGlobalSupply with currentSupply := c, currentMbdSupply := m, virtualSupply := v },
    he, hacct, Int64.le_iff_toInt_le.mp hge, hdebit, h1, hissued, h2, hbtcm, hxusd, hc, hm, rfl, rfl⟩

/-- The common body of the two order operations, which differ in the price only. -/
def createOrder (owner : String) (orderid : UInt32) (amountToSell : Asset)
    (price : Except Exn Price) (fillOrKill : Bool) (expiration : TimePointSec) : DbM Unit := do
  let now ← headBlockTime
  require (now < expiration) "o.expiration > db().head_block_time()"
  let acct ← getAccount owner
  let balance ← getBalance acct.id amountToSell.assetId
  requireE (balance.ge amountToSell)
    "db().get_balance( owner, o.amount_to_sell.asset_id ) >= o.amount_to_sell"
  let debit ← ofExcept amountToSell.neg
  adjustBalance acct.id debit
  let sellPrice ← ofExcept price
  let order ← limitOrderIndex.create
    { created := now, seller := owner, orderid, forSale := amountToSell.amount, sellPrice, expiration }
  let filled ← applyOrder order
  require (!fillOrKill || filled) "filled"

instance (w : String) (i : UInt32) (a : Asset) (p : Except Exn Price) (k : Bool) (e : TimePointSec) :
    Writes (createOrder w i a p k e) [.funds, .orders] := ⟨by unfold createOrder; infer_instance⟩

/-- A new order takes what it sells from the seller's balance, and is matched. -/
theorem runs_createOrder {owner : String} {orderid : UInt32} {amountToSell : Asset}
    {price : Except Exn Price} {fillOrKill : Bool} {expiration : TimePointSec} {s s' : Database}
    (h : Runs (createOrder owner orderid amountToSell price fillOrKill expiration) s () s') :
    ∃ (e : Entry AccountObject) (acct : AccountObject) (debit : Asset) (s1 : Database)
      (o : LimitOrderObject) (filled : Bool),
      s.accountNamed owner = some (e.id, e.val) ∧ s.accounts.find? e.id = some acct ∧
      amountToSell.amount.toInt ≤ (s.balanceOn e.id acct amountToSell.assetId).toInt ∧
      amountToSell.neg = .ok debit ∧ Runs (adjustBalance e.id debit) s () s1 ∧
      price = .ok o.sellPrice ∧ o.forSale = amountToSell.amount ∧ o.seller = owner ∧
      Runs (applyOrder s1.limitOrders.nextId)
        { s1 with limitOrders := s1.limitOrders.create o } filled s' := by
  simp only [createOrder, runs_bind_headBlockTime, runs_bind_require, runs_bind_getAccount,
    runs_bind_getBalance, runs_bind_requireE, runs_bind_ofExcept, Asset.ge_ok] at h
  obtain ⟨-, e, he, acct, hacct, ⟨-, hge⟩, debit, hdebit, h⟩ := h
  rw [runs_bind] at h
  obtain ⟨_, s1, h1, h⟩ := h
  rw [runs_bind_ofExcept] at h
  obtain ⟨sellPrice, hprice, h⟩ := h
  rw [runs_bind_create] at h
  obtain ⟨-, h⟩ := h
  rw [runs_bind] at h
  obtain ⟨filled, s2, h2, h⟩ := h
  obtain ⟨-, rfl⟩ := runs_require.mp h
  have hge := of_decide_eq_true hge.symm
  exact ⟨e, acct, debit, s1, _, filled, he, hacct, Int64.le_iff_toInt_le.mp hge, hdebit, h1, hprice,
    rfl, rfl, h2⟩

/-- `limit_order_create_evaluator`: an order at the price that its two amounts make. -/
def limitOrderCreateEvaluator (o : LimitOrderCreateOperation) : DbM Unit :=
  createOrder o.owner o.orderid o.amountToSell (Price.make o.amountToSell o.minToReceive)
    o.fillOrKill o.expiration

/-- `limit_order_create2_evaluator`: an order at the price that the operation states. -/
def limitOrderCreate2Evaluator (o : LimitOrderCreate2Operation) : DbM Unit :=
  createOrder o.owner o.orderid o.amountToSell (.ok o.exchangeRate) o.fillOrKill o.expiration

/-- `limit_order_cancel_evaluator`: the owner's order of this number is cancelled. -/
def limitOrderCancelEvaluator (owner : String) (orderid : UInt32) : DbM Unit := do
  let o ← limitOrderIndex.getBy (fun o => o.seller = owner ∧ o.orderid = orderid)
    "Unable to find order '${acct}/${id}'."
  cancelOrder o.id

instance (o : LimitOrderCreateOperation) : Writes (limitOrderCreateEvaluator o) [.funds, .orders] :=
  ⟨by unfold limitOrderCreateEvaluator; infer_instance⟩
instance (o : LimitOrderCreate2Operation) : Writes (limitOrderCreate2Evaluator o) [.funds, .orders] :=
  ⟨by unfold limitOrderCreate2Evaluator; infer_instance⟩
instance (w : String) (i : UInt32) : Writes (limitOrderCancelEvaluator w i) [.funds, .orders] :=
  ⟨by unfold limitOrderCancelEvaluator; infer_instance⟩

/-! ## Challenges and recovery -/

/-- `BTCM_ACTIVE_CHALLENGE_FEE`, which a challenger pays to the account that is challenged. -/
def BTCM_ACTIVE_CHALLENGE_FEE : Asset := btcm 20000

/-- `challenge_authority_evaluator`: an account is challenged to prove its active authority, for a
fee. -/
def challengeAuthorityEvaluator (challenger challenged : String) (requireOwner : Bool) : DbM Unit := do
  let target ← getAccount challenged
  let from_ ← getAccount challenger
  let now ← headBlockTime
  require (!requireOwner) "Challenging the owner key is not supported at this time"
  requireE ((btcm from_.val.balance).ge BTCM_ACTIVE_CHALLENGE_FEE)
    "challenger.balance >= BTCM_ACTIVE_CHALLENGE_FEE"
  require (!(target.val.ownerChallenged || target.val.activeChallenged))
    "!( challenged.owner_challenged || challenged.active_challenged )"
  require (86400 < secondsBetween now target.val.lastActiveProved)
    "db().head_block_time() - challenged.last_active_proved > BTCM_ACTIVE_CHALLENGE_COOLDOWN"
  let debit ← ofExcept BTCM_ACTIVE_CHALLENGE_FEE.neg
  adjustBalance from_.id debit
  let _ ← createVesting target.id BTCM_ACTIVE_CHALLENGE_FEE
  modifyProfile target.id fun p => .ok { p with activeChallenged := true }

instance (a b : String) (r : Bool) :
    Writes (challengeAuthorityEvaluator a b r) [.funds, .stakes, .voting, .laps] :=
  ⟨by unfold challengeAuthorityEvaluator; infer_instance⟩

/-- The challenger pays the fee, and it is vested to the challenged. -/
theorem runs_challengeAuthorityEvaluator {challenger challenged : String} {requireOwner : Bool}
    {s s' : Database} (h : Runs (challengeAuthorityEvaluator challenger challenged requireOwner) s () s') :
    ∃ (f t : Entry AccountObject) (s1 s2 : Database) (debit r : Asset),
      s.accountNamed challenger = some (f.id, f.val) ∧
      s.accountNamed challenged = some (t.id, t.val) ∧
      BTCM_ACTIVE_CHALLENGE_FEE.amount.toInt ≤ f.val.balance.toInt ∧
      BTCM_ACTIVE_CHALLENGE_FEE.neg = .ok debit ∧ Runs (adjustBalance f.id debit) s () s1 ∧
      Runs (createVesting t.id BTCM_ACTIVE_CHALLENGE_FEE) s1 r s2 ∧
      (∀ i, Cut.same i s2 s') ∧ s'.accountBalances = s2.accountBalances := by
  simp only [challengeAuthorityEvaluator, runs_bind_getAccount, runs_bind_headBlockTime,
    runs_bind_require, runs_bind_requireE, runs_bind_ofExcept, Asset.ge_ok] at h
  obtain ⟨t, ht, f, hf, -, ⟨-, hge⟩, -, -, debit, hdebit, h⟩ := h
  rw [runs_bind] at h
  obtain ⟨_, s1, h1, h⟩ := h
  rw [runs_bind] at h
  obtain ⟨r, s2, h2, h⟩ := h
  have hge := of_decide_eq_true hge.symm
  refine ⟨f, t, s1, s2, debit, r, hf, ht, Int64.le_iff_toInt_le.mp hge, hdebit, h1, h2,
    fun i => Writes.within.same List.not_mem_nil h, ?_⟩
  obtain ⟨_, _, -, -, rfl⟩ := runs_modifyProfile.mp h
  rfl

/-- `prove_authority_evaluator`: a challenged account has proved its authority, and the challenge is
over. -/
def proveAuthorityEvaluator (challenged : String) (requireOwner : Bool) : DbM Unit := do
  let acct ← getAccount challenged
  let now ← headBlockTime
  require (acct.val.ownerChallenged || acct.val.activeChallenged)
    "challenged.owner_challenged || challenged.active_challenged"
  modifyProfile acct.id fun p => .ok { p with
    activeChallenged := false
    lastActiveProved := now
    ownerChallenged := if requireOwner then false else p.ownerChallenged
    lastOwnerProved := if requireOwner then now else p.lastOwnerProved }

instance (c : String) (r : Bool) : Writes (proveAuthorityEvaluator c r) [] :=
  ⟨by unfold proveAuthorityEvaluator; infer_instance⟩

/-- `request_account_recovery_evaluator`: a recovery account asks for a new authority, changes its
request, or withdraws it. -/
def requestAccountRecoveryEvaluator (recoveryAccount accountToRecover : String)
    (newOwner : Authority) : DbM Unit := do
  let acct ← getAccount accountToRecover
  let top ← reads fun s => s.witnessesByVote.head?.map fun w => w.2.owner
  let now ← headBlockTime
  if acct.val.recoveryAccount ≠ "" then
    require (acct.val.recoveryAccount = recoveryAccount)
      "account_to_recover.recovery_account == o.recovery_account"
  else top.elim (throw .undefined) fun owner =>
    require (owner = recoveryAccount) "begin()->owner == o.recovery_account"
  let request ← accountRecoveryRequestIndex.findBy? (·.accountToRecover = accountToRecover)
  request.elim
    (do
      require (!newOwner.isImpossible) "Cannot recover with an impossible authority"
      require (newOwner.weightThreshold ≠ 0) "Cannot recover with an open authority"
      let _ ← accountRecoveryRequestIndex.create
        { accountToRecover, newOwnerAuthority := newOwner, expires := now + 86400 })
    fun r =>
      if newOwner.weightThreshold = 0 then accountRecoveryRequestIndex.remove r.id
      else do
        require (!newOwner.isImpossible) "Cannot recover with an impossible authority"
        accountRecoveryRequestIndex.modify r.id fun r =>
          .ok { r with newOwnerAuthority := newOwner, expires := now + 86400 }

instance (r a : String) (o : Authority) : Writes (requestAccountRecoveryEvaluator r a o) [] :=
  ⟨by unfold requestAccountRecoveryEvaluator; infer_instance⟩

/-- `recover_account_evaluator`: an account gets the requested authority, when a recent one has
signed too. -/
def recoverAccountEvaluator (accountToRecover : String) (newOwner recentOwner : Authority) :
    DbM Unit := do
  let acct ← getAccount accountToRecover
  let now ← headBlockTime
  require (3600 < secondsBetween now acct.val.lastAccountRecovery)
    "db().head_block_time() - account.last_account_recovery > BTCM_OWNER_UPDATE_LIMIT"
  let request ← accountRecoveryRequestIndex.getBy (·.accountToRecover = accountToRecover)
    "request != recovery_request_idx.end()"
  require (request.val.newOwnerAuthority = newOwner) "request->new_owner_authority == o.new_owner_authority"
  let known ← ownerAuthorityHistoryIndex.any fun h =>
    h.account = accountToRecover ∧ h.previousOwnerAuthority = recentOwner
  require known "Recent authority not found in authority history"
  accountRecoveryRequestIndex.remove request.id
  updateOwnerAuthority acct.id newOwner
  modifyProfile acct.id fun p => .ok { p with lastAccountRecovery := now }

instance (a : String) (n r : Authority) : Writes (recoverAccountEvaluator a n r) [] :=
  ⟨by unfold recoverAccountEvaluator; infer_instance⟩

/-- `change_recovery_account_evaluator`: an account asks for another recovery account, changes the
request, or withdraws it. -/
def changeRecoveryAccountEvaluator (accountToRecover newRecoveryAccount : String) : DbM Unit := do
  let _ ← getAccount newRecoveryAccount
  let acct ← getAccount accountToRecover
  let now ← headBlockTime
  let request ← changeRecoveryAccountRequestIndex.findBy? (·.accountToRecover = accountToRecover)
  request.elim
    (do
      let _ ← changeRecoveryAccountRequestIndex.create
        { accountToRecover, recoveryAccount := newRecoveryAccount, effectiveOn := now + 2592000 })
    fun r =>
      if acct.val.recoveryAccount ≠ newRecoveryAccount then
        changeRecoveryAccountRequestIndex.modify r.id fun r =>
          .ok { r with recoveryAccount := newRecoveryAccount, effectiveOn := now + 2592000 }
      else changeRecoveryAccountRequestIndex.remove r.id

instance (a n : String) : Writes (changeRecoveryAccountEvaluator a n) [] :=
  ⟨by unfold changeRecoveryAccountEvaluator; infer_instance⟩

/-- `custom_json_evaluator`: the text is JSON, and no account that signs with its basic authority is
challenged; all else is for plugins. -/
def customJsonEvaluator [Externals] (requiredBasicAuths : List String) (json : String) : DbM Unit := do
  require (json.utf8ByteSize = 0 || Externals.jsonIsValid json) "JSON data not valid JSON"
  requiredBasicAuths.forM fun name => do
    let acct ← getAccount name
    require (!(acct.val.ownerChallenged || acct.val.activeChallenged))
      "!( acnt.owner_challenged || acnt.active_challenged )"

instance [Externals] (l : List String) (j : String) : Writes (customJsonEvaluator l j) [] :=
  ⟨by unfold customJsonEvaluator; infer_instance⟩

end BtcmChain
