import BtcmChain.Chain.Beside

set_option autoImplicit false
set_option synthInstance.maxSize 10000000
set_option synthInstance.maxHeartbeats 200000

/-!
# What few programs touch

The recovery tables, the ties between accounts and their scores are written by a handful of
evaluators. A relation is `Sidelong` if it looks at nothing else: at the clock, at the recovery
tables and, of an account, at its name, its ties, its score and its own shares. Whatever writes
none of these respects every such relation; where the relation does not look at scores and
shares either (`Shareless`), vesting respects it too.
-/

namespace BtcmChain

/-- Whom an account knows: who may recover it, its friends and theirs, and who asked it. -/
structure Ties where
  recoveryAccount : String
  friends : List AccountId
  secondLevel : List AccountId
  waiting : List AccountId

def AccountProfile.ties (p : AccountProfile) : Ties :=
  ⟨p.recoveryAccount, p.friends, p.secondLevel, p.waiting⟩

/-- The ties of an account, and the score that goes with them. -/
def AccountProfile.social (p : AccountProfile) : Ties × UInt64 := (p.ties, p.score)

/-- The tables behind account recovery, with the clock they are read by. -/
structure Recoveries where
  ownerHistory : ObjectIndex OwnerAuthorityHistoryObject
  requests : ObjectIndex AccountRecoveryRequestObject
  changes : ObjectIndex ChangeRecoveryAccountRequestObject
  now : TimePointSec

def Database.recoveries (s : Database) : Recoveries :=
  ⟨s.ownerHistory, s.recoveryRequests, s.changeRecoveryRequests, s.dgpo.time⟩

/-- Relations that see the recovery tables, names, ties, scores and own shares only. -/
class Sidelong (R : Database → Database → Prop) : Prop extends Preorder₂ R where
  elsewhere : ∀ {s t : Database}, t.accounts = s.accounts → t.recoveries = s.recoveries → R s t
  account : ∀ {s : Database} {id : AccountId} {a b : AccountObject}, s.accounts.find? id = some a →
    b.name = a.name → b.social = a.social → b.vestingShares = a.vestingShares →
    R s { s with accounts := s.accounts.update id fun _ => b }
  create : ∀ (s : Database) {a : AccountObject}, a.friends = [] → a.secondLevel = [] →
    a.waiting = [] → a.score = 0 → a.vestingShares = 0 →
    R s { s with accounts := s.accounts.create a }

/-- Relations that see neither the scores nor the shares of accounts, but only names and ties. -/
class Shareless (R : Database → Database → Prop) : Prop extends Sidelong R where
  shares : ∀ {s : Database} {id : AccountId} {a b : AccountObject}, s.accounts.find? id = some a →
    b.name = a.name → b.ties = a.ties → R s { s with accounts := s.accounts.update id fun _ => b }

section Keeps

variable (owner active basic : AccountProfile → Authority) (memoKey : AccountProfile → PublicKey)
  (jsonMetadata proxy : AccountProfile → String)
  (lastOwnerUpdate created lastOwnerProved lastActiveProved lastAccountRecovery lastVoteTime :
    AccountProfile → TimePointSec)
  (ownerChallenged activeChallenged : AccountProfile → Bool)
  (lifetimeVoteCount : AccountProfile → UInt32) (score : AccountProfile → UInt64)
  (votingPower withdrawRoutes witnessesVotedFor streamingPlatformsVotedFor : AccountProfile → UInt16)
  (redelegations : AccountProfile → FlatMap AccountId Redelegation)
  (redelegatedVestingShares rereceivedVestingShares : AccountProfile → ShareType)
  (proxiedVsfVotes : AccountProfile → List ShareType)

instance : Keeps AccountProfile.social fun p => .ok { p with
    owner := owner p, active := active p, basic := basic p, memoKey := memoKey p
    jsonMetadata := jsonMetadata p, proxy := proxy p, lastOwnerUpdate := lastOwnerUpdate p
    created := created p, ownerChallenged := ownerChallenged p
    activeChallenged := activeChallenged p, lastOwnerProved := lastOwnerProved p
    lastActiveProved := lastActiveProved p, lastAccountRecovery := lastAccountRecovery p
    lifetimeVoteCount := lifetimeVoteCount p, votingPower := votingPower p
    lastVoteTime := lastVoteTime p, redelegations := redelegations p
    redelegatedVestingShares := redelegatedVestingShares p
    rereceivedVestingShares := rereceivedVestingShares p, withdrawRoutes := withdrawRoutes p
    proxiedVsfVotes := proxiedVsfVotes p, witnessesVotedFor := witnessesVotedFor p
    streamingPlatformsVotedFor := streamingPlatformsVotedFor p } :=
  ⟨fun hq => by
    cases hq
    rfl⟩

instance : Keeps AccountProfile.ties fun p => .ok { p with score := score p } :=
  ⟨fun hq => by
    cases hq
    rfl⟩

instance (delegatedVestingShares receivedVestingShares vestingWithdrawRate withdrawn toWithdraw :
    AccountStake → ShareType) (nextVestingWithdrawal : AccountStake → TimePointSec) :
    Keeps AccountStake.vestingShares fun p => .ok { p with
      delegatedVestingShares := delegatedVestingShares p
      receivedVestingShares := receivedVestingShares p
      vestingWithdrawRate := vestingWithdrawRate p, withdrawn := withdrawn p
      toWithdraw := toWithdraw p, nextVestingWithdrawal := nextVestingWithdrawal p } :=
  ⟨fun hq => by
    cases hq
    rfl⟩

instance (reporter : AccountId) (pct : UInt16) (delta : ShareType) :
    Keeps AccountProfile.social (·.redelegateTo reporter pct delta) := by
  unfold AccountProfile.redelegateTo
  infer_instance

instance (x : ShareType) (now : TimePointSec) :
    Keeps AccountStake.vestingShares (AccountStake.startWithdrawal x now) := by
  unfold AccountStake.startWithdrawal
  infer_instance

end Keeps

section Primitives

variable {R : Database → Database → Prop} [hR : Sidelong R]

theorem Sidelong.beside {α : Type} {t : Table α}
    (h : ∀ s x, (t.write s x).accounts = s.accounts ∧ (t.write s x).recoveries = s.recoveries) :
    t.Beside R :=
  ⟨fun s x => Sidelong.elsewhere (h s x).1 (h s x).2⟩

instance : accountBalanceIndex.Beside R := Sidelong.beside fun _ _ => ⟨rfl, rfl⟩
instance : assetIndex.Beside R := Sidelong.beside fun _ _ => ⟨rfl, rfl⟩
instance : balanceIndex.Beside R := Sidelong.beside fun _ _ => ⟨rfl, rfl⟩
instance : limitOrderIndex.Beside R := Sidelong.beside fun _ _ => ⟨rfl, rfl⟩
instance : convertRequestIndex.Beside R := Sidelong.beside fun _ _ => ⟨rfl, rfl⟩
instance : vestingDelegationIndex.Beside R := Sidelong.beside fun _ _ => ⟨rfl, rfl⟩
instance : vestingDelegationExpirationIndex.Beside R := Sidelong.beside fun _ _ => ⟨rfl, rfl⟩
instance : contentIndex.Beside R := Sidelong.beside fun _ _ => ⟨rfl, rfl⟩
instance : streamingPlatformIndex.Beside R := Sidelong.beside fun _ _ => ⟨rfl, rfl⟩
instance : reportIndex.Beside R := Sidelong.beside fun _ _ => ⟨rfl, rfl⟩
instance : streamingPlatformUserIndex.Beside R := Sidelong.beside fun _ _ => ⟨rfl, rfl⟩
instance : streamReportRequestIndex.Beside R := Sidelong.beside fun _ _ => ⟨rfl, rfl⟩
instance : proposalIndex.Beside R := Sidelong.beside fun _ _ => ⟨rfl, rfl⟩
instance : withdrawVestingRouteIndex.Beside R := Sidelong.beside fun _ _ => ⟨rfl, rfl⟩
instance : contentApproveIndex.Beside R := Sidelong.beside fun _ _ => ⟨rfl, rfl⟩
instance : contentVoteIndex.Beside R := Sidelong.beside fun _ _ => ⟨rfl, rfl⟩
instance : streamingPlatformVoteIndex.Beside R := Sidelong.beside fun _ _ => ⟨rfl, rfl⟩
instance : witnessIndex.Beside R := Sidelong.beside fun _ _ => ⟨rfl, rfl⟩
instance : witnessVoteIndex.Beside R := Sidelong.beside fun _ _ => ⟨rfl, rfl⟩

instance (id : AccountId) (change : AccountFunds → Except Exn AccountFunds) :
    Respects R (modifyFunds id change) :=
  ⟨fun hr => by
    obtain ⟨a, p, ha, -, rfl⟩ := runs_modifyFunds.mp hr
    exact hR.account ha rfl rfl rfl⟩

instance (id : AccountId) (change : AccountListening → AccountListening) :
    Respects R (modifyAccountListening id change) :=
  ⟨fun hr => by
    obtain ⟨a, ha, rfl⟩ := runs_modifyAccountListening.mp hr
    exact hR.account ha rfl rfl rfl⟩

instance (id : AccountId) (change : AccountStake → Except Exn AccountStake)
    [h : Keeps AccountStake.vestingShares change] : Respects R (modifyStake id change) :=
  ⟨fun hr => by
    obtain ⟨a, p, ha, hp, rfl⟩ := runs_modifyStake.mp hr
    exact hR.account ha rfl rfl (h.keeps hp)⟩

instance (id : AccountId) (change : AccountProfile → Except Exn AccountProfile)
    [h : Keeps AccountProfile.social change] : Respects R (modifyProfile id change) :=
  ⟨fun hr => by
    obtain ⟨a, p, ha, hp, rfl⟩ := runs_modifyProfile.mp hr
    exact hR.account ha rfl (h.keeps hp) rfl⟩

instance (change : GlobalSupply → Except Exn GlobalSupply) : Respects R (modifySupply change) :=
  ⟨fun hr => by
    obtain ⟨p, -, rfl⟩ := runs_modifySupply.mp hr
    exact hR.elsewhere rfl rfl⟩

instance (change : GlobalListening → GlobalListening) : Respects R (modifyGlobalListening change) :=
  ⟨fun hr => by
    obtain ⟨d, hd, rfl⟩ := runs_modifyDgpo.mp hr
    obtain rfl := Except.ok.inj hd
    exact hR.elsewhere rfl rfl⟩

instance (change : GlobalParams → GlobalParams) : Respects R (modifyParams change) :=
  ⟨fun hr => by
    obtain ⟨d, hd, rfl⟩ := runs_modifyDgpo.mp hr
    obtain rfl := Except.ok.inj hd
    exact hR.elsewhere rfl rfl⟩

instance (delta : ShareType) : Respects R (adjustTotalVestedByPlatforms delta) :=
  ⟨fun hr => by
    obtain ⟨x, -, rfl⟩ := runs_adjustTotalVestedByPlatforms.mp hr
    exact hR.elsewhere rfl rfl⟩

instance (change : WitnessScheduleObject → WitnessScheduleObject) :
    Respects R (modifySchedule change) :=
  ⟨fun hr => by
    cases hr
    exact hR.elsewhere rfl rfl⟩

instance (change : FeedHistoryObject → FeedHistoryObject) : Respects R (modifyFeedHistory change) :=
  ⟨fun hr => by
    cases hr
    exact hR.elsewhere rfl rfl⟩

end Primitives

/-! ## Funds, votes and orders -/

section Helpers

variable {R : Database → Database → Prop} [hR : Sidelong R]

instance (x : ShareType) : Respects R (bookInterest x) := by
  unfold bookInterest
  infer_instance

instance (a : AccountId) (x : ShareType) : Respects R (adjustBtcm a x) := by
  unfold adjustBtcm
  infer_instance

instance (a : AccountId) (x : Asset) : Respects R (adjustBalance a x) := by
  unfold adjustBalance adjustMbd adjustUserIssued
  infer_instance

instance (a : AccountId) (symbol : AssetId) : Respects R (getBalance a symbol) := by
  unfold getBalance
  infer_instance

instance (x : Asset) (vesting : Bool) : Respects R (adjustSupply x vesting) := by
  unfold adjustSupply
  infer_instance

instance (a : AccountId) (x : Asset) : Respects R (payFee a x) := by
  unfold payFee
  infer_instance

instance (a : AccountId) (x : Asset) : Respects R (createMbd a x) := by
  unfold createMbd
  infer_instance

instance (w : Nat) (x : ShareType) : Respects R (adjustWitnessVote w x) := by
  unfold adjustWitnessVote
  infer_instance

instance (id : StreamingPlatformId)
    (change : StreamingPlatformObject → Except Exn StreamingPlatformObject) :
    Respects R (modifyPlatformInfo id change) := by
  unfold modifyPlatformInfo
  infer_instance

instance (a : AccountId) (x : ShareType) : Respects R (adjustWitnessVotes a x) := by
  unfold adjustWitnessVotes
  infer_instance

instance (p : StreamingPlatformId) (x : ShareType) : Respects R (adjustStreamingPlatformVote p x) := by
  unfold adjustStreamingPlatformVote
  infer_instance

instance (a : AccountId) (x : ShareType) : Respects R (adjustStreamingPlatformVotes a x) := by
  unfold adjustStreamingPlatformVotes
  infer_instance

instance (delta : List ShareType) (n : Nat) (a : AccountId) :
    Respects R (adjustProxiedWitnessVotesAll delta n a) := by
  induction n generalizing a with
  | zero => unfold adjustProxiedWitnessVotesAll; infer_instance
  | succ n ih => unfold adjustProxiedWitnessVotesAll; infer_instance

instance (delta : ShareType) (n : Nat) (a : AccountId) :
    Respects R (adjustProxiedWitnessVotesFrom delta n a) := by
  induction n generalizing a with
  | zero => unfold adjustProxiedWitnessVotesFrom; infer_instance
  | succ n ih => unfold adjustProxiedWitnessVotesFrom; infer_instance

instance (a : AccountId) (x : ShareType) : Respects R (adjustProxiedWitnessVotes a x) := by
  unfold adjustProxiedWitnessVotes
  infer_instance

instance (p : FlatMap StreamingPlatformId SpHelper) : Respects R (adjustStatistics p) := by
  unfold adjustStatistics adjustPlatform adjustConsumer adjustSpUser modifyPlatformListening
  infer_instance

instance (order : Nat) : Respects R (cancelOrder order) := by
  unfold cancelOrder
  infer_instance

instance (order : Nat) (x y : Asset) : Respects R (fillOrder order x y) := by
  unfold fillOrder
  infer_instance

instance (new old : Nat) : Respects R (matchOrders new old) := by
  unfold matchOrders
  infer_instance

instance (new : Nat) (off : Bool) (l : List Nat) : Respects R (matchAll new off l) := by
  induction l with
  | nil => unfold matchAll; infer_instance
  | cons o l ih => unfold matchAll; infer_instance

instance (order : Nat) : Respects R (applyOrder order) := by
  unfold applyOrder
  infer_instance

instance (w : String) (i : UInt32) (a : Asset) (p : Except Exn Price) (k : Bool) (e : TimePointSec) :
    Respects R (createOrder w i a p k e) := by
  unfold createOrder
  infer_instance

instance (a : AccountId) (x : ShareType) (c : Asset) : Respects R (creditConverted a x c) := by
  unfold creditConverted
  infer_instance

instance (x y : ShareType) (r : Entry WithdrawVestingRouteObject) : Respects R (depositBtcm x y r) := by
  unfold depositBtcm
  infer_instance

instance (a : AccountId) (x : Asset) : Respects R (debitBtcm a x) := by
  unfold debitBtcm
  infer_instance

instance (a : AccountId) (x : ShareType) : Respects R (adjustDelegated a x) := by
  unfold adjustDelegated
  infer_instance

instance (a : AccountId) (x : ShareType) : Respects R (adjustReceived a x) := by
  unfold adjustReceived
  infer_instance

instance (x : ShareType) : Respects R (bookPlatformDelta x) := by
  unfold bookPlatformDelta
  infer_instance

/-- What `redelegate` changes of a profile has nothing to do with the ties. -/
theorem redelegate_social {old now : ShareType} {p : AccountProfile}
    {r : AccountProfile × List (AccountId × Int64)} (h : redelegate old now p = .ok r) :
    r.1.social = p.social := by
  refine foldlM_ok_induction (P := fun _ acc => acc.1.social = p.social) h rfl
    fun done e rest acc acc' _ hacc hstep => ?_
  obtain ⟨delta, -, hstep⟩ := except_bind_ok.mp hstep
  split at hstep
  · cases hstep
    exact hacc
  · simp only [except_bind_ok, except_pure_ok] at hstep
    obtain ⟨_, -, _, -, rfl⟩ := hstep
    exact hacc

instance (a : AccountId) (old now : ShareType) : Respects R (updateRedelegations a old now) :=
  ⟨fun {s _ s'} hr => by
    simp only [updateRedelegations, runs_bind_get] at hr
    obtain ⟨acct, hacct, hr⟩ := hr
    rcases runs_whenM.mp hr with ⟨-, hr⟩ | ⟨-, rfl⟩
    · rw [runs_bind_ofExcept] at hr
      obtain ⟨r, hred, hr⟩ := hr
      rw [runs_bind] at hr
      obtain ⟨_, t, hput, hr⟩ := hr
      obtain ⟨b, p, hb, hp, rfl⟩ := runs_modifyProfile.mp hput
      have hp : r.1 = p := Except.ok.inj hp
      have hbacct : b = acct := Option.some.inj (hb.symm.trans hacct)
      have hsocial : p.social = b.social := by rw [← hp, hbacct, redelegate_social hred]
      have hput : R s _ := hR.account (b := { b with toAccountProfile := p }) hb rfl hsocial rfl
      exact Preorder₂.trans hput (Respects.rel hr)
    · exact Preorder₂.refl _⟩

end Helpers

/-! ## Blocks -/

section Blocks

variable {R : Database → Database → Prop} [hR : Sidelong R]

instance (n : UInt32) : Respects R (getScheduledWitness n) := by
  unfold getScheduledWitness
  infer_instance

instance (b : SignedBlock) : Respects R (startBlock b) := by
  unfold startBlock
  infer_instance

instance (p : String) (n : Nat) : Respects R (missSlot p n) := by
  unfold missSlot
  infer_instance

instance (p : String) (t : TimePointSec) : Respects R (updateSigningWitness p t) := by
  unfold updateSigningWitness
  infer_instance

instance : Respects R updateLastIrreversibleBlock := by
  unfold updateLastIrreversibleBlock confirmedBlocks
  infer_instance

instance (time : UInt128) (l : List (Nat × WitnessObject)) : Respects R (advanceWitnesses time l) := by
  induction l with
  | nil => unfold advanceWitnesses; infer_instance
  | cons w l ih => unfold advanceWitnesses; infer_instance

instance : Respects R updateWitnessSchedule := by
  unfold updateWitnessSchedule updateWitnessSchedule4 resetVirtualScheduleTime
    updateMedianWitnessProps
  infer_instance

instance : Respects R updateMedianFeed := by
  unfold updateMedianFeed currentFeeds recordFeed
  infer_instance

instance : Respects R updateVirtualSupply := by
  unfold updateVirtualSupply
  infer_instance

instance : Respects R clearExpiredOrders := by
  unfold clearExpiredOrders
  infer_instance

instance (e : Entry VestingDelegationExpirationObject) : Respects R (returnDelegation e) := by
  unfold returnDelegation
  infer_instance

instance : Respects R clearExpiredDelegations := by
  unfold clearExpiredDelegations
  infer_instance

instance (x y z : ShareType) : Respects R (processFunds x y z) := by
  unfold processFunds
  infer_instance

instance (x y : ShareType) : Respects R (adjustFunds x y) := by
  unfold adjustFunds
  infer_instance

instance : Respects R processConversions := by
  unfold processConversions convertRequest
  infer_instance

instance [∀ a x, Respects R (createVesting a x)] [∀ a, Respects R (withdrawFrom a)] :
    Respects R settleBlock := by
  unfold settleBlock getContentReward
  infer_instance

instance [∀ n t, Respects R (setClock n t)] (b : SignedBlock) : Respects R (advanceClock b) := by
  unfold advanceClock updateGlobalDynamicData
  infer_instance

end Blocks

/-! ## Evaluators -/

/-- The operations that make and end friendships, which alone touch the ties of accounts. -/
def Operation.touchesTies : Operation → Bool
  | .friendship .. | .unfriend .. => true
  | _ => false

/-- The operations behind account recovery; an account update may replace the owner. -/
def Operation.touchesRecovery : Operation → Bool
  | .accountUpdate _ | .requestAccountRecovery .. | .recoverAccount .. | .changeRecoveryAccount .. =>
      true
  | _ => false

section Evaluators

variable {R : Database → Database → Prop} [hR : Sidelong R]

instance (a : AccountId) : Respects R (clearWitnessVotes a) := by
  unfold clearWitnessVotes
  infer_instance

instance (a : AccountId) : Respects R (clearStreamingPlatformVotes a) := by
  unfold clearStreamingPlatformVotes
  infer_instance

instance (n : Nat) (chain : List AccountId) (p : String) : Respects R (checkProxyChain n chain p) := by
  induction n generalizing chain p with
  | zero => unfold checkProxyChain; infer_instance
  | succ n ih => unfold checkProxyChain; infer_instance

instance (name : String) (owner active basic : Authority) (memoKey : PublicKey)
    (jsonMetadata recovery : String) (received : ShareType) (now : TimePointSec) :
    Respects R (accountIndex.create
      (newAccount name owner active basic memoKey jsonMetadata recovery received now)) :=
  ⟨fun hr => by
    rw [(Table.runs_create.mp hr).2.2]
    exact hR.create _ rfl rfl rfl rfl rfl⟩

instance (id : AssetId) : Respects R (getAssetObject id) := by
  unfold getAssetObject
  infer_instance

instance (x : String) (issuer : AccountId) : Respects R (requireParent x issuer) := by
  unfold requireParent
  infer_instance

/-- Every other evaluator touches neither ties nor scores, as long as deposits do not. -/
theorem respects_evaluate [Externals] [∀ a x, Respects R (createVesting a x)] {push : Nat → DbM Unit}
    {op : Operation} (hplain : op.isProposalUpdate = false) (hties : op.touchesTies = false)
    (hrecovery : op.touchesRecovery = false) : Respects R (evaluate push op) := by
  cases op with
  | friendship | unfriend => cases hties
  | accountUpdate | requestAccountRecovery | recoverAccount | changeRecoveryAccount =>
      cases hrecovery
  | proposalUpdate => cases hplain
  | custom | escrowTransfer | escrowDispute | escrowRelease | virtualOperation =>
      unfold evaluate
      infer_instance
  | vote => unfold evaluate voteEvaluator; infer_instance
  | content => unfold evaluate contentEvaluator; infer_instance
  | contentUpdate => unfold evaluate contentUpdateEvaluator; infer_instance
  | contentApprove => unfold evaluate contentApproveEvaluator; infer_instance
  | contentDisable => unfold evaluate contentDisableEvaluator modifyContentInfo; infer_instance
  | transfer => unfold evaluate transferEvaluator; infer_instance
  | transferToVesting => unfold evaluate transferToVestingEvaluator; infer_instance
  | withdrawVesting => unfold evaluate withdrawVestingEvaluator; infer_instance
  | limitOrderCreate => unfold evaluate limitOrderCreateEvaluator; infer_instance
  | limitOrderCreate2 => unfold evaluate limitOrderCreate2Evaluator; infer_instance
  | limitOrderCancel => unfold evaluate limitOrderCancelEvaluator; infer_instance
  | feedPublish => unfold evaluate feedPublishEvaluator; infer_instance
  | convert => unfold evaluate convertEvaluator; infer_instance
  | accountCreate => unfold evaluate accountCreateEvaluator; infer_instance
  | witnessUpdate => unfold evaluate witnessUpdateEvaluator; infer_instance
  | accountWitnessVote => unfold evaluate accountWitnessVoteEvaluator; infer_instance
  | accountWitnessProxy => unfold evaluate accountWitnessProxyEvaluator; infer_instance
  | streamingPlatformUpdate => unfold evaluate streamingPlatformUpdateEvaluator; infer_instance
  | accountStreamingPlatformVote =>
      unfold evaluate accountStreamingPlatformVoteEvaluator
      infer_instance
  | streamingPlatformReport =>
      unfold evaluate streamingPlatformReportEvaluator spinningPlatformOf consumerAccountOf
        consumerSpUserOf recordListener checkListeningTime playlistCreatorOf modifyPlatformListening
        modifyContentInfo
      infer_instance
  | assetCreate => unfold evaluate assetCreateEvaluator; infer_instance
  | assetUpdate => unfold evaluate assetUpdateEvaluator; infer_instance
  | assetIssue => unfold evaluate assetIssueEvaluator adjustAssetSupply; infer_instance
  | assetReserve => unfold evaluate assetReserveEvaluator adjustAssetSupply; infer_instance
  | customJson => unfold evaluate customJsonEvaluator; infer_instance
  | setWithdrawVestingRoute => unfold evaluate setWithdrawVestingRouteEvaluator; infer_instance
  | challengeAuthority => unfold evaluate challengeAuthorityEvaluator; infer_instance
  | proveAuthority => unfold evaluate proveAuthorityEvaluator; infer_instance
  | proposalCreate => unfold evaluate proposalCreateEvaluator; infer_instance
  | proposalDelete => unfold evaluate proposalDeleteEvaluator; infer_instance
  | balanceClaim => unfold evaluate balanceClaimEvaluator; infer_instance
  | accountCreateWithDelegation =>
      unfold evaluate accountCreateWithDelegationEvaluator
      infer_instance
  | delegateVestingShares =>
      unfold evaluate delegateVestingSharesEvaluator increaseDelegation decreaseDelegation
        checkDecrease
      infer_instance
  | requestStreamReporting =>
      unfold evaluate requestStreamReportingEvaluator storeReportRequest
      infer_instance
  | cancelStreamReporting => unfold evaluate cancelStreamReportingEvaluator; infer_instance

end Evaluators

/-! ## Vesting -/

section Shares

variable {R : Database → Database → Prop} [hR : Shareless R]

instance (priority := low) (id : AccountId) (change : AccountStake → Except Exn AccountStake) :
    Respects R (modifyStake id change) :=
  ⟨fun hr => by
    obtain ⟨a, p, ha, -, rfl⟩ := runs_modifyStake.mp hr
    exact hR.shares ha rfl rfl⟩

instance (priority := low) (id : AccountId) (change : AccountProfile → Except Exn AccountProfile)
    [h : Keeps AccountProfile.ties change] : Respects R (modifyProfile id change) :=
  ⟨fun hr => by
    obtain ⟨a, p, ha, hp, rfl⟩ := runs_modifyProfile.mp hr
    exact hR.shares ha rfl (h.keeps hp)⟩

instance (a : AccountId) (delta : ShareType) : Respects R (recursiveRecalculateScore a delta) := by
  unfold recursiveRecalculateScore addScore
  infer_instance

instance (a : AccountId) : Respects R (recalculateScore a) := by
  unfold recalculateScore
  infer_instance

instance (a : AccountId) (x : Asset) : Respects R (createVesting a x) := by
  unfold createVesting
  infer_instance

instance (x y : ShareType) (r : Entry WithdrawVestingRouteObject) :
    Respects R (depositVests x y r) := by
  unfold depositVests
  infer_instance

instance (a : AccountId) : Respects R (withdrawFrom a) := by
  unfold withdrawFrom
  infer_instance

end Shares

end BtcmChain
