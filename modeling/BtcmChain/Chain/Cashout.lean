import BtcmChain.Chain.Market

set_option autoImplicit false
set_option synthInstance.maxSize 10000000
set_option synthInstance.maxHeartbeats 200000

/-!
# Content cashout

A day after a play was reported, the report is paid. Its reward is the content
reward of the block, scaled by four ratios (`calculateReportReward`); the content's
owners get theirs in XUSD (or BTCM while there is no feed), the platforms get theirs
as vesting shares. The loop collects what each spinning platform's listeners are to
be discharged by, and `adjustStatistics` takes it out of the statistics at the end.

All amounts of this module are BTCM, so they are plain `ShareType`s.
-/

namespace BtcmChain

/-! ## Paying a content -/

/-- The two sides of a content, each with payees and managers of its own. -/
inductive Side where
  | master
  | comp
  deriving DecidableEq, Repr

/-- The payees of one side of a content, with their shares. -/
def ContentSplit.distributions (c : ContentSplit) : Side → List Distribution
  | .master => c.distributionsMaster
  | .comp => c.distributionsComp

/-- What one side of a content has accumulated and not paid out so far. -/
def ContentPool.accumulated (p : ContentPool) : Side → ShareType
  | .master => p.accumulatedBalanceMaster
  | .comp => p.accumulatedBalanceComp

/-- Replace what one side of a content has accumulated. -/
def ContentPool.setAccumulated (p : ContentPool) (x : ShareType) : Side → ContentPool
  | .master => { p with accumulatedBalanceMaster := x }
  | .comp => { p with accumulatedBalanceComp := x }

/-- `amount * bp / 10000`, where the product must fit 64 bits. -/
def bpShare (amount factor : ShareType) : Except Exn ShareType := do
  let scaled ← safeMul amount factor
  safeDiv scaled 10000

/-- Pay one payee of a side its part of `toPay`, and add it to the total. -/
def payDistribution (toPay total : ShareType) (d : Distribution) : DbM ShareType := do
  let reward ← ofExcept (bpShare toPay (.ofUInt32 d.bp))
  let total' ← ofExcept (safeAdd total reward)
  let vesting ← ofExcept (safeSub reward reward)
  let author ← getAccount d.payee
  let _ ← createVesting author.id (btcm vesting)
  let _ ← createMbd author.id (btcm reward)
  return total'

/-- The loop over the payees; the result is what they were paid in total. -/
def payDistributions (toPay : ShareType) (ds : List Distribution) : DbM ShareType :=
  ds.foldlM (payDistribution toPay) 0

/-- The common body of `pay_to_content_master` and `pay_to_content_comp`. Without
payees the payout accumulates; an over-payment is only logged. -/
def payToContentSide (side : Side) (content : Nat) (payout : ShareType) : DbM Unit := do
  let co ← contentIndex.get content
  if (co.distributions side).isEmpty then
    modifyPool content fun p => do
      let x ← safeAdd (p.accumulated side) payout
      return p.setAccumulated x side
  else do
    let toPay ← ofExcept (safeAdd payout (co.accumulated side))
    let totalPaid ← payDistributions toPay (co.distributions side)
    let rest ← ofExcept (safeSub toPay totalPaid)
    whenM (co.accumulated side ≠ rest) do
      modifyPool content fun p => .ok (p.setAccumulated rest side)

/-- `pay_to_content_master`: a payout to the master side of a content. -/
def payToContentMaster (content : Nat) (payout : ShareType) : DbM Unit :=
  payToContentSide .master content payout

/-- `pay_to_content_comp`: a payout to the publishing side of a content. -/
def payToContentComp (content : Nat) (payout : ShareType) : DbM Unit :=
  payToContentSide .comp content payout

/-- `pay_to_platform`: all of it becomes vesting shares of the platform's owner. -/
def payToPlatform (platform : StreamingPlatformId) (payout : ShareType) : DbM Unit := do
  let pl ← streamingPlatformIndex.get platform
  let owner ← getAccount pl.owner
  let _ ← createVesting owner.id (btcm payout)
  let _ ← createMbd owner.id (btcm 0)

/-- `pay_to_content`: the owners' part of a report reward; returns what they got. -/
def payToContent (content : Nat) (payout : ShareType) : DbM ShareType := do
  let co ← contentIndex.get content
  let platformReward ← ofExcept (bpShare payout (.ofUInt32 co.playingReward))
  let forOwners ← ofExcept (safeSub payout platformReward)
  let compReward ← ofExcept (bpShare forOwners (.ofUInt32 co.publishersShare))
  let masterReward ← ofExcept (safeSub forOwners compReward)
  payToContentMaster content masterReward
  payToContentComp content compReward
  let paid ← ofExcept (safeAdd masterReward compReward)
  modifyContentInfo content fun c => { c with timesPlayed24 := c.timesPlayed24 - 1 }
  return paid

instance (t a : ShareType) (d : Distribution) : Writes (payDistribution t a d) [.funds, .stakes, .voting, .laps] :=
  ⟨by unfold payDistribution; infer_instance⟩
instance (t : ShareType) (l : List Distribution) : Writes (payDistributions t l) [.funds, .stakes, .voting, .laps] :=
  ⟨by unfold payDistributions; infer_instance⟩
instance (k : Side) (c : Nat) (x : ShareType) : Writes (payToContentSide k c x) [.funds, .stakes, .voting, .laps, .pools] :=
  ⟨by unfold payToContentSide; infer_instance⟩
instance (c : Nat) (x : ShareType) : Writes (payToContentMaster c x) [.funds, .stakes, .voting, .laps, .pools] :=
  ⟨by unfold payToContentMaster; infer_instance⟩
instance (c : Nat) (x : ShareType) : Writes (payToContentComp c x) [.funds, .stakes, .voting, .laps, .pools] :=
  ⟨by unfold payToContentComp; infer_instance⟩
instance (p : StreamingPlatformId) (x : ShareType) : Writes (payToPlatform p x) [.funds, .stakes, .voting, .laps] :=
  ⟨by unfold payToPlatform; infer_instance⟩
instance (c : Nat) (x : ShareType) : Writes (payToContent c x) [.funds, .stakes, .voting, .laps, .pools, .catalogue] :=
  ⟨by unfold payToContent; infer_instance⟩

/-- The loop over the payees does not touch the pool of the content they are paid for. -/
theorem payDistributions_pool {toPay total : ShareType} {ds : List Distribution} {s t : Database}
    {k : Nat} {co : ContentObject} (h : Runs (payDistributions toPay ds) s total t)
    (hco : s.contents.find? k = some co) :
    ∃ c, t.contents.find? k = some c ∧ c.toContentPool = co.toContentPool := by
  have hpool : t.pools.find? k = some co.toContentPool := by
    rw [Writes.pools_eq h (by decide), Database.pools, FlatMap.find?_mapVals]
    exact congrArg (Option.map _) hco
  rw [Database.pools, FlatMap.find?_mapVals] at hpool
  exact Option.map_eq_some_iff.mp hpool

/-- Without payees the payout is kept; with payees they are paid, and the rest is kept. -/
theorem runs_payToContentSide {side : Side} {content : Nat} {payout : ShareType} {s s' : Database}
    (h : Runs (payToContentSide side content payout) s () s') :
    ∃ co, s.contents.find? content = some co ∧
      (co.distributions side = [] ∧ (∃ x : ShareType,
          x.toInt = (co.accumulated side).toInt + payout.toInt ∧
          Runs (modifyPool content fun p => .ok (p.setAccumulated x side)) s () s') ∨
        co.distributions side ≠ [] ∧ ∃ (toPay totalPaid rest : ShareType) (t : Database),
          toPay.toInt = payout.toInt + (co.accumulated side).toInt ∧
          Runs (payDistributions toPay (co.distributions side)) s totalPaid t ∧
          rest.toInt = toPay.toInt - totalPaid.toInt ∧
          (Runs (modifyPool content fun p => .ok (p.setAccumulated rest side)) t () s' ∨
            co.accumulated side = rest ∧ s' = t)) := by
  simp only [payToContentSide, runs_bind_get] at h
  obtain ⟨co, hco, h⟩ := h
  refine ⟨co, hco, ?_⟩
  rcases runs_ite.mp h with ⟨hempty, h⟩ | ⟨hempty, h⟩
  · refine Or.inl ⟨by simpa using hempty, ?_⟩
    obtain ⟨c, p, hc, hp, rfl⟩ := runs_modifyPool.mp h
    have hc' : s.contents.find? content = some c := hc
    obtain rfl := Option.some.inj (hco.symm.trans hc')
    obtain ⟨x, hx, hp⟩ := except_bind_ok.mp hp
    obtain rfl := except_pure_ok.mp hp
    exact ⟨x, safeAdd_ok.mp hx, runs_modifyPool.mpr ⟨co, _, hc, rfl, rfl⟩⟩
  · refine Or.inr ⟨by simpa using hempty, ?_⟩
    rw [runs_bind_ofExcept] at h
    obtain ⟨toPay, htoPay, h⟩ := h
    rw [runs_bind] at h
    obtain ⟨totalPaid, t, hpaid, h⟩ := h
    rw [runs_bind_ofExcept] at h
    obtain ⟨rest, hrest, h⟩ := h
    refine ⟨toPay, totalPaid, rest, t, safeAdd_ok.mp htoPay, hpaid, safeSub_ok.mp hrest, ?_⟩
    rcases runs_whenM.mp h with ⟨-, h⟩ | ⟨heq, h⟩
    · exact Or.inl h
    · exact Or.inr ⟨by simpa using heq, h⟩

/-! ## The reward of a report -/

/-- `sp_helper::get_vesting_stake`: the vesting shares of an account, with those delegated to it and
without those it has delegated. -/
def AccountStake.vestingStake (a : AccountStake) : Except Exn ShareType := do
  let x ← safeAdd a.vestingShares a.receivedVestingShares
  safeSub x a.delegatedVestingShares

/-- `calculate_report_reward`: `payout · time · stake / vested · min(listened, 3600) /
full users' time / listened`, rounded down after each division, in 128 bits. -/
def calculateReportReward (totalPayout : ShareType) (playTime : UInt32) (stake totalVested : ShareType)
    (fullUsersTime : UInt32) (totalListeningTime : UInt64) : Except Exn ShareType :=
  if stake = 0 ∨ totalPayout = 0 then .ok 0
  else do
    fcAssert (0 < totalPayout) "total_payout.amount.value > 0"
    let byTime := UInt128.ofShare totalPayout * UInt128.ofUInt32 playTime
    let byStake ← UInt128.div (byTime * UInt128.ofShare stake) (UInt128.ofShare totalVested)
    let byUsers ← UInt128.div (byStake * UInt128.ofUInt64 (min totalListeningTime 3600))
      (UInt128.ofUInt32 fullUsersTime)
    let byListener ← UInt128.div byUsers (UInt128.ofUInt64 totalListeningTime)
    let amount ← UInt128.toUInt64 byListener
    return ShareType.ofUInt64 amount

/-- Whom a report counts for: an account, a user of the platform, or nobody in particular. -/
inductive Listener where
  | account (id : AccountId)
  | spUser (spUserId : UInt64)
  | anonymous
  deriving DecidableEq

/-- A listener with the time all its pending reports add up to. -/
structure Listened where
  listener : Listener
  totalTime : UInt64

/-- The listener of a report. A pseudonymous user without a record counts as
anonymous with no time at all ("should always be true" says the source of the
record's existence). -/
def listenerOf (r : ReportObject) (spinner : StreamingPlatformId) : DbM Listened :=
  r.consumer.elim
    (r.spUserId.elim
      (do
        let sp ← streamingPlatformIndex.get spinner
        return ⟨.anonymous, sp.totalAnonListeningTime⟩)
      fun user => do
        let spu ← streamingPlatformUserIndex.findBy? fun u =>
          u.streamingPlatform = spinner ∧ u.spUserId = user
        return spu.elim ⟨.anonymous, 0⟩ fun u => ⟨.spUser user, u.val.totalListeningTime.toUInt64⟩)
    fun consumer => do
      let acct ← accountIndex.get consumer
      (acct.totalTimeByPlatform.find? spinner).elim
        (throw (.assert "time_entry != consumer_account->total_time_by_platform.end()"))
        fun time => pure ⟨.account consumer, time.toUInt64⟩

/-- `sp_helper`: what the cashed reports of one spinning platform add up to, by
listener. Its two pointers are looked up again where they are used. -/
structure SpHelper where
  accountListeningTimes : FlatMap AccountId UInt32 := .empty
  /-- The time that users of the platform without an account have listened, by `sp_user_id`. -/
  userListeningTimes : FlatMap Nat UInt32 := .empty
  anonListeningTime : UInt64 := 0

/-- `adjust_listening_times`: the consumer has listened so much longer. -/
def adjustListeningTimes (times : FlatMap Nat UInt32) (consumer : Nat) (playTime : UInt32) :
    FlatMap Nat UInt32 :=
  times.set consumer ((times.find? consumer).getD 0 + playTime)

/-- Charge the time of a report to the listener it counts for. -/
def SpHelper.charge (h : SpHelper) (playTime : UInt32) : Listener → SpHelper
  | .account id =>
      { h with accountListeningTimes := adjustListeningTimes h.accountListeningTimes id playTime }
  | .spUser user =>
      { h with userListeningTimes := adjustListeningTimes h.userListeningTimes user.toNat playTime }
  | .anonymous => { h with anonListeningTime := h.anonListeningTime + playTime.toUInt64 }

/-- What the cashout loop carries along: what was paid so far, and the times by platform. -/
structure Cashout where
  paid : ShareType := 0
  platforms : FlatMap StreamingPlatformId SpHelper := .empty

/-- The platform whose stake and listeners a report counts for. -/
def ReportObject.spinner (r : ReportObject) : StreamingPlatformId :=
  r.spinningPlatform.getD r.streamingPlatform

/-- Whether the platform reward of a report is shared with the spinning platform. -/
def ReportObject.isShared (r : ReportObject) : Bool := r.spinningPlatform.isSome && r.rewardPct.isSome

/-- The part of the platform reward that the reporting platform gets, which is all of it unless the
report is shared. -/
def ReportObject.reporterReward (r : ReportObject) (platformReward : ShareType) :
    Except Exn ShareType :=
  if r.isShared then bpShare platformReward (.ofUInt32 (r.rewardPct.getD 0).toUInt32)
  else .ok platformReward

/-- What a report is found to be worth, and who has listened. -/
structure Assessed where
  listened : Listened
  reward : ShareType

/-- The first half of a round: who listened, and what the report is worth. -/
def assessReport (totalPayout : ShareType) (r : ReportObject) : DbM Assessed := do
  let sp ← streamingPlatformIndex.get r.spinner
  let spAcct ← getAccount sp.owner
  let listened ← listenerOf r r.spinner
  let stake ← ofExcept spAcct.val.vestingStake
  let totalVested ← reads fun s => s.dgpo.totalVestedByPlatforms
  let reward ← ofExcept (calculateReportReward totalPayout r.playTime stake totalVested
    sp.fullUsersTime listened.totalTime)
  return ⟨listened, reward⟩

/-- Pay the platform reward of a report to the platforms it is for. -/
def payPlatforms (r : ReportObject) (platformReward reporterReward : ShareType) : DbM Unit := do
  whenM (r.isShared && decide (reporterReward < platformReward)) do
    let rest ← ofExcept (safeSub platformReward reporterReward)
    payToPlatform r.spinner rest
  whenM (0 < reporterReward) (payToPlatform r.streamingPlatform reporterReward)

/-- Note a cashed report: what it was paid, and whom it is charged to. -/
def Cashout.note (acc : Cashout) (paid : ShareType) (r : ReportObject) (listener : Listener) :
    Cashout where
  paid
  platforms := acc.platforms.set r.spinner
    (((acc.platforms.find? r.spinner).getD {}).charge r.playTime listener)

/-- One round of the loop of `process_content_cashout`: a report is assessed, paid for and removed.
-/
def cashReport (totalPayout : ShareType) (acc : Cashout) (r : Entry ReportObject) : DbM Cashout := do
  let a ← assessReport totalPayout r.val
  let contentPayment ← payToContent r.val.content a.reward
  let paid ← ofExcept (safeAdd acc.paid contentPayment)
  let platformReward ← ofExcept (safeSub a.reward contentPayment)
  let reporterReward ← ofExcept (r.val.reporterReward platformReward)
  payPlatforms r.val platformReward reporterReward
  let paid' ← ofExcept (safeAdd paid platformReward)
  reportIndex.remove r.id
  return acc.note paid' r.val a.listened.listener

theorem runs_listenerOf {r : ReportObject} {spinner : StreamingPlatformId} {s s' : Database}
    {l : Listened} (h : Runs (listenerOf r spinner) s l s') : s' = s := by
  unfold listenerOf at h
  cases hc : r.consumer with
  | none =>
      rw [hc] at h
      cases hu : r.spUserId with
      | none =>
          rw [hu] at h
          simp only [Option.elim_none, runs_bind_get, runs_pure] at h
          obtain ⟨_, -, -, rfl⟩ := h
          rfl
      | some user =>
          rw [hu] at h
          simp only [Option.elim_none, Option.elim_some, runs_bind_findBy?, runs_pure] at h
          exact h.2
  | some consumer =>
      rw [hc] at h
      simp only [Option.elim_some, runs_bind_get] at h
      obtain ⟨acct, -, h⟩ := h
      cases ht : acct.totalTimeByPlatform.find? spinner with
      | none =>
          rw [ht] at h
          exact absurd h runs_throw
      | some time =>
          rw [ht] at h
          exact (runs_pure.mp h).2

instance (r : ReportObject) (p : StreamingPlatformId) : Writes (listenerOf r p) [] :=
  ⟨by unfold listenerOf; infer_instance⟩
instance (t : ShareType) (r : ReportObject) : Writes (assessReport t r) [] :=
  ⟨by unfold assessReport; infer_instance⟩
instance (r : ReportObject) (p q : ShareType) : Writes (payPlatforms r p q) [.funds, .stakes, .voting, .laps] :=
  ⟨by unfold payPlatforms; infer_instance⟩
instance (t : ShareType) (c : Cashout) (r : Entry ReportObject) :
    Writes (cashReport t c r) [.funds, .stakes, .voting, .laps, .listening, .pools, .catalogue] :=
  ⟨by unfold cashReport; infer_instance⟩

/-! ## Statistics -/

/-- The four counters `adjust_delta` adds to; 32 bits each, wrapping. -/
structure ListeningDelta where
  activeUsers : UInt32 := 0
  fullTimeUsers : UInt32 := 0
  totalListeningTime : UInt32 := 0
  fullUsersTime : UInt32 := 0
  deriving DecidableEq

/-- `adjust_delta`: a listener's time goes down from `before` to `after`. -/
def ListeningDelta.adjust (d : ListeningDelta) (before after : UInt32) : ListeningDelta where
  activeUsers := if after = 0 then d.activeUsers + 1 else d.activeUsers
  fullTimeUsers := if after < 3600 ∧ 3600 ≤ before then d.fullTimeUsers + 1 else d.fullTimeUsers
  totalListeningTime := d.totalListeningTime + (before - after)
  fullUsersTime :=
    if after < 3600 then
      if 3600 ≤ before then d.fullUsersTime + (3600 - after) else d.fullUsersTime + (before - after)
    else d.fullUsersTime

/-- The counters of all platforms together and of the platform at hand. -/
structure ListeningDeltas where
  overall : ListeningDelta := {}
  platform : ListeningDelta := {}

/-- The part of `adjust_statistics` for a consumer with an account. -/
def adjustConsumer (platform : StreamingPlatformId) (d : ListeningDeltas)
    (listened : AccountId × UInt32) : DbM ListeningDeltas := do
  let consumer ← accountIndex.get listened.1
  (consumer.totalTimeByPlatform.find? platform).elim
    (throw (.assert "ptb != consumer.total_time_by_platform.end()"))
    fun before => do
      let after := before - listened.2
      modifyAccountListening listened.1 fun a => {
        totalListeningTime := a.totalListeningTime - listened.2
        totalTimeByPlatform :=
          if after = 0 then a.totalTimeByPlatform.erase platform
          else a.totalTimeByPlatform.set platform after }
      return {
        overall := d.overall.adjust consumer.totalListeningTime
          (consumer.totalListeningTime - listened.2)
        platform := d.platform.adjust before after }

/-- A pseudonymous consumer; the source does not check that its record exists. -/
def adjustSpUser (platform : StreamingPlatformId) (d : ListeningDeltas) (listened : Nat × UInt32) :
    DbM ListeningDeltas := do
  let user ← streamingPlatformUserIndex.findBy? fun u =>
    u.streamingPlatform = platform ∧ u.spUserId.toNat = listened.1
  user.elim (throw .undefined) fun u => do
    let before := u.val.totalListeningTime
    if before = listened.2 then streamingPlatformUserIndex.remove u.id
    else streamingPlatformUserIndex.modify u.id fun u =>
      .ok { u with totalListeningTime := u.totalListeningTime - listened.2 }
    return {
      overall := d.overall.adjust before (before - listened.2)
      platform := d.platform.adjust before (before - listened.2) }

/-- The anonymous listeners, whose 64-bit time is cut to 32 bits on the way. -/
def ListeningDeltas.adjustAnon (d : ListeningDeltas) (total anon : UInt64) : ListeningDeltas :=
  if 0 < anon then {
    overall := d.overall.adjust total.toUInt32 (total - anon).toUInt32
    platform := d.platform.adjust total.toUInt32 (total - anon).toUInt32 }
  else d

/-- Take the difference that a platform's expired reports make out of the platform's statistics. -/
def PlatformListening.discharge (p : PlatformListening) (d : ListeningDelta) (anon : UInt64) :
    PlatformListening where
  activeUsers := p.activeUsers - d.activeUsers
  fullTimeUsers := p.fullTimeUsers - d.fullTimeUsers
  totalListeningTime := p.totalListeningTime - d.totalListeningTime
  fullUsersTime := p.fullUsersTime - d.fullUsersTime
  totalAnonListeningTime := p.totalAnonListeningTime - anon

/-- Take the difference that expired reports make out of the global statistics. -/
def GlobalListening.discharge (g : GlobalListening) (d : ListeningDelta) : GlobalListening where
  activeUsers := g.activeUsers - d.activeUsers
  fullTimeUsers := g.fullTimeUsers - d.fullTimeUsers
  totalListeningTime := g.totalListeningTime - d.totalListeningTime
  fullUsersTime := g.fullUsersTime - d.fullUsersTime

/-- The part of `adjust_statistics` for one platform, which returns the global counters as they are
behind it. -/
def adjustPlatform (overall : ListeningDelta) (sph : StreamingPlatformId × SpHelper) :
    DbM ListeningDelta := do
  let accounts ← sph.2.accountListeningTimes.entries.foldlM (adjustConsumer sph.1) { overall }
  let users ← sph.2.userListeningTimes.entries.foldlM (adjustSpUser sph.1) accounts
  let sp ← streamingPlatformIndex.get sph.1
  let all := users.adjustAnon sp.totalAnonListeningTime sph.2.anonListeningTime
  whenM (all.platform ≠ {}) do
    modifyPlatformListening sph.1 fun p => p.discharge all.platform sph.2.anonListeningTime
  return all.overall

/-- `adjust_statistics`: the reports that were cashed no longer count, for their platforms and
altogether. -/
def adjustStatistics (platforms : FlatMap StreamingPlatformId SpHelper) : DbM Unit := do
  let overall ← platforms.entries.foldlM adjustPlatform {}
  whenM (overall ≠ {}) (modifyGlobalListening fun g => g.discharge overall)

/-- A report is cashed a day after it was made. -/
def ReportObject.isDue (now : TimePointSec) (r : ReportObject) : Bool :=
  decide (r.created.toNat + 86400 ≤ now.toNat)

/-- `process_content_cashout`: reports that are due are cashed one after the other. Each round
removes a report, so the rounds are bounded. -/
def processContentCashout (contentReward : ShareType) : DbM ShareType := do
  let now ← headBlockTime
  let size ← reads fun s => s.reports.objs.size
  let cashed ← drain .outOfFuel (reportIndex.due? (·.created.toNat) (ReportObject.isDue now))
    (cashReport contentReward) size {}
  adjustStatistics cashed.platforms
  return cashed.paid

instance (p : StreamingPlatformId) (d : ListeningDeltas) (l : AccountId × UInt32) :
    Writes (adjustConsumer p d l) [.listening] := ⟨by unfold adjustConsumer; infer_instance⟩
instance (p : StreamingPlatformId) (d : ListeningDeltas) (l : Nat × UInt32) :
    Writes (adjustSpUser p d l) [.listening] := ⟨by unfold adjustSpUser; infer_instance⟩
instance (o : ListeningDelta) (h : StreamingPlatformId × SpHelper) :
    Writes (adjustPlatform o h) [.listening] := ⟨by unfold adjustPlatform; infer_instance⟩
instance (p : FlatMap StreamingPlatformId SpHelper) : Writes (adjustStatistics p) [.listening] :=
  ⟨by unfold adjustStatistics; infer_instance⟩
instance (x : ShareType) :
    Writes (processContentCashout x) [.funds, .stakes, .voting, .laps, .listening, .pools, .catalogue] :=
  ⟨by unfold processContentCashout; infer_instance⟩

end BtcmChain
