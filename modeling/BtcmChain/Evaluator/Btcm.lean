import BtcmChain.Evaluator.Base

set_option autoImplicit false
set_option synthInstance.maxSize 10000000
set_option synthInstance.maxHeartbeats 200000

/-!
# Evaluators of the content and streaming operations

`do_apply` of streaming platforms, reports, friends, contents, votes and genesis
balance claims.

The content side is the largest part: a content carries its masters, its publishers and payees and
its management, and `contentEvaluator` and `contentUpdateEvaluator` check and store all of them. A
report of listening time is noted for the consumer and the platform, with the totals that the
cashout reads. As in `Evaluator.Base`, every evaluator is followed by its footprint (`runs_…`), the
concerns of the state it may touch; who proves something of the state unfolds an evaluator only if
that concern is at stake.
-/

namespace BtcmChain

/-! ## Streaming platforms -/

/-- `streaming_platform_update_evaluator`. A new platform brings its stake into the
platforms' total. -/
def streamingPlatformUpdateEvaluator (owner url : String) (fee : Asset) : DbM Unit := do
  let acct ← getAccount owner
  require (url.utf8ByteSize ≤ 2048) "o.url.size() <= BTCM_MAX_STREAMING_PLATFORM_URL_LENGTH"
  requireE ((btcm acct.val.balance).ge fee)
    "Insufficient balance to update streaming platform: have ${c}, need ${f}"
  let sp ← findStreamingPlatform owner
  let minimum ← reads fun s => s.witnessSchedule.medianProps.streamingPlatformUpdateFee
  let now ← headBlockTime
  sp.elim
    (do
      requireE (fee.ge minimum) "Insufficient Fee: ${f} required, ${p} provided"
      let _ ← streamingPlatformIndex.create { owner, url, created := now }
      payFee acct.id fee
      let vested ← ofExcept acct.val.vestingStake
      bookPlatformDelta vested)
    fun p => modifyPlatformInfo p.id fun p => .ok { p with url }

instance (w u : String) (f : Asset) :
    Writes (streamingPlatformUpdateEvaluator w u f) [.funds, .stakes, .listening, .names, .voting] :=
  ⟨by unfold streamingPlatformUpdateEvaluator; infer_instance⟩

/-- An update of a platform shows in no concern; a new platform pays the fee and brings
its stake along. -/
theorem runs_streamingPlatformUpdateEvaluator {owner url : String} {fee : Asset} {s s' : Database}
    (h : Runs (streamingPlatformUpdateEvaluator owner url fee) s () s') :
    ∃ acct : Entry AccountObject, s.accountNamed owner = some (acct.id, acct.val) ∧
      fee.assetId = BTCM_SYMBOL ∧ fee.amount.toInt ≤ acct.val.balance.toInt ∧
      ((s.platformOf owner).isSome = true ∧ (∀ i, Cut.same i s s') ∧
          s'.accountBalances = s.accountBalances ∨
        s.platformOf owner = none ∧ ∃ (p : StreamingPlatformObject) (t u : Database) (vested : ShareType),
          p = { owner, url, created := s.dgpo.time } ∧
          t = { s with platforms := s.platforms.create p } ∧
          Runs (payFee acct.id fee) t () u ∧ acct.val.vestingStake = .ok vested ∧
          Runs (bookPlatformDelta vested) u () s') := by
  simp only [streamingPlatformUpdateEvaluator, runs_bind_getAccount, runs_bind_require,
    runs_bind_requireE, runs_bind_findStreamingPlatform, runs_bind_reads, runs_bind_headBlockTime,
    Asset.ge_ok] at h
  obtain ⟨acct, hacct, -, ⟨hid, hge⟩, h⟩ := h
  have hge := of_decide_eq_true hge.symm
  refine ⟨acct, hacct, hid.symm, Int64.le_iff_toInt_le.mp hge, ?_⟩
  cases hsp : s.platformOf owner with
  | none =>
      rw [hsp] at h
      simp only [Option.map_none, Option.elim_none, runs_bind_requireE, runs_bind_create] at h
      obtain ⟨-, -, h⟩ := h
      rw [runs_bind] at h
      obtain ⟨_, u, hfee, h⟩ := h
      rw [runs_bind_ofExcept] at h
      obtain ⟨vested, hvested, h⟩ := h
      exact Or.inr ⟨rfl, _, _, u, vested, rfl, rfl, hfee, hvested, h⟩
  | some e =>
      rw [hsp] at h
      simp only [Option.map_some, Option.elim_some] at h
      obtain ⟨p, _, hp, hq, rfl⟩ := Table.runs_modify.mp h
      obtain rfl := Except.ok.inj hq
      exact Or.inl ⟨rfl, fun i => same_platform_update hp rfl (fun _ => rfl) fun _ => rfl, rfl⟩

/-- `account_streaming_platform_vote_evaluator`: an account votes for a platform, or takes its vote
back. -/
def accountStreamingPlatformVoteEvaluator (account streamingPlatform : String) (approve : Bool) :
    DbM Unit := do
  let voter ← getAccount account
  let sp ← getStreamingPlatform streamingPlatform
  let vote ← streamingPlatformVoteIndex.findBy? fun v =>
    v.account = voter.id ∧ v.streamingPlatform = sp.id
  vote.elim
    (do
      require approve
        "vote doesn't exist, user must be indicate a desire to approve the streaming_platform"
      require (voter.val.streamingPlatformsVotedFor < 30)
        "account has voted for too many streaming_platforms"
      let _ ← streamingPlatformVoteIndex.create { streamingPlatform := sp.id, account := voter.id }
      let weight ← ofExcept voter.val.witnessVoteWeight
      adjustStreamingPlatformVote sp.id weight
      modifyProfile voter.id fun p =>
        .ok { p with streamingPlatformsVotedFor := p.streamingPlatformsVotedFor + 1 })
    fun v => do
      require (!approve)
        "vote currently exists, user must indicate a desire to reject the streaming_platform"
      let weight ← ofExcept voter.val.witnessVoteWeight
      let minus ← ofExcept (safeNeg weight)
      adjustStreamingPlatformVote sp.id minus
      modifyProfile voter.id fun p =>
        .ok { p with streamingPlatformsVotedFor := p.streamingPlatformsVotedFor - 1 }
      streamingPlatformVoteIndex.remove v.id

instance (a p : String) (b : Bool) : Writes (accountStreamingPlatformVoteEvaluator a p b) [.voting] :=
  ⟨by unfold accountStreamingPlatformVoteEvaluator; infer_instance⟩

/-- The share of the received delegations a redelegation percentage stands for. -/
def redelegatedShare (received : ShareType) (pct : UInt32) : Except Exn UInt64 := do
  let q ← UInt128.div (UInt128.ofShare received * UInt128.ofUInt32 pct) 10000
  UInt128.toUInt64 q

/-- The total percentage with the requested one in place, checked at every step. -/
def totalRedelegation (reporter : AccountId) (pct : UInt32)
    (redelegations : FlatMap AccountId Redelegation) : Except Exn UInt32 :=
  redelegations.entries.foldlM (fun (total : UInt32) r => do
    let total' := total + (if r.1 = reporter then pct else r.2.redelegatePct.toUInt32)
    fcAssert (total' ≤ 10000) "Cannot redelegate more than 100% in total"
    return total') 0

/-- The redelegations of the requestor after a request: so much more is passed on to the reporter.
-/
def AccountProfile.redelegateTo (reporter : AccountId) (pct : UInt16) (delta : ShareType)
    (p : AccountProfile) : Except Exn AccountProfile := do
  let old := (p.redelegations.find? reporter).getD {}
  let redelegated ← safeAdd old.redelegated delta
  let total ← safeAdd p.redelegatedVestingShares delta
  if pct = 0 then do
    fcAssert (redelegated = 0) "acct.redelegations[reporter_ac.id].redelegated == 0"
    return { p with
      redelegations := p.redelegations.erase reporter
      redelegatedVestingShares := total }
  else
    return { p with
      redelegations := p.redelegations.set reporter { redelegatePct := pct, redelegated }
      redelegatedVestingShares := total }

instance (reporter : AccountId) (pct : UInt16) (delta : ShareType) :
    Keeps AccountProfile.voting (·.redelegateTo reporter pct delta) :=
  ⟨fun h => by
    simp only [AccountProfile.redelegateTo, except_bind_ok] at h
    obtain ⟨_, -, _, -, h⟩ := h
    split at h
    · simp only [except_bind_ok, except_pure_ok] at h
      obtain ⟨_, -, rfl⟩ := h
      rfl
    · cases h
      rfl⟩

/-- Record or update who reports for a platform, and at which reward. -/
def storeReportRequest (requestor reporter : String) (rewardPct redelegatePct : UInt32)
    (prevPct : UInt16) : DbM Unit := do
  let srr ← streamReportRequestIndex.findBy? fun r => r.requestor = requestor ∧ r.reporter = reporter
  srr.elim
    (do
      let _ ← streamReportRequestIndex.create { requestor, reporter, rewardPct := rewardPct.toUInt16 })
    fun r => do
      require (r.val.rewardPct.toUInt32 ≠ rewardPct ∨ redelegatePct ≠ prevPct.toUInt32)
        "Entry already exists!"
      streamReportRequestIndex.modify r.id fun r => .ok { r with rewardPct := rewardPct.toUInt16 }

instance (a b : String) (r p : UInt32) (q : UInt16) : Writes (storeReportRequest a b r p q) [.requests] :=
  ⟨by unfold storeReportRequest; infer_instance⟩

/-- `request_stream_reporting_evaluator`: a platform lets another one report for it, or changes the
terms. -/
def requestStreamReportingEvaluator (requestor reporter : String) (rewardPct redelegatePct : UInt32) :
    DbM Unit := do
  let _ ← streamingPlatformIndex.getBy (·.owner = requestor) "No such streaming platform '${p}'"
  let _ ← streamingPlatformIndex.getBy (·.owner = reporter) "No such streaming platform '${p}'"
  let requestorAc ← getAccount requestor
  let reporterAc ← getAccount reporter
  let share ← ofExcept (redelegatedShare requestorAc.val.receivedVestingShares redelegatePct)
  require (ShareType.ofUInt64 share ≤ requestorAc.val.receivedVestingShares)
    "redelegated <= requestor_ac.received_vesting_shares.amount.value"
  let _ ← ofExcept (totalRedelegation reporterAc.id redelegatePct requestorAc.val.redelegations)
  let old := requestorAc.val.redelegations.find? reporterAc.id
  let delta ← ofExcept (safeSub (.ofUInt64 share) (old.elim 0 Redelegation.redelegated))
  storeReportRequest requestor reporter rewardPct redelegatePct (old.elim 0 Redelegation.redelegatePct)
  whenM (delta ≠ 0 || 0 < redelegatePct ||
      old.any fun r => r.redelegatePct.toUInt32 ≠ redelegatePct) do
    modifyProfile requestorAc.id (·.redelegateTo reporterAc.id redelegatePct.toUInt16 delta)
    whenM (delta ≠ 0) do
      modifyProfile reporterAc.id fun p => do
        let rereceivedVestingShares ← safeAdd p.rereceivedVestingShares delta
        return { p with rereceivedVestingShares }

instance (a b : String) (r p : UInt32) :
    Writes (requestStreamReportingEvaluator a b r p) [.requests, .redelegations] :=
  ⟨by unfold requestStreamReportingEvaluator; infer_instance⟩

/-- `cancel_stream_reporting_evaluator`: a platform no longer lets another one report for it. -/
def cancelStreamReportingEvaluator (requestor reporter : String) : DbM Unit := do
  let srr ← streamReportRequestIndex.getBy (fun r => r.requestor = requestor ∧ r.reporter = reporter)
    "Can't cancel non-existant request!"
  streamReportRequestIndex.remove srr.id
  let requestorAc ← getAccount requestor
  let reporterAc ← getAccount reporter
  (requestorAc.val.redelegations.find? reporterAc.id).elim (pure ()) fun old => do
    whenM (old.redelegated ≠ 0) do
      modifyProfile reporterAc.id fun p => do
        let rereceivedVestingShares ← safeSub p.rereceivedVestingShares old.redelegated
        return { p with rereceivedVestingShares }
    modifyProfile requestorAc.id fun p => do
      let redelegatedVestingShares ← safeSub p.redelegatedVestingShares old.redelegated
      return { p with redelegatedVestingShares, redelegations := p.redelegations.erase reporterAc.id }

instance (a b : String) :
    Writes (cancelStreamReportingEvaluator a b) [.requests, .redelegations] :=
  ⟨by unfold cancelStreamReportingEvaluator; infer_instance⟩

/-! ## Reports -/

/-- `is_voted_streaming_platform`: whether the platform is among the ten with the most votes. -/
def Database.isVotedStreamingPlatform (s : Database) (name : String) : Bool :=
  ((s.platforms.entries.insertionSort fun a b =>
    b.2.votes < a.2.votes ∨ (a.2.votes = b.2.votes ∧ a.2.owner ≤ b.2.owner)).take 10).any
      fun p => p.2.owner = name

/-- The spinning platform of a report and the reward share it granted. -/
def spinningPlatformOf (o : StreamingPlatformReportOperation) :
    DbM (Option (StreamingPlatformId × UInt16)) :=
  o.spinningPlatform.elim (pure none) fun name => do
    let sp ← getStreamingPlatform name
    let srr ← streamReportRequestIndex.getBy
      (fun r => r.requestor = name ∧ r.reporter = o.streamingPlatform)
      "spinning_platform has not requested reporting from you"
    return some (sp.id, srr.val.rewardPct)

/-- A day has 86400 seconds; the sum is a 32-bit one. -/
def checkListeningTime (playTime total : UInt32) : DbM Unit :=
  require (playTime + total ≤ 86400) "User cannot cannot listen for more than 86400 seconds per day"

/-- The consumer of a report, if it has an account. -/
def consumerAccountOf (o : StreamingPlatformReportOperation) : DbM (Option (Entry AccountObject)) :=
  if o.consumer = "" then pure none
  else do
    let acct ← getAccount o.consumer
    checkListeningTime o.playTime acct.val.totalListeningTime
    return some acct

/-- The record of a pseudonymous consumer, if there is one. -/
def consumerSpUserOf (o : StreamingPlatformReportOperation) (spinner : StreamingPlatformId) :
    DbM (Option (Entry StreamingPlatformUserObject)) :=
  if o.consumer = "" then
    o.spUserId.elim (pure none) fun id => do
      let user ← streamingPlatformUserIndex.findBy? fun u =>
        u.streamingPlatform = spinner ∧ u.spUserId = id.toUInt64
      user.elim (pure none) fun u => do
        checkListeningTime o.playTime u.val.totalListeningTime
        return some u
  else pure none

/-- A listener's time before a report, overall and on the platform. -/
structure PrevTimes where
  overall : UInt64 := 0
  platform : UInt64 := 0

/-- Count a play for the listener, who has an account, is a user of the platform, or is unknown. -/
def recordListener (o : StreamingPlatformReportOperation) (spinner : StreamingPlatformId)
    (account : Option (Entry AccountObject)) (spUser : Option (Entry StreamingPlatformUserObject)) :
    DbM PrevTimes :=
  account.elim
    (o.spUserId.elim
      (do
        let sp ← streamingPlatformIndex.get spinner
        modifyPlatformListening spinner fun p =>
          { p with totalAnonListeningTime := p.totalAnonListeningTime + o.playTime.toUInt64 }
        return ⟨sp.totalAnonListeningTime, sp.totalAnonListeningTime⟩)
      fun id =>
        spUser.elim
          (do
            let _ ← streamingPlatformUserIndex.create
              { streamingPlatform := spinner, spUserId := id.toUInt64, totalListeningTime := o.playTime }
            return {})
          fun u => do
            streamingPlatformUserIndex.modify u.id fun u =>
              .ok { u with totalListeningTime := u.totalListeningTime + o.playTime }
            return ⟨u.val.totalListeningTime.toUInt64, u.val.totalListeningTime.toUInt64⟩)
    fun a => do
      modifyAccountListening a.id fun l => {
        totalListeningTime := l.totalListeningTime + o.playTime
        totalTimeByPlatform := l.totalTimeByPlatform.set spinner
          ((l.totalTimeByPlatform.find? spinner).getD 0 + o.playTime) }
      return ⟨a.val.totalListeningTime.toUInt64,
        ((a.val.totalTimeByPlatform.find? spinner).getD 0).toUInt64⟩

/-- What a play adds to the counters when the listener already had `prev` seconds:
only the first hour of a listener counts towards the full users' time. -/
def ListeningDelta.ofPlay (prev : UInt64) (playTime : UInt32) : ListeningDelta where
  activeUsers := if prev = 0 then 1 else 0
  fullTimeUsers := if prev < 3600 ∧ ¬ playTime.toUInt64 < 3600 - prev then 1 else 0
  totalListeningTime := playTime
  fullUsersTime :=
    if prev < 3600 then if playTime.toUInt64 < 3600 - prev then playTime else (3600 - prev).toUInt32
    else 0

/-- Add the difference that a report makes to the global statistics. -/
def GlobalListening.record (g : GlobalListening) (d : ListeningDelta) : GlobalListening where
  activeUsers := g.activeUsers + d.activeUsers
  fullTimeUsers := g.fullTimeUsers + d.fullTimeUsers
  totalListeningTime := g.totalListeningTime + d.totalListeningTime
  fullUsersTime := g.fullUsersTime + d.fullUsersTime

/-- Add the difference that a report makes to a platform's statistics. -/
def PlatformListening.record (p : PlatformListening) (d : ListeningDelta) : PlatformListening :=
  { p with
    activeUsers := p.activeUsers + d.activeUsers
    fullTimeUsers := p.fullTimeUsers + d.fullTimeUsers
    totalListeningTime := p.totalListeningTime + d.totalListeningTime
    fullUsersTime := p.fullUsersTime + d.fullUsersTime }

/-- The account of the playlist creator, if the report names one. -/
def playlistCreatorOf (name : String) : DbM (Option AccountId) :=
  if name = "" then pure none
  else do
    let acct ← getAccount name
    return some acct.id

/-- `streaming_platform_report_evaluator`: a platform among the ten reports what was played, and the
statistics count it. -/
def streamingPlatformReportEvaluator (o : StreamingPlatformReportOperation) : DbM Unit := do
  let stp ← getStreamingPlatform o.streamingPlatform
  let spp ← spinningPlatformOf o
  let spinner := spp.elim stp.id Prod.fst
  let account ← consumerAccountOf o
  let spUser ← consumerSpUserOf o spinner
  let voted ← reads fun s => s.isVotedStreamingPlatform o.streamingPlatform
  require voted "db().is_voted_streaming_platform( o.streaming_platform )"
  let content ← getContent o.content
  require (!content.val.disabled) "!content.disabled"
  let playlistCreator ← playlistCreatorOf o.playlistCreator
  let now ← headBlockTime
  let _ ← reportIndex.create {
    streamingPlatform := stp.id
    consumer := account.map Entry.id
    spUserId := o.spUserId.map UInt32.toUInt64
    content := content.id
    created := now
    playTime := o.playTime
    playlistCreator
    spinningPlatform := spp.map Prod.fst
    rewardPct := spp.map Prod.snd }
  let prev ← recordListener o spinner account spUser
  modifyGlobalListening fun g => g.record (.ofPlay prev.overall o.playTime)
  modifyPlatformListening spinner fun p => p.record (.ofPlay prev.platform o.playTime)
  modifyContentInfo content.id fun c => { c with
    timesPlayed := c.timesPlayed + 1
    timesPlayed24 := c.timesPlayed24 + 1 }

instance (o : StreamingPlatformReportOperation) : Writes (spinningPlatformOf o) [] :=
  ⟨by unfold spinningPlatformOf; infer_instance⟩
instance (x y : UInt32) : Writes (checkListeningTime x y) [] :=
  ⟨by unfold checkListeningTime; infer_instance⟩
instance (o : StreamingPlatformReportOperation) : Writes (consumerAccountOf o) [] :=
  ⟨by unfold consumerAccountOf; infer_instance⟩
instance (o : StreamingPlatformReportOperation) (p : StreamingPlatformId) :
    Writes (consumerSpUserOf o p) [] := ⟨by unfold consumerSpUserOf; infer_instance⟩
instance (o : StreamingPlatformReportOperation) (p : StreamingPlatformId)
    (a : Option (Entry AccountObject)) (u : Option (Entry StreamingPlatformUserObject)) :
    Writes (recordListener o p a u) [.listening] := ⟨by unfold recordListener; infer_instance⟩
instance (n : String) : Writes (playlistCreatorOf n) [] :=
  ⟨by unfold playlistCreatorOf; infer_instance⟩
instance (o : StreamingPlatformReportOperation) :
    Writes (streamingPlatformReportEvaluator o) [.listening, .catalogue] :=
  ⟨by unfold streamingPlatformReportEvaluator; infer_instance⟩

/-! ## Friends -/

/-- Insert into a set of account numbers, which is kept sorted. -/
def insertId (l : List AccountId) (x : AccountId) : List AccountId :=
  if x ∈ l then l else l.orderedInsert (· ≤ ·) x

/-- Insert all of the ids `xs` into a list, each where it belongs. -/
def insertIds (l xs : List AccountId) : List AccountId := xs.foldl insertId l

/-- Add an account to the second level of each listed friend. -/
def addSecondLevel (x : AccountId) (friends : List AccountId) : DbM Unit :=
  friends.forM fun f => do
    modifyProfile f fun p => .ok { p with secondLevel := insertId p.secondLevel x }
    recalculateScore f

/-- Make `other` a friend, with its friends on the second level. -/
def befriend (id other : AccountId) : DbM Unit := do
  let o ← accountIndex.get other
  modifyProfile id fun p => .ok { p with
    waiting := p.waiting.erase other
    friends := insertId p.friends other
    secondLevel := (insertIds p.secondLevel o.friends).erase id }
  recalculateScore id

/-- Make `other` a friend back; the waiting list of this side is left as it is. -/
def befriendBack (id other : AccountId) : DbM Unit := do
  let o ← accountIndex.get other
  modifyProfile id fun p => .ok { p with
    friends := insertId p.friends other
    secondLevel := (insertIds p.secondLevel o.friends).erase id }
  recalculateScore id

instance (x : AccountId) (l : List AccountId) : Writes (addSecondLevel x l) [] :=
  ⟨by unfold addSecondLevel; infer_instance⟩
instance (a b : AccountId) : Writes (befriend a b) [] := ⟨by unfold befriend; infer_instance⟩
instance (a b : AccountId) : Writes (befriendBack a b) [] :=
  ⟨by unfold befriendBack; infer_instance⟩

/-- `friendship_evaluator`: ask for a friendship, or answer a request that is waiting. -/
def friendshipEvaluator (who whom : String) : DbM Unit := do
  let a1 ← getAccount who
  let a2 ← getAccount whom
  if a2.id ∈ a1.val.friends ∨ a1.id ∈ a2.val.waiting then pure ()
  else if a2.id ∈ a1.val.waiting then do
    addSecondLevel a1.id a2.val.friends
    addSecondLevel a2.id a1.val.friends
    befriend a1.id a2.id
    befriendBack a2.id a1.id
  else modifyProfile a2.id fun p => .ok { p with waiting := insertId p.waiting a1.id }

/-- Rebuild the second level of an account from its friends' friends. -/
def rebuildSecondLevel (id : AccountId) : DbM Unit := do
  let acct ← accountIndex.get id
  let second ← acct.friends.foldlM (fun (l : List AccountId) f => do
    let friend ← accountIndex.get f
    return insertIds l friend.friends) []
  modifyProfile id fun p => .ok { p with secondLevel := second.erase id }

/-- Rebuild the second level of each friend of an account. -/
def rebuildFriends (id : AccountId) : DbM Unit := do
  let acct ← accountIndex.get id
  acct.friends.forM fun f => do
    rebuildSecondLevel f
    recalculateScore f

instance (id : AccountId) : Writes (rebuildSecondLevel id) [] :=
  ⟨by unfold rebuildSecondLevel; infer_instance⟩
instance (id : AccountId) : Writes (rebuildFriends id) [] :=
  ⟨by unfold rebuildFriends; infer_instance⟩

/-- `unfriend_evaluator`: withdraw or refuse a request, or end a friendship. -/
def unfriendEvaluator (who whom : String) : DbM Unit := do
  let a1 ← getAccount who
  let a2 ← getAccount whom
  if a1.id ∈ a2.val.waiting then
    modifyProfile a2.id fun p => .ok { p with waiting := p.waiting.erase a1.id }
  else if a2.id ∈ a1.val.waiting then
    modifyProfile a1.id fun p => .ok { p with waiting := p.waiting.erase a2.id }
  else whenM (a1.id ∈ a2.val.friends) do
    modifyProfile a2.id fun p => .ok { p with friends := p.friends.erase a1.id, secondLevel := [] }
    modifyProfile a1.id fun p => .ok { p with friends := p.friends.erase a2.id, secondLevel := [] }
    rebuildSecondLevel a1.id
    rebuildSecondLevel a2.id
    recalculateScore a1.id
    recalculateScore a2.id
    rebuildFriends a1.id
    rebuildFriends a2.id

instance (a b : String) : Writes (friendshipEvaluator a b) [] :=
  ⟨by unfold friendshipEvaluator; infer_instance⟩
instance (a b : String) : Writes (unfriendEvaluator a b) [] :=
  ⟨by unfold unfriendEvaluator; infer_instance⟩

/-! ## Contents -/

/-- `account_auths[ voter ] = percentage` for each vote; the percentage is cut to 16
bits. -/
def managementAuths (votes : List ManagementVote) : FlatMap String UInt16 :=
  votes.foldl (fun (m : FlatMap String UInt16) v => m.set v.voter v.percentage.toUInt16) .empty

/-- The object that a `content_operation` creates, with the defaults for what is not given. -/
def ContentOperation.toObject (o : ContentOperation) (now : TimePointSec) : ContentObject where
  uploader := o.uploader
  url := o.url
  albumMeta := o.albumMeta
  trackMeta := o.trackMeta
  compMeta := o.compMeta
  trackTitle := o.trackMeta.trackTitle
  distributionsMaster := o.distributions
  manageMaster := {
    accountAuths := managementAuths o.management
    weightThreshold := o.managementThreshold }
  manageComp :=
    if o.compMeta.thirdPartyPublishers then {
      accountAuths := managementAuths (o.managementComp.getD [])
      weightThreshold := o.managementThresholdComp.getD 0 }
    else {}
  distributionsComp :=
    if o.compMeta.thirdPartyPublishers then o.distributionsComp.getD [] else []
  publishersShare := if o.compMeta.thirdPartyPublishers then o.publishersShare else 0
  playingReward := o.playingReward
  created := now
  lastUpdate := now

/-- `content_evaluator`: a new content, whose address nobody has used. -/
def contentEvaluator (o : ContentOperation) : DbM Unit := do
  let known ← contentIndex.any (·.url = o.url)
  require (!known) "Content with given url already exists"
  let uploader ← getAccount o.uploader
  require (!(uploader.val.ownerChallenged || uploader.val.activeChallenged))
    "!(auth.owner_challenged || auth.active_challenged )"
  requireAccounts (o.distributions.map Distribution.payee)
  requireAccounts ((o.distributionsComp.getD []).map Distribution.payee)
  requireAccounts (o.management.map ManagementVote.voter)
  whenM o.compMeta.thirdPartyPublishers do
    require (o.managementComp.isSome && o.managementThresholdComp.isSome)
      "o.management_comp && o.management_threshold_comp"
    requireAccounts ((o.managementComp.getD []).map ManagementVote.voter)
  let now ← headBlockTime
  let _ ← contentIndex.create (o.toObject now)

instance (o : ContentOperation) : Writes (contentEvaluator o) [.funds, .splits, .pools, .catalogue] :=
  ⟨by unfold contentEvaluator; infer_instance⟩

theorem runs_contentEvaluator {o : ContentOperation} {s s' : Database}
    (h : Runs (contentEvaluator o) s () s') :
    s.contents.any (·.url = o.url) = false ∧
      s' = { s with contents := s.contents.create (o.toObject s.dgpo.time) } := by
  simp only [contentEvaluator, runs_bind_any, runs_bind_require, runs_bind_getAccount] at h
  obtain ⟨hnew, -, -, -, h⟩ := h
  replace h := runs_bind_requireAccounts (runs_bind_requireAccounts (runs_bind_requireAccounts h))
  rw [runs_bind] at h
  obtain ⟨_, t, hw, h⟩ := h
  have ht : t = s := by
    rcases runs_whenM.mp hw with ⟨-, hw⟩ | ⟨-, rfl⟩
    · rw [runs_bind_require] at hw
      exact runs_requireAccounts hw.2
    · rfl
  subst ht
  simp only [runs_bind_headBlockTime, runs_bind_create, runs_pure] at h
  exact ⟨by simpa [contentIndex] using hnew, h.2.2⟩

/-- The authority a non-empty list of new votes replaces an old one by. -/
def ContentUpdateOperation.management (o : ContentUpdateOperation) (old : Authority) : Authority :=
  if o.newManagement.isEmpty then old
  else { old with accountAuths := managementAuths o.newManagement, weightThreshold := o.newThreshold }

/-- The distributions a non-empty list replaces the old ones by. -/
def ContentUpdateOperation.distributions (o : ContentUpdateOperation) (old : List Distribution) :
    List Distribution :=
  if o.newDistributions.isEmpty then old else o.newDistributions

/-- The side a `content_update_operation` writes: the evaluator only asks whether it
is the master side. -/
def ContentUpdateOperation.editedSide (o : ContentUpdateOperation) : Side :=
  if o.side = SIDE_MASTER then .master else .comp

/-- The content after an update of the master side: its metadata, payees and managers, as far as
they are given. -/
def ContentUpdateOperation.editMaster (o : ContentUpdateOperation) (c : ContentObject) :
    ContentObject :=
  { c with
    albumMeta := o.albumMeta.getD c.albumMeta
    trackMeta := o.trackMeta.getD c.trackMeta
    trackTitle := o.trackMeta.elim c.trackTitle ContentMetadataTrackMaster.trackTitle
    compMeta := if c.compMeta.thirdPartyPublishers then c.compMeta else o.compMeta.getD c.compMeta
    distributionsMaster := o.distributions c.distributionsMaster
    manageMaster := o.management c.manageMaster }

/-- The content after an update of the publishing side: its metadata, payees and managers, as far as
they are given. -/
def ContentUpdateOperation.editComp (o : ContentUpdateOperation) (c : ContentObject) : ContentObject :=
  { c with
    compMeta := o.compMeta.getD c.compMeta
    distributionsComp := o.distributions c.distributionsComp
    manageComp := o.management c.manageComp }

/-- What every update ends with. The third-party flag "cannot be changed. EVER." -/
def ContentUpdateOperation.finish (o : ContentUpdateOperation) (now : TimePointSec)
    (thirdParty : Bool) (c : ContentObject) : ContentObject :=
  { c with
    compMeta := { c.compMeta with thirdPartyPublishers := thirdParty }
    playingReward := if 0 < o.newPlayingReward then o.newPlayingReward else c.playingReward
    publishersShare := if 0 < o.newPublishersShare then o.newPublishersShare else c.publishersShare
    lastUpdate := now }

/-- The content after a `content_update_operation`, whichever side it is made for. -/
def ContentUpdateOperation.edit (o : ContentUpdateOperation) (now : TimePointSec)
    (c : ContentObject) : ContentObject :=
  o.finish now c.compMeta.thirdPartyPublishers
    (if o.side = SIDE_MASTER then o.editMaster c else o.editComp c)

/-- `content_update_evaluator`: a content that is not disabled is edited, and when its payees
change, what that side has accumulated is paid out. -/
def contentUpdateEvaluator (o : ContentUpdateOperation) : DbM Unit := do
  let content ← getContent o.url
  require (!content.val.disabled) "!content.disabled"
  require (content.val.compMeta.thirdPartyPublishers || o.side = SIDE_MASTER)
    "Cannot edit composition side data when only one side has been defined"
  requireAccounts (o.newDistributions.map Distribution.payee)
  requireAccounts (o.newManagement.map ManagementVote.voter)
  let now ← headBlockTime
  contentIndex.modify content.id fun c => .ok (o.edit now c)
  whenM (!o.newDistributions.isEmpty && 0 < content.val.accumulated o.editedSide) do
    payToContentSide o.editedSide content.id 0

instance (o : ContentUpdateOperation) :
    Writes (contentUpdateEvaluator o) [.funds, .stakes, .splits, .pools, .catalogue, .voting, .laps] :=
  ⟨by unfold contentUpdateEvaluator; infer_instance⟩

/-- The state in which the content has been edited and nothing paid yet. -/
def ContentUpdateOperation.editedState (o : ContentUpdateOperation) (e : Entry ContentObject)
    (s : Database) : Database :=
  { s with contents := s.contents.update e.id fun _ => o.edit s.dgpo.time e.val }

/-- An update edits the content; if its side got new payees, what it had accumulated is
paid to them. -/
theorem runs_contentUpdateEvaluator {o : ContentUpdateOperation} {s s' : Database}
    (h : Runs (contentUpdateEvaluator o) s () s') :
    ∃ e : Entry ContentObject, s.contents.findBy? (·.url = o.url) = some (e.id, e.val) ∧
      (e.val.compMeta.thirdPartyPublishers = true ∨ o.side = SIDE_MASTER) ∧
      (s' = o.editedState e s ∨
        o.newDistributions ≠ [] ∧ 0 < e.val.accumulated o.editedSide ∧
          Runs (payToContentSide o.editedSide e.id 0) (o.editedState e s) () s') := by
  simp only [contentUpdateEvaluator, runs_bind_getContent, runs_bind_require] at h
  obtain ⟨e, he, -, hside, h⟩ := h
  replace h := runs_bind_requireAccounts (runs_bind_requireAccounts h)
  rw [runs_bind_headBlockTime, runs_bind_modify] at h
  obtain ⟨x, y, hx, hy, h⟩ := h
  have hx : s.contents.find? e.id = some x := hx
  rw [(ObjectIndex.find?_of_findBy? he).1] at hx
  obtain rfl := Option.some.inj hx
  obtain rfl := Except.ok.inj hy
  refine ⟨e, he, by simpa using hside, ?_⟩
  rcases runs_whenM.mp h with ⟨hc, hr⟩ | ⟨-, hs⟩
  · refine Or.inr ⟨?_, ?_, hr⟩ <;> simp_all
  · exact Or.inl hs

/-- `content_disable_evaluator`: a content is disabled, once and for all. -/
def contentDisableEvaluator (url : String) : DbM Unit := do
  let content ← getContent url
  require (!content.val.disabled) "!content.disabled"
  modifyContentInfo content.id fun c => { c with disabled := true }

/-- `content_approve_evaluator`: an account approves a content, as long as it is not disabled. -/
def contentApproveEvaluator (approver url : String) : DbM Unit := do
  let content ← getContent url
  require (!content.val.disabled) "!content.disabled"
  let acct ← getAccount approver
  let _ ← contentApproveIndex.create { content := url, approver := acct.id }

instance (u : String) : Writes (contentDisableEvaluator u) [.catalogue] :=
  ⟨by unfold contentDisableEvaluator; infer_instance⟩
instance (a u : String) : Writes (contentApproveEvaluator a u) [] :=
  ⟨by unfold contentApproveEvaluator; infer_instance⟩

/-- `vote_evaluator`: an account votes for a content, changes its vote, or takes it back. -/
def voteEvaluator (voter url : String) (weight : Int16) : DbM Unit := do
  let acct ← getAccount voter
  require (!(acct.val.ownerChallenged || acct.val.activeChallenged))
    "!(voter.owner_challenged || voter.active_challenged )"
  let now ← headBlockTime
  require (3 ≤ secondsBetween now acct.val.lastVoteTime) "elapsed_seconds >= BTCM_MIN_VOTE_INTERVAL_SEC"
  modifyProfile acct.id fun p => .ok { p with lastVoteTime := now }
  whenM (0 < url.utf8ByteSize) do
    let content ← getContent url
    require (!content.val.disabled) "!content.disabled"
    require (¬ 0 < weight ∨ content.val.allowVotes) "content.allow_votes"
    let vote ← contentVoteIndex.findBy? fun v => v.content = content.id ∧ v.voter = acct.id
    vote.elim
      (do
        require (weight ≠ 0) "Weight cannot be 0"
        let _ ← contentVoteIndex.create
          { voter := acct.id, content := content.id, weight, lastUpdate := now })
      fun v => do
        require (v.val.numChanges < 5) "Cannot change vote again"
        require (v.val.weight ≠ weight) "Changing your vote requires actually changing you vote."
        contentVoteIndex.modify v.id fun v =>
          .ok { v with weight, lastUpdate := now, numChanges := v.numChanges + 1 }

instance (v u : String) (w : Int16) : Writes (voteEvaluator v u w) [] :=
  ⟨by unfold voteEvaluator; infer_instance⟩

/-! ## Genesis balances -/

/-- The key opens the balance under one of the address formats. -/
def ownsBalance [Externals] (key : PublicKey) (owner : Address) : Bool :=
  decide (Externals.addressOf key = owner) ||
    decide (Externals.ptsAddress key false 56 = owner) ||
    decide (Externals.ptsAddress key true 56 = owner) ||
    decide (Externals.ptsAddress key false 0 = owner) ||
    decide (Externals.ptsAddress key true 0 = owner)

/-- `balance_claim_evaluator`. The claimed amount may be negative: neither this nor
the stateless check forbids it. -/
def balanceClaimEvaluator [Externals] (depositToAccount : String) (balanceToClaim : Nat)
    (balanceOwnerKey : PublicKey) (totalClaimed : Asset) : DbM Unit := do
  let balance ← balanceIndex.get balanceToClaim
  let gettie ← getAccount depositToAccount
  require (ownsBalance balanceOwnerKey balance.owner)
    "Balance owner key was specified as '${op}' but balance's actual owner is '${bal}'"
  requireE (totalClaimed.le (btcm balance.balance)) "op.total_claimed <= balance.balance"
  let less ← ofExcept (totalClaimed.lt (btcm balance.balance))
  let now ← headBlockTime
  if less then
    balanceIndex.modify balanceToClaim fun b => do
      let rest ← safeSub b.balance totalClaimed.amount
      return { b with balance := rest, lastClaimDate := now }
  else balanceIndex.remove balanceToClaim
  adjustBalance gettie.id totalClaimed

instance [Externals] (d : String) (i : Nat) (k : PublicKey) (a : Asset) :
    Writes (balanceClaimEvaluator d i k a) [.funds] :=
  ⟨by unfold balanceClaimEvaluator; infer_instance⟩

/-- What is claimed leaves the balance object and goes to the account. -/
theorem runs_balanceClaimEvaluator [Externals] {depositToAccount : String} {balanceToClaim : Nat}
    {key : PublicKey} {claimed : Asset} {s s' : Database}
    (h : Runs (balanceClaimEvaluator depositToAccount balanceToClaim key claimed) s () s') :
    ∃ (b : BalanceObject) (gettie : Entry AccountObject) (t : Database),
      s.balances.find? balanceToClaim = some b ∧
      s.accountNamed depositToAccount = some (gettie.id, gettie.val) ∧
      claimed.assetId = BTCM_SYMBOL ∧
      ((∃ rest : ShareType, rest.toInt = b.balance.toInt - claimed.amount.toInt ∧
          t = { s with balances := s.balances.update balanceToClaim fun _ =>
            { b with balance := rest, lastClaimDate := s.dgpo.time } }) ∨
        claimed.amount = b.balance ∧ t = { s with balances := s.balances.remove balanceToClaim }) ∧
      Runs (adjustBalance gettie.id claimed) t () s' := by
  simp only [balanceClaimEvaluator, runs_bind_get, runs_bind_getAccount, runs_bind_require,
    runs_bind_requireE, runs_bind_ofExcept, runs_bind_headBlockTime, Asset.lt_ok] at h
  obtain ⟨b, hb, gettie, hgettie, -, hle, less, ⟨hid, hless⟩, h⟩ := h
  rw [runs_ite] at h
  rcases h with ⟨-, h⟩ | ⟨hnot, h⟩
  · rw [runs_bind_modify] at h
    obtain ⟨b', c, hb', hc, h⟩ := h
    obtain rfl := Option.some.inj (hb.symm.trans hb')
    simp only [except_bind_ok, except_pure_ok, safeSub_ok] at hc
    obtain ⟨rest, hrest, rfl⟩ := hc
    exact ⟨b, gettie, _, hb, hgettie, hid, Or.inl ⟨rest, hrest, rfl⟩, h⟩
  · rw [runs_bind_remove] at h
    refine ⟨b, gettie, _, hb, hgettie, hid, Or.inr ⟨?_, rfl⟩, h⟩
    -- not less, but less or equal
    rw [Asset.le] at hle
    split at hle
    case isTrue heq => rw [heq]; rfl
    case isFalse =>
      obtain ⟨-, hlt⟩ := Asset.lt_ok.mp hle
      exact absurd (hless.trans hlt.symm) hnot

end BtcmChain
