import BtcmChain.Chain.Views
import Mathlib.Data.List.Sort

set_option autoImplicit false
set_option synthInstance.maxSize 10000000
set_option synthInstance.maxHeartbeats 200000

/-!
# Votes and scores

What a change of vesting shares drags along: the proxied vote weights up the chain
of proxies, the votes of witnesses and platforms the account stands behind, and the
social scores of the account and its friends. None of it is money, stake or
statistics: what shows of it shows in the votes.

The functions are those of `database` that evaluators and the block share: `adjust_witness_vote`,
`adjust_streaming_platform_vote` and what walks up the chain of proxies, four steps at most, to the
votes cast at its end (`adjustProxiedWitnessVotes`). Scores are built on the integer square root of
the vesting shares, which is kept bit by bit (`isqrt`). `Sound.Tally` follows what the walks add up
to, and `Sound.IntegerRoot` when the root is right.
-/

namespace BtcmChain

/-- `head_block_time`: the time of the head block, which is the time for everything the chain does.
-/
def headBlockTime : DbM TimePointSec := reads fun s => s.dgpo.time

/-- `get_account`: the account of this name, which has to be there. -/
def getAccount (name : String) : DbM (Entry AccountObject) :=
  accountIndex.getBy (·.name = name)
    "Unable to find account '${acct}'. Did you forget to add a record for it?"

/-- `get_witness`: the witness that this account is, which has to be one. -/
def getWitness (name : String) : DbM (Entry WitnessObject) :=
  witnessIndex.getBy (·.owner = name)
    "Unable to find witness account '${wit}'. Did you forget to add a record for it?"

/-- `find_streaming_platform`: the platform of this owner, if there is one. -/
def findStreamingPlatform (name : String) : DbM (Option (Entry StreamingPlatformObject)) :=
  streamingPlatformIndex.findBy? (·.owner = name)

/-- `get_streaming_platform`: the platform of this owner, which has to be there. -/
def getStreamingPlatform (name : String) : DbM (Entry StreamingPlatformObject) :=
  streamingPlatformIndex.getBy (·.owner = name)
    "Unable to find streaming_platform account '${wit}'. Did you forget to add a record for it?"

/-- `get_content`: the content of this address, which has to be there. -/
def getContent (url : String) : DbM (Entry ContentObject) :=
  contentIndex.getBy (·.url = url) "itr != by_url_idx.end()"

instance : Writes headBlockTime [] := ⟨within_reads _⟩
instance (name : String) : Writes (getAccount name) [] := ⟨by unfold getAccount; infer_instance⟩
instance (name : String) : Writes (getWitness name) [] := ⟨by unfold getWitness; infer_instance⟩
instance (name : String) : Writes (findStreamingPlatform name) [] :=
  ⟨by unfold findStreamingPlatform; infer_instance⟩
instance (name : String) : Writes (getStreamingPlatform name) [] :=
  ⟨by unfold getStreamingPlatform; infer_instance⟩
instance (url : String) : Writes (getContent url) [] := ⟨by unfold getContent; infer_instance⟩

section Leading

variable {β : Type} {s s' : Database} {b : β} {name : String}

@[simp] theorem runs_bind_headBlockTime {f : TimePointSec → DbM β} :
    Runs (headBlockTime >>= f) s b s' ↔ Runs (f s.dgpo.time) s b s' := runs_bind_reads

/-- The account of that name, as the evaluators fetch it. -/
def Database.accountNamed (s : Database) (name : String) : Option (Nat × AccountObject) :=
  s.accounts.findBy? (·.name = name)

/-- The platform of that owner in a state, with its number, as the programs look it up. -/
def Database.platformOf (s : Database) (name : String) : Option (Nat × StreamingPlatformObject) :=
  s.platforms.findBy? (·.owner = name)

@[simp] theorem runs_bind_getAccount {f : Entry AccountObject → DbM β} :
    Runs (getAccount name >>= f) s b s' ↔
      ∃ e, s.accountNamed name = some (e.id, e.val) ∧ Runs (f e) s b s' := runs_bind_getBy

@[simp] theorem runs_bind_findStreamingPlatform {f : Option (Entry StreamingPlatformObject) → DbM β} :
    Runs (findStreamingPlatform name >>= f) s b s' ↔
      Runs (f ((s.platformOf name).map fun e => ⟨e.1, e.2⟩)) s b s' := runs_bind_reads

@[simp] theorem runs_bind_getStreamingPlatform {f : Entry StreamingPlatformObject → DbM β} :
    Runs (getStreamingPlatform name >>= f) s b s' ↔
      ∃ e, s.platformOf name = some (e.id, e.val) ∧ Runs (f e) s b s' := runs_bind_getBy

@[simp] theorem runs_bind_getContent {url : String} {f : Entry ContentObject → DbM β} :
    Runs (getContent url >>= f) s b s' ↔
      ∃ e, s.contents.findBy? (·.url = url) = some (e.id, e.val) ∧ Runs (f e) s b s' :=
  runs_bind_getBy

end Leading

/-- The entries of a table that satisfy `p`, ordered by a key, as a range of a
secondary index. -/
def Table.rangeBy {α : Type} (t : Table α) (p : α → Bool) (key : α → Nat) : DbM (List (Entry α)) :=
  reads fun s =>
    (((t.read s).entries.filter fun e => p e.2).insertionSort fun a b => key a.2 ≤ key b.2).map
      fun e => ⟨e.1, e.2⟩

instance {α : Type} (t : Table α) (p : α → Bool) (key : α → Nat) : Writes (t.rangeBy p key) [] :=
  ⟨within_reads _⟩

/-! ## Witness and platform votes -/

/-- `adjust_witness_vote`: the witness has more or less votes, and its place in the schedule moves.
All of the virtual schedule is 128-bit arithmetic. -/
def adjustWitnessVote (witness : Nat) (delta : ShareType) : DbM Unit := do
  let now ← reads fun s => s.witnessSchedule.currentVirtualTime
  let total ← reads fun s => s.dgpo.totalVestingShares
  witnessIndex.modify witness fun w => do
    let position := w.virtualPosition + UInt128.ofShare w.votes * (now - w.virtualLastUpdate)
    let votes ← safeAdd w.votes delta
    fcAssert (votes ≤ total) ""
    let lap ← UInt128.div (BitVec.allOnes 128 - position) (UInt128.ofShare (votes + 1))
    let scheduled := now + lap
    return { w with
      virtualPosition := position
      virtualLastUpdate := now
      votes := votes
      virtualScheduledTime := if scheduled < now then BitVec.allOnes 128 else scheduled }

/-- `adjust_witness_votes`: every witness that the account votes for has so many votes more. -/
def adjustWitnessVotes (a : AccountId) (delta : ShareType) : DbM Unit := do
  let votes ← witnessVoteIndex.rangeBy (·.account = a) (·.witness)
  votes.forM fun v => adjustWitnessVote v.val.witness delta

/-- `adjust_streaming_platform_vote`: the platform has so many votes more, and not more than there
are shares. -/
def adjustStreamingPlatformVote (sp : StreamingPlatformId) (delta : ShareType) : DbM Unit := do
  let total ← reads fun s => s.dgpo.totalVestingShares
  modifyPlatformInfo sp fun p => do
    let votes ← safeAdd p.votes delta
    fcAssert (votes ≤ total) ""
    return { p with votes }

/-- `adjust_streaming_platform_votes`: every platform that the account votes for has so many votes
more. -/
def adjustStreamingPlatformVotes (a : AccountId) (delta : ShareType) : DbM Unit := do
  let votes ← streamingPlatformVoteIndex.rangeBy (·.account = a) (·.streamingPlatform)
  votes.forM fun v => adjustStreamingPlatformVote v.val.streamingPlatform delta

instance (w : Nat) (d : ShareType) : Writes (adjustWitnessVote w d) [.voting, .laps] :=
  ⟨⟨fun hi _ _ _ hr => by
    simp only [adjustWitnessVote, runs_bind_reads] at hr
    refine (within_modifyWitness _ _ (fun _ w w' hw => ?_) (fun h => absurd (by simp) h)
      (fun _ w w' hw => ?_) fun h => absurd (by simp) h).same hi hr
    all_goals
      simp only [except_bind_ok, except_pure_ok] at hw
      obtain ⟨_, -, _, -, _, -, rfl⟩ := hw
    · exact ⟨rfl, rfl⟩
    · rfl⟩⟩
instance (a : AccountId) (d : ShareType) : Writes (adjustWitnessVotes a d) [.voting, .laps] :=
  ⟨by unfold adjustWitnessVotes; infer_instance⟩
instance (p : StreamingPlatformId) (d : ShareType) : Writes (adjustStreamingPlatformVote p d) [.voting] :=
  ⟨by unfold adjustStreamingPlatformVote; infer_instance⟩
instance (a : AccountId) (d : ShareType) : Writes (adjustStreamingPlatformVotes a d) [.voting] :=
  ⟨by unfold adjustStreamingPlatformVotes; infer_instance⟩

/-- The sum of some share amounts, checked at every addition. -/
def sumShares (xs : List ShareType) : Except Exn ShareType := xs.foldlM safeAdd 0

/-- `for i = n - 1 … 0 : votes[i + depth] += delta[i]`. -/
def addProxiedVotes (votes delta : List ShareType) (depth : Nat) : Except Exn (List ShareType) :=
  (List.range votes.length).mapM fun k =>
    if depth ≤ k then safeAdd (votes.getD k 0) (delta.getD (k - depth) 0) else .ok (votes.getD k 0)

/-- `adjust_proxied_witness_votes( account, delta[], depth )`: the weights move up
the chain of proxies, one slot per level, and land as votes at the first account
that votes itself. `remaining` is `BTCM_MAX_PROXY_RECURSION_DEPTH - depth`. -/
def adjustProxiedWitnessVotesAll (delta : List ShareType) : Nat → AccountId → DbM Unit
  | remaining, a => do
      let acct ← accountIndex.get a
      if acct.proxy ≠ "" then
        match remaining with
        | 0 => pure ()
        | n + 1 => do
            let proxy ← getAccount acct.proxy
            modifyProfile proxy.id fun p => do
              let votes ← addProxiedVotes p.proxiedVsfVotes delta (3 - n)
              return { p with proxiedVsfVotes := votes }
            adjustProxiedWitnessVotesAll delta n proxy.id
      else do
        let total ← ofExcept (sumShares (delta.take (remaining + 1)).reverse)
        adjustWitnessVotes a total
        adjustStreamingPlatformVotes a total

/-- `adjust_proxied_witness_votes( account, delta, depth )`, up the chain of proxies as far as the
depth allows. -/
def adjustProxiedWitnessVotesFrom (delta : ShareType) : Nat → AccountId → DbM Unit
  | remaining, a => do
      let acct ← accountIndex.get a
      if acct.proxy ≠ "" then
        match remaining with
        | 0 => pure ()
        | n + 1 => do
            let proxy ← getAccount acct.proxy
            modifyProfile proxy.id fun p => do
              let v ← safeAdd (p.proxiedVsfVotes.getD (3 - n) 0) delta
              return { p with proxiedVsfVotes := p.proxiedVsfVotes.set (3 - n) v }
            adjustProxiedWitnessVotesFrom delta n proxy.id
      else do
        adjustWitnessVotes a delta
        adjustStreamingPlatformVotes a delta

/-- `adjust_proxied_witness_votes( account, delta )`, starting at depth 0, at the account itself. -/
def adjustProxiedWitnessVotes (a : AccountId) (delta : ShareType) : DbM Unit :=
  adjustProxiedWitnessVotesFrom delta 4 a

instance (delta : List ShareType) (n : Nat) (a : AccountId) :
    Writes (adjustProxiedWitnessVotesAll delta n a) [.voting, .laps] := by
  induction n generalizing a with
  | zero => exact ⟨by unfold adjustProxiedWitnessVotesAll; infer_instance⟩
  | succ n ih => exact ⟨by unfold adjustProxiedWitnessVotesAll; infer_instance⟩

instance (delta : ShareType) (n : Nat) (a : AccountId) :
    Writes (adjustProxiedWitnessVotesFrom delta n a) [.voting, .laps] := by
  induction n generalizing a with
  | zero => exact ⟨by unfold adjustProxiedWitnessVotesFrom; infer_instance⟩
  | succ n ih => exact ⟨by unfold adjustProxiedWitnessVotesFrom; infer_instance⟩

instance (a : AccountId) (d : ShareType) : Writes (adjustProxiedWitnessVotes a d) [.voting, .laps] :=
  ⟨by unfold adjustProxiedWitnessVotes; infer_instance⟩

/-! ## Scores -/

/-- One round of `detail::isqrt`: two more bits of the radicand. -/
def isqrtStep (st : UInt64 × UInt64 × UInt32) : UInt64 × UInt64 × UInt32 :=
  let rem := (st.2.1 <<< 2) + (st.1 >>> 62)
  let root := st.2.2 <<< 1
  if root.toUInt64 < rem then (st.1 <<< 2, rem - (root + 1).toUInt64, root + 2)
  else (st.1 <<< 2, rem, root)

/-- `detail::isqrt`: the integer square root, bit pair by bit pair. -/
def isqrt (a : UInt64) : UInt32 := (Nat.iterate isqrtStep 32 (a, 0, 0)).2.2 >>> 1

/-- `get_scoring_vesting`: the vesting shares of an account, with the sign bit read as magnitude. -/
def AccountObject.scoringVesting (a : AccountObject) : UInt64 := a.vestingShares.toUInt64

/-- A percentage of a root, in the 32 bits the source computes it in. -/
def rootShare (v : UInt64) (percent : UInt32) : UInt64 := (isqrt v * percent / 100).toUInt64

/-- Add a signed change to a score, which is an unsigned number and wraps. -/
def addScore (id : AccountId) (delta : Int64) : DbM Unit :=
  modifyProfile id fun p => .ok { p with score := p.score + delta.toUInt64 }

/-- `recursive_recalculate_score`: a change of shares shows in the account's own score and in those
of its friends and their friends. -/
def recursiveRecalculateScore (a : AccountId) (delta : ShareType) : DbM Unit := do
  let acct ← accountIndex.get a
  let old ← ofExcept (safeSub acct.vestingShares delta)
  let scoreDelta : Int64 :=
    (isqrt acct.scoringVesting).toUInt64.toInt64 - (isqrt old.toUInt64).toUInt64.toInt64
  addScore a scoreDelta
  acct.friends.forM fun f => addScore f (scoreDelta * 50 / 100)
  acct.secondLevel.forM fun f => addScore f (scoreDelta * 10 / 100)

/-- `recalculate_score`: the score of an account, summed up anew from its own shares, its friends
and their friends. -/
def recalculateScore (a : AccountId) : DbM Unit := do
  let acct ← accountIndex.get a
  let first ← acct.friends.foldlM (fun (x : UInt64) f => do
    let o ← accountIndex.get f
    return x + rootShare o.scoringVesting 50) (isqrt acct.scoringVesting).toUInt64
  let second ← acct.secondLevel.foldlM (fun (x : UInt64) f => do
    let o ← accountIndex.get f
    return x + rootShare o.scoringVesting 10) first
  modifyProfile a fun p => .ok { p with score := second }

instance (a : AccountId) (d : Int64) : Writes (addScore a d) [] :=
  ⟨by unfold addScore; infer_instance⟩
instance (a : AccountId) (d : ShareType) : Writes (recursiveRecalculateScore a d) [] :=
  ⟨by unfold recursiveRecalculateScore; infer_instance⟩
instance (a : AccountId) : Writes (recalculateScore a) [] :=
  ⟨by unfold recalculateScore; infer_instance⟩

end BtcmChain
