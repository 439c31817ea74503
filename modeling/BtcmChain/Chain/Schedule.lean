import BtcmChain.Chain.Votes

set_option autoImplicit false
set_option synthInstance.maxSize 10000000
set_option synthInstance.maxHeartbeats 200000

/-!
# Slots, the witness schedule and the price feed

Who may produce the next block, which properties the witnesses agree on, and the
median of their price feeds. Nothing here moves money. Hardfork votes and versions are left out; the chain knows no hardfork.

A slot number that is counted from the start of the chain (`currentAslot`) says whose turn it is,
as a place in the shuffled schedule. The missed slots of a block are charged to their witnesses
before the block itself is noted (`updateGlobalDynamicData`). In the first blocks the last
irreversible block trails the head at a fixed distance; later it is the number that enough of the
scheduled witnesses have confirmed (`irreversibleNum`).
-/

namespace BtcmChain

/-! ## Slots -/

/-- `get_slot_time`, for a slot number above zero: when the slot begins, counted from the head
block. -/
def Database.slotTime (s : Database) (slot : UInt32) : TimePointSec :=
  if s.dgpo.headBlockNumber = 0 then s.dgpo.time + slot * 3
  else s.dgpo.time / 3 * 3 + slot * 3

/-- `get_slot_at_time`: the slot that a time falls into, or 0 before the next one. -/
def Database.slotAtTime (s : Database) (when_ : TimePointSec) : UInt32 :=
  if when_ < s.slotTime 1 then 0 else (when_ - s.slotTime 1) / 3 + 1

/-- `get_scheduled_witness`; an empty schedule is a division by zero in the source. -/
def getScheduledWitness (slot : UInt32) : DbM String := do
  let schedule ← reads fun s => s.witnessSchedule.currentShuffledWitnesses
  let aslot ← reads fun s => s.dgpo.currentAslot + slot.toUInt64
  (schedule[aslot.toNat % schedule.length]?).elim (throw .undefined) pure

instance (n : UInt32) : Writes (getScheduledWitness n) [] :=
  ⟨by unfold getScheduledWitness; infer_instance⟩

/-- One missed slot: a witness silent for a day loses its signing key. -/
def missSlot (producer : String) (slot : Nat) : DbM Unit := do
  let name ← getScheduledWitness (UInt32.ofNat slot)
  let witness ← getWitness name
  let head ← reads fun s => s.dgpo.headBlockNumber
  whenM (witness.val.owner ≠ producer) do
    witnessIndex.modify witness.id fun w => .ok { w with
      totalMissed := w.totalMissed + 1
      signingKey := if 28800 < head.toUInt64 - w.lastConfirmedBlockNum then 0 else w.signingKey }

instance (p : String) (n : Nat) : Writes (missSlot p n) [] :=
  ⟨by
    unfold missSlot
    have hkeeps := fun id (k : UInt32) => within_modifyWitness_quiet (D := []) id
      (fun w => .ok { w with
        totalMissed := w.totalMissed + 1
        signingKey := if 28800 < k.toUInt64 - w.lastConfirmedBlockNum then 0 else w.signingKey })
      fun w w' hw => by cases hw; exact ⟨⟨rfl, rfl⟩, rfl, rfl⟩
    infer_instance⟩

/-- `BTCM_MAX_UNDO_HISTORY`: more blocks than these cannot be undone. -/
def BTCM_MAX_UNDO_HISTORY : UInt32 := 10000

/-- `update_global_dynamic_data`: the missed slots are charged to their witnesses, then the head
block is noted. -/
def updateGlobalDynamicData (producer : String) (timestamp : TimePointSec) : DbM Unit := do
  let slot ← reads fun s => s.slotAtTime timestamp
  require (slot ≠ 0) "missed_blocks != 0"
  (List.range (slot.toNat - 1)).forM fun i => missSlot producer (i + 1)
  let head ← reads fun s => s.dgpo.headBlockNumber
  setClock (head + 1) timestamp
  modifyParams fun p => { p with currentAslot := p.currentAslot + slot.toUInt64 }
  let reversible ← reads fun s => s.dgpo.headBlockNumber - s.dgpo.lastIrreversibleBlockNum
  require (reversible < BTCM_MAX_UNDO_HISTORY)
    "Please add a checkpoint if you would like to continue applying blocks beyond this point."

instance (p : String) (t : TimePointSec) : Writes (updateGlobalDynamicData p t) [.clock, .slots] :=
  ⟨by unfold updateGlobalDynamicData; infer_instance⟩

/-- `update_signing_witness`: the producer's last slot and its last confirmed block are noted. -/
def updateSigningWitness (producer : String) (timestamp : TimePointSec) : DbM Unit := do
  let witness ← getWitness producer
  let aslot ← reads fun s => s.dgpo.currentAslot + (s.slotAtTime timestamp).toUInt64
  let head ← reads fun s => s.dgpo.headBlockNumber
  witnessIndex.modify witness.id fun w => .ok { w with
    lastAslot := aslot
    lastConfirmedBlockNum := head.toUInt64 }

instance (p : String) (t : TimePointSec) : Writes (updateSigningWitness p t) [.finality] :=
  ⟨by
    unfold updateSigningWitness
    have hkeeps := fun id (slot : UInt64) (head : UInt32) => within_modifyWitness (D := [.finality]) id
      (fun w => .ok { w with
        lastAslot := slot
        lastConfirmedBlockNum := head.toUInt64 })
      (fun _ w w' hw => by cases hw; exact ⟨rfl, rfl⟩) (fun _ w w' hw => by cases hw; rfl)
      (fun h => absurd (by simp) h) fun _ w w' hw => by cases hw; rfl
    infer_instance⟩

/-! ## Irreversible blocks -/

/-- `BTCM_START_MINER_VOTING_BLOCK`: from this block on, the votes for witnesses decide. -/
def BTCM_START_MINER_VOTING_BLOCK : UInt32 := 28800

/-- `BTCM_MAX_MINERS`: so many witnesses make a round. -/
def BTCM_MAX_MINERS : UInt32 := 21

/-- The last blocks the scheduled witnesses have signed, by seat. -/
def confirmedBlocks : DbM (List UInt64) := do
  let names ← reads fun s => s.witnessSchedule.currentShuffledWitnesses
  names.foldlM (fun (nums : List UInt64) name => do
    let w ← getWitness name
    return nums ++ [w.val.lastConfirmedBlockNum]) []

instance : Writes confirmedBlocks [] := ⟨by unfold confirmedBlocks; infer_instance⟩

/-- The number `nth_element` puts at the offset that leaves 51% behind it; an empty schedule
is an access out of range in the source. -/
def irreversibleNum (confirmed : List UInt64) : Option UInt64 :=
  (confirmed.insertionSort fun a b => a ≤ b)[4900 * confirmed.length / 10000]?

/-- `update_last_irreversible_block`: a block that enough of the scheduled witnesses have built on
cannot be undone. -/
def updateLastIrreversibleBlock : DbM Unit := do
  let head ← reads fun s => s.dgpo.headBlockNumber
  if head < BTCM_START_MINER_VOTING_BLOCK then
    whenM (BTCM_MAX_MINERS < head) do
      modifyParams fun p => { p with lastIrreversibleBlockNum := head - BTCM_MAX_MINERS }
  else do
    let confirmed ← confirmedBlocks
    let last ← reads fun s => s.dgpo.lastIrreversibleBlockNum
    (irreversibleNum confirmed).elim (throw .undefined) fun num =>
      whenM (last < num.toUInt32) do
        modifyParams fun p => { p with lastIrreversibleBlockNum := num.toUInt32 }

instance : Writes updateLastIrreversibleBlock [.finality] :=
  ⟨by unfold updateLastIrreversibleBlock; infer_instance⟩

/-! ## The schedule -/

/-- Witnesses by their votes, most of them first, then by name. -/
def Database.witnessesByVote (s : Database) : List (Nat × WitnessObject) :=
  s.witnesses.entries.insertionSort fun a b =>
    b.2.votes < a.2.votes ∨ (a.2.votes = b.2.votes ∧ a.2.owner ≤ b.2.owner)

/-- Witnesses by their virtual scheduled time, the next one first, then by number. -/
def Database.witnessesBySchedule (s : Database) : List (Nat × WitnessObject) :=
  s.witnesses.entries.insertionSort fun a b =>
    a.2.virtualScheduledTime.toNat ≤ b.2.virtualScheduledTime.toNat

/-- The witnesses the virtual schedule passes while it fills the free seats, and the
names of those who take one. -/
def runnersUp (voted : List Nat) : Nat → List (Nat × WitnessObject) →
    List (Nat × WitnessObject) × List String
  | _, [] => ([], [])
  | count, w :: ws =>
      if count < 21 then
        if w.2.signingKey ≠ 0 ∧ w.1 ∉ voted then
          let rest := runnersUp voted (count + 1) ws
          (w :: rest.1, w.2.owner :: rest.2)
        else
          let rest := runnersUp voted count ws
          (w :: rest.1, rest.2)
      else ([], [])

/-- The time a full lap takes a witness with so many votes. -/
def lapTime (votes : ShareType) : Except Exn UInt128 :=
  UInt128.div (BitVec.allOnes 128) (UInt128.ofShare (votes + 1))

/-- Send the passed witnesses on their next lap; the result is whether the virtual
time overflowed. -/
def advanceWitnesses (time : UInt128) : List (Nat × WitnessObject) → DbM Bool
  | [] => pure false
  | w :: ws => do
      let lap ← ofExcept (lapTime w.2.votes)
      if time + lap < time then pure true
      else do
        witnessIndex.modify w.1 fun w => .ok { w with
          virtualPosition := 0
          virtualLastUpdate := time
          virtualScheduledTime := time + lap }
        advanceWitnesses time ws

/-- `reset_virtual_schedule_time`: the virtual time starts anew, and every witness is scheduled from
there. -/
def resetVirtualScheduleTime : DbM Unit := do
  modifySchedule fun s => { s with currentVirtualTime := 0 }
  let all ← reads fun s => s.witnesses.entries
  all.forM fun w => witnessIndex.modify w.1 fun w => do
    let lap ← lapTime w.votes
    return { w with virtualPosition := 0, virtualLastUpdate := 0, virtualScheduledTime := lap }

/-- The partner a seat is swapped with, from the xorshift generator of the source. -/
def shufflePartner (now : TimePointSec) (i size : Nat) : Nat :=
  let k := (now.toUInt64 <<< 32) + UInt64.ofNat i * 2685821657736338717
  let k := k ^^^ (k >>> 12)
  let k := k ^^^ (k <<< 25)
  let k := k ^^^ (k >>> 27)
  let k := k * 2685821657736338717
  i + k.toNat % (size - i)

/-- Exchange two seats of the list of witnesses. -/
def swapSeats (l : List String) (i j : Nat) : List String :=
  (l.set i (l.getD j "")).set j (l.getD i "")

/-- The seats in the order of the coming round, shuffled by the time of the block. -/
def shuffleWitnesses (now : TimePointSec) (l : List String) : List String :=
  (List.range l.length).foldl (fun l i => swapSeats l i (shufflePartner now i l.length)) l

/-- The median of the witnesses' properties by one of their keys. -/
def medianBy {α : Type} [LE α] [DecidableRel (fun (a b : α) => a ≤ b)] (key : ChainProperties → α)
    (active : List WitnessObject) : Option ChainProperties :=
  ((active.map WitnessObject.props).insertionSort fun a b => key a ≤ key b)[active.length / 2]?

/-- `update_median_witness_props`: each property becomes the median of what the scheduled witnesses
propose. -/
def updateMedianWitnessProps : DbM Unit := do
  let names ← reads fun s => s.witnessSchedule.currentShuffledWitnesses
  let active ← names.foldlM (fun (acc : List WitnessObject) name => do
    let w ← getWitness name
    return acc ++ [w.val]) []
  (medianBy (·.accountCreationFee.amount) active).elim (throw .undefined) fun p =>
    modifySchedule fun s =>
      { s with medianProps := { s.medianProps with accountCreationFee := p.accountCreationFee } }
  (medianBy (·.streamingPlatformUpdateFee.amount) active).elim (throw .undefined) fun p =>
    modifySchedule fun s => { s with medianProps :=
      { s.medianProps with streamingPlatformUpdateFee := p.streamingPlatformUpdateFee } }
  (medianBy (·.maximumBlockSize) active).elim (throw .undefined) fun p =>
    modifyParams fun d => { d with maximumBlockSize := p.maximumBlockSize }
  (medianBy (·.mbdInterestRate) active).elim (throw .undefined) fun p =>
    modifyParams fun d => { d with mbdInterestRate := p.mbdInterestRate }

instance (t : UInt128) (l : List (Nat × WitnessObject)) : Writes (advanceWitnesses t l) [.laps] := by
  have hkeeps := fun id (lap : UInt128) => within_modifyWitness (D := [.laps]) id
    (fun w => .ok { w with
      virtualPosition := 0
      virtualLastUpdate := t
      virtualScheduledTime := t + lap })
    (fun _ w w' hw => by cases hw; exact ⟨rfl, rfl⟩) (fun _ w w' hw => by cases hw; rfl)
    (fun _ w w' hw => by cases hw; rfl) fun h => absurd (by simp) h
  induction l with
  | nil => exact ⟨by unfold advanceWitnesses; infer_instance⟩
  | cons w ws ih => exact ⟨by unfold advanceWitnesses; infer_instance⟩

instance : Writes resetVirtualScheduleTime [.laps] :=
  ⟨by
    unfold resetVirtualScheduleTime
    have hsched := within_modifySchedule (D := [.laps])
      (fun s => { s with currentVirtualTime := 0 }) (fun _ _ => rfl) fun h => absurd (by simp) h
    have hsame : ∀ w w' : WitnessObject, (do
        let lap ← lapTime w.votes
        return { w with virtualPosition := 0, virtualLastUpdate := 0, virtualScheduledTime := lap }) =
          Except.ok w' → w'.owner = w.owner ∧ w'.mbdExchangeRate = w.mbdExchangeRate ∧
            w'.votes = w.votes ∧ w'.lastConfirmedBlockNum = w.lastConfirmedBlockNum :=
      fun w w' hw => by
        simp only [except_bind_ok, except_pure_ok] at hw
        obtain ⟨_, -, rfl⟩ := hw
        exact ⟨rfl, rfl, rfl, rfl⟩
    have hkeeps := fun id => within_modifyWitness (D := [.laps]) id
      (fun w => do
        let lap ← lapTime w.votes
        return { w with virtualPosition := 0, virtualLastUpdate := 0, virtualScheduledTime := lap })
      (fun _ w w' hw => ⟨(hsame w w' hw).1, (hsame w w' hw).2.1⟩)
      (fun _ w w' hw => (hsame w w' hw).2.2.1) (fun _ w w' hw => (hsame w w' hw).2.2.2)
      fun h => absurd (by simp) h
    infer_instance⟩

instance : Writes updateMedianWitnessProps [] :=
  ⟨by
    unfold updateMedianWitnessProps
    have hfee := fun p : ChainProperties => within_modifySchedule (D := [])
      (fun s =>
        { s with medianProps := { s.medianProps with accountCreationFee := p.accountCreationFee } })
      (fun _ _ => rfl) fun _ _ => rfl
    have hplatform := fun p : ChainProperties => within_modifySchedule (D := [])
      (fun s => { s with medianProps :=
        { s.medianProps with streamingPlatformUpdateFee := p.streamingPlatformUpdateFee } })
      (fun _ _ => rfl) fun _ _ => rfl
    infer_instance⟩

/-- `update_witness_schedule4`: the seats go to the witnesses with most votes and to the next ones
in virtual time. -/
def updateWitnessSchedule4 : DbM Unit := do
  let voted ← reads fun s => (s.witnessesByVote.filter fun w => w.2.signingKey ≠ 0).take 20
  let runners ← reads fun s =>
    runnersUp (voted.map Prod.fst) voted.length s.witnessesBySchedule
  let current ← reads fun s => s.witnessSchedule.currentVirtualTime
  let reached := runners.1.getLast?.elim current fun w => w.2.virtualScheduledTime
  let overflowed ← advanceWitnesses reached runners.1
  whenM overflowed resetVirtualScheduleTime
  let active := voted.map (fun w => w.2.owner) ++ runners.2
  require (active.length ≤ 21) "number of active witnesses does not equal BTCM_MAX_MINERS"
  let now ← headBlockTime
  let head ← reads fun s => s.dgpo.headBlockNumber
  modifySchedule fun s => { s with
    currentShuffledWitnesses := shuffleWitnesses now active
    currentVirtualTime := if overflowed then 0 else reached
    nextShuffleBlockNum := head + UInt32.ofNat active.length }
  updateMedianWitnessProps

instance : Writes updateWitnessSchedule4 [.rates, .laps] :=
  ⟨by unfold updateWitnessSchedule4; infer_instance⟩

/-- `update_witness_schedule`: the schedule is renewed after each round. -/
def updateWitnessSchedule : DbM Unit := do
  let head ← reads fun s => s.dgpo.headBlockNumber
  whenM (head % 21 = 0) updateWitnessSchedule4

instance : Writes updateWitnessSchedule [.rates, .laps] :=
  ⟨by unfold updateWitnessSchedule; infer_instance⟩

/-! ## The price feed -/

/-- The feed at the middle of a sorted list of prices. -/
def medianPrice (feeds : List Price) : Option Price :=
  (feeds.insertionSort fun a b => ¬ b.lt a)[feeds.length / 2]?

/-- Hold XUSD at or below five percent of the combined market cap: a feed that
values XUSD higher is replaced by the limiting price. -/
def limitMedian (supply : GlobalSupply) (median : Price) : Except Exn Price :=
  if 0 < supply.currentMbdSupply then do
    let inXusd := if median.base.assetId ≠ XUSD_SYMBOL then median.inv else median
    let limit ← safeMul 19 supply.currentMbdSupply
    let maxPrice : Price := ⟨xusd limit, btcm supply.currentSupply⟩
    return if !maxPrice.le inXusd then maxPrice else inXusd
  else .ok median

/-- The feeds that count: set, and not older than a week (the source compares with a
date a week *ahead*, so none is ever too old). -/
def currentFeeds : DbM (List Price) := do
  let now ← headBlockTime
  let names ← reads fun s => s.witnessSchedule.currentShuffledWitnesses
  names.foldlM (fun (feeds : List Price) name => do
    let w ← getWitness name
    return if w.val.lastMbdExchangeUpdate.toNat < now.toNat + 604800 ∧ !w.val.mbdExchangeRate.isNull
      then feeds ++ [w.val.mbdExchangeRate] else feeds) []

instance : Writes currentFeeds [] := ⟨by unfold currentFeeds; infer_instance⟩

/-- Record a median feed and recompute the medians over the window. -/
def recordFeed (feed : Price) : DbM Unit := do
  let history ← reads fun s => s.feedHistory.priceHistory ++ [feed]
  let recent := if 168 < history.length then history.tail else history
  let supply ← reads fun s => s.dgpo.toGlobalSupply
  (medianPrice recent).elim (throw .undefined) fun median => do
    let effective ← ofExcept (limitMedian supply median)
    modifyFeedHistory fun _ => {
      priceHistory := recent
      actualMedianHistory := median
      effectiveMedianHistory := effective }

instance (p : Price) : Writes (recordFeed p) [.feeds] := ⟨by unfold recordFeed; infer_instance⟩

/-- `update_median_feed`: once an hour, the median of the current price feeds is put into the
history. -/
def updateMedianFeed : DbM Unit := do
  let head ← reads fun s => s.dgpo.headBlockNumber
  whenM (head % 1200 = 0) do
    let feeds ← currentFeeds
    whenM (!feeds.isEmpty) ((medianPrice feeds).elim (throw .undefined) recordFeed)

instance : Writes updateMedianFeed [.feeds] := ⟨by unfold updateMedianFeed; infer_instance⟩

end BtcmChain
