import BtcmChain.Sound.Irreversible
import BtcmChain.Sound.Laps

set_option autoImplicit false
set_option synthInstance.maxSize 10000000
set_option synthInstance.maxHeartbeats 200000

/-!
# The witness schedule

`update_witness_schedule4` fills the seats of the next round: first by votes, then by the
virtual schedule, which it advances on the way. Here: the virtual schedule stays on course,
the update never fails, and what it seats.

A witness is on course (`Lap.OnCourse` in `Sound.Laps`) if it was updated in the past and is
scheduled in the future; every reachable state has all witnesses on course, and further changes of
votes keep them so. The next adjustment of a witness is exact just if its votes are not negative or
no virtual time has passed (`virtual_schedule_exact_iff`). The sample run `fullRound` ends a round
with a tally that has wrapped (`negative_votes_inexact`).
-/

namespace BtcmChain

/-! ## The virtual schedule -/

section Advance

variable {s s' : Database} {time : UInt128}

/-- The passed witnesses are the first ones of the virtual schedule. -/
theorem runnersUp_append (voted : List Nat) (count : Nat) (ws : List (Nat × WitnessObject)) :
    ∃ rest, ws = (runnersUp voted count ws).1 ++ rest := by
  induction ws generalizing count with
  | nil => exact ⟨[], rfl⟩
  | cons w ws ih =>
      unfold runnersUp
      split
      · split
        · obtain ⟨rest, hrest⟩ := ih (count + 1)
          exact ⟨rest, congrArg (w :: ·) hrest⟩
        · obtain ⟨rest, hrest⟩ := ih count
          exact ⟨rest, congrArg (w :: ·) hrest⟩
      · exact ⟨w :: ws, rfl⟩

/-- Without an overflow every passed witness starts a new lap, and the others are left alone. -/
theorem advanceWitnesses_laps {ws : List (Nat × WitnessObject)}
    (hsnap : ∀ e ∈ ws, ∀ w, s.witnesses.find? e.1 = some w → w.votes = e.2.votes)
    (hr : Runs (advanceWitnesses time ws) s false s') :
    ∀ id w', s'.witnesses.find? id = some w' → w'.lap.OnCourse time ∨
      id ∉ ws.map Prod.fst ∧ s.witnesses.find? id = some w' := by
  induction ws generalizing s with
  | nil =>
      obtain ⟨-, rfl⟩ := runs_pure.mp hr
      exact fun id w' hw' => .inr ⟨List.not_mem_nil, hw'⟩
  | cons e ws ih =>
      simp only [advanceWitnesses, runs_bind_ofExcept] at hr
      obtain ⟨lap, hlap, hr⟩ := hr
      rcases runs_ite.mp hr with ⟨-, hr⟩ | ⟨hfits, hr⟩
      · cases (runs_pure.mp hr).1
      obtain ⟨_, t, hmod, hrest⟩ := runs_bind.mp hr
      obtain ⟨w, w₁, hw, hw₁, rfl⟩ := Table.runs_modify.mp hmod
      obtain rfl := Except.ok.inj hw₁
      have hw : s.witnesses.find? e.1 = some w := hw
      have hvotes : w.votes = e.2.votes := hsnap e List.mem_cons_self w hw
      have hstart : Lap.OnCourse time ⟨w.votes, time, 0, time + lap⟩ :=
        Lap.started_onCourse (hvotes ▸ hlap) hfits
      -- the votes of the snapshot are still the present ones
      have hsnap' : ∀ f ∈ ws, ∀ v,
          (s.witnesses.update e.1 fun _ => { w with
            virtualPosition := 0, virtualLastUpdate := time
            virtualScheduledTime := time + lap }).find? f.1 = some v → v.votes = f.2.votes := by
        intro f hf v hv
        rw [ObjectIndex.find?_update] at hv
        split at hv
        case isTrue heq =>
          rw [hw] at hv
          obtain rfl := Option.some.inj hv
          exact hsnap f (List.mem_cons_of_mem _ hf) w (heq ▸ hw)
        case isFalse => exact hsnap f (List.mem_cons_of_mem _ hf) v hv
      intro id w' hw'
      rcases ih hsnap' hrest id w' hw' with hdone | ⟨hid, hleft⟩
      · exact .inl hdone
      · have hleft : (s.witnesses.update e.1 fun _ => { w with
            virtualPosition := 0, virtualLastUpdate := time
            virtualScheduledTime := time + lap }).find? id = some w' := hleft
        rw [ObjectIndex.find?_update] at hleft
        split at hleft
        case isTrue =>
          rw [hw] at hleft
          obtain rfl := Option.some.inj hleft
          exact .inl hstart
        case isFalse hne => exact .inr ⟨by simp [hne, hid], hleft⟩

/-- A loop that changes witnesses leaves only changed ones behind, or such as it did not meet. -/
theorem forM_modifyWitness {change : WitnessObject → Except Exn WitnessObject}
    {l : List (Nat × WitnessObject)}
    (hr : Runs (l.forM fun e => witnessIndex.modify e.1 change) s () s') :
    s'.witnessSchedule = s.witnessSchedule ∧
      ∀ id w', s'.witnesses.find? id = some w' → (∃ w, change w = .ok w') ∨
        id ∉ l.map Prod.fst ∧ s.witnesses.find? id = some w' := by
  induction l generalizing s with
  | nil =>
      obtain ⟨-, rfl⟩ := runs_pure.mp hr
      exact ⟨rfl, fun id w' hw' => .inr ⟨List.not_mem_nil, hw'⟩⟩
  | cons e l ih =>
      obtain ⟨_, t, hmod, hrest⟩ := runs_bind.mp hr
      obtain ⟨w, w₁, -, hw₁, rfl⟩ := Table.runs_modify.mp hmod
      obtain ⟨hsame, hall⟩ := ih hrest
      refine ⟨hsame, fun id w' hw' => ?_⟩
      rcases hall id w' hw' with hdone | ⟨hid, hleft⟩
      · exact .inl hdone
      · have hleft : (s.witnesses.update e.1 fun _ => w₁).find? id = some w' := hleft
        rw [ObjectIndex.find?_update] at hleft
        split at hleft
        case isTrue =>
          obtain ⟨_, -, rfl⟩ := Option.map_eq_some_iff.mp hleft
          exact .inl ⟨w, hw₁⟩
        case isFalse hne => exact .inr ⟨by simp [hne, hid], hleft⟩

/-- `reset_virtual_schedule_time` sends every witness to the line. -/
theorem resetVirtualScheduleTime_onCourse (hr : Runs resetVirtualScheduleTime s () s') :
    s'.OnCourse := by
  obtain ⟨_, t, hzero, hr⟩ := runs_bind.mp hr
  cases hzero
  rw [runs_bind_reads] at hr
  obtain ⟨htime, hall⟩ := forM_modifyWitness hr
  intro id l hl
  rw [Database.find?_laps] at hl
  obtain ⟨w', hw', rfl⟩ := Option.map_eq_some_iff.mp hl
  have htime : s'.laps.2 = 0 := congrArg WitnessScheduleObject.currentVirtualTime htime
  rw [htime]
  rcases hall id w' hw' with ⟨w, hw⟩ | ⟨hid, hfound⟩
  · obtain ⟨lap, hlap, hw⟩ := except_bind_ok.mp hw
    obtain rfl := except_pure_ok.mp hw
    have hcourse := @Lap.started_onCourse _ 0 _ hlap (by simp)
    rw [show (0 : UInt128) + lap = lap from BitVec.zero_add lap] at hcourse
    exact hcourse
  · exact absurd (List.mem_map_of_mem (f := Prod.fst) (ObjectIndex.mem_entries_iff.mpr hfound)) hid

end Advance

/-! ## The update -/

/-- The witnesses that are seated for their votes, twenty at most. -/
def Database.votedWitnesses (s : Database) : List (Nat × WitnessObject) :=
  (s.witnessesByVote.filter fun w => w.2.signingKey ≠ 0).take 20

/-- The witnesses the virtual schedule passes, and whom it seats. -/
def Database.runners (s : Database) : List (Nat × WitnessObject) × List String :=
  runnersUp (s.votedWitnesses.map Prod.fst) s.votedWitnesses.length s.witnessesBySchedule

/-- The virtual time of the last witness that was passed. -/
def Database.reachedTime (s : Database) : UInt128 :=
  s.runners.1.getLast?.elim s.witnessSchedule.currentVirtualTime fun w => w.2.virtualScheduledTime

/-- The seats as they are selected, before they are shuffled. -/
def Database.selected (s : Database) : List String :=
  s.votedWitnesses.map (fun w => w.2.owner) ++ s.runners.2

section Update

variable {s s' : Database}

/-- The steps of the update of the schedule, from the selection to the shuffled seats. -/
theorem runs_updateWitnessSchedule4 :
    Runs updateWitnessSchedule4 s () s' ↔ ∃ (overflowed : Bool) (t u : Database),
      Runs (advanceWitnesses s.reachedTime s.runners.1) s overflowed t ∧
      Runs (whenM overflowed resetVirtualScheduleTime) t () u ∧ s.selected.length ≤ 21 ∧
      Runs updateMedianWitnessProps { u with witnessSchedule := { u.witnessSchedule with
        currentShuffledWitnesses := shuffleWitnesses u.dgpo.time s.selected
        currentVirtualTime := if overflowed then 0 else s.reachedTime
        nextShuffleBlockNum := u.dgpo.headBlockNumber + UInt32.ofNat s.selected.length } } () s' := by
  unfold updateWitnessSchedule4
  simp only [runs_bind_reads]
  rw [runs_bind]
  refine exists_congr fun overflowed => exists_congr fun t => ?_
  rw [runs_bind]
  constructor
  · rintro ⟨h1, _, u, h2, h3⟩
    simp only [runs_bind_require, runs_bind_headBlockTime, runs_bind_reads] at h3
    obtain ⟨hsize, h3⟩ := h3
    obtain ⟨_, v, h4, h5⟩ := runs_bind.mp h3
    cases h4
    exact ⟨u, h1, h2, of_decide_eq_true hsize, h5⟩
  · rintro ⟨u, h1, h2, hsize, h3⟩
    refine ⟨h1, (), u, h2, ?_⟩
    simp only [runs_bind_require, runs_bind_headBlockTime, runs_bind_reads]
    exact ⟨decide_eq_true hsize, runs_bind.mpr ⟨(), _, rfl, h3⟩⟩

/-- The virtual time does not pass a witness it does not send off. -/
theorem reachedTime_le {e : Nat × WitnessObject} (h : s.OnCourse) (he : e ∈ s.witnessesBySchedule)
    (hleft : e.1 ∉ s.runners.1.map Prod.fst) : s.reachedTime ≤ e.2.virtualScheduledTime := by
  have hsorted : s.witnessesBySchedule.Pairwise fun a b =>
      a.2.virtualScheduledTime.toNat ≤ b.2.virtualScheduledTime.toNat :=
    have : Std.Total fun a b : Nat × WitnessObject =>
      a.2.virtualScheduledTime.toNat ≤ b.2.virtualScheduledTime.toNat := ⟨fun _ _ => Nat.le_total _ _⟩
    have : IsTrans (Nat × WitnessObject) fun a b =>
      a.2.virtualScheduledTime.toNat ≤ b.2.virtualScheduledTime.toNat := ⟨fun _ _ _ => Nat.le_trans⟩
    List.pairwise_insertionSort _ _
  obtain ⟨rest, hrest⟩ := runnersUp_append (s.votedWitnesses.map Prod.fst) s.votedWitnesses.length
    s.witnessesBySchedule
  have hrest : s.witnessesBySchedule = s.runners.1 ++ rest := hrest
  have hfound : s.witnesses.find? e.1 = some e.2 :=
    ObjectIndex.mem_entries_iff.mp ((List.mem_insertionSort _).mp he)
  unfold Database.reachedTime
  cases hlast : s.runners.1.getLast? with
  | none => exact (h.witness hfound).ahead
  | some w =>
      have hmem : e ∈ rest := by
        rw [hrest, List.mem_append] at he
        exact he.resolve_left fun hin => hleft (List.mem_map_of_mem hin)
      rw [hrest, List.pairwise_append] at hsorted
      exact hsorted.2.2 w (List.mem_of_getLast? hlast) e hmem

/-- The virtual time does not go back when the schedule is updated. -/
theorem le_reachedTime (h : s.OnCourse) : s.witnessSchedule.currentVirtualTime ≤ s.reachedTime := by
  unfold Database.reachedTime
  cases hlast : s.runners.1.getLast? with
  | none => exact BitVec.le_refl _
  | some w =>
      obtain ⟨rest, hrest⟩ := runnersUp_append (s.votedWitnesses.map Prod.fst)
        s.votedWitnesses.length s.witnessesBySchedule
      have hmem : w ∈ s.witnessesBySchedule := by
        rw [hrest]
        exact List.mem_append_left _ (List.mem_of_getLast? hlast)
      exact (h.witness (ObjectIndex.mem_entries_iff.mp ((List.mem_insertionSort _).mp hmem))).ahead

/-- The witnesses that the schedule passes are those of the table. -/
theorem find?_of_mem_runners {e : Nat × WitnessObject} (he : e ∈ s.runners.1) :
    s.witnesses.find? e.1 = some e.2 := by
  obtain ⟨rest, hrest⟩ := runnersUp_append (s.votedWitnesses.map Prod.fst) s.votedWitnesses.length
    s.witnessesBySchedule
  have hmem : e ∈ s.witnessesBySchedule := by
    rw [hrest]
    exact List.mem_append_left _ he
  exact ObjectIndex.mem_entries_iff.mp ((List.mem_insertionSort _).mp hmem)

/-- The update of the schedule keeps every witness on course. -/
theorem Database.OnCourse.updateWitnessSchedule4 (h : s.OnCourse)
    (hr : Runs BtcmChain.updateWitnessSchedule4 s () s') : s'.OnCourse := by
  obtain ⟨overflowed, t, u, hadvance, hreset, -, hmedian⟩ := runs_updateWitnessSchedule4.mp hr
  refine onCourse_of_within ?_ hmedian
  intro id l hl
  rw [Database.find?_laps] at hl
  obtain ⟨w, hw, rfl⟩ := Option.map_eq_some_iff.mp hl
  have hw : u.witnesses.find? id = some w := hw
  cases overflowed with
  | true =>
      have hzero : u.OnCourse := resetVirtualScheduleTime_onCourse (by simpa using hreset)
      have htime : u.witnessSchedule.currentVirtualTime = 0 := by
        have hreset : Runs resetVirtualScheduleTime t () u := by simpa using hreset
        obtain ⟨_, v, hset, hreset⟩ := runs_bind.mp hreset
        cases hset
        rw [runs_bind_reads] at hreset
        exact congrArg WitnessScheduleObject.currentVirtualTime (forM_modifyWitness hreset).1
      exact htime ▸ hzero.witness hw
  | false =>
      have hu : u = t := by simpa using hreset
      subst hu
      have hsnap : ∀ e ∈ s.runners.1, ∀ w, s.witnesses.find? e.1 = some w → w.votes = e.2.votes := by
        intro e he w hw
        rw [find?_of_mem_runners he] at hw
        obtain rfl := Option.some.inj hw
        rfl
      rcases advanceWitnesses_laps hsnap hadvance id w hw with hdone | ⟨hid, hfound⟩
      · exact hdone
      · obtain ⟨hmoving, hbehind, hahead, hfinish⟩ := h.witness hfound
        have hmem : (id, w) ∈ s.witnessesBySchedule :=
          (List.mem_insertionSort _).mpr (ObjectIndex.mem_entries_iff.mpr hfound)
        exact ⟨hmoving, BitVec.le_trans hbehind (le_reachedTime h), reachedTime_le h hmem hid, hfinish⟩

instance : Respects (Holding Database.OnCourse) updateWitnessSchedule4 :=
  ⟨fun hr hs => hs.updateWitnessSchedule4 hr⟩

instance : Respects (Holding Database.OnCourse) updateWitnessSchedule := by
  unfold updateWitnessSchedule
  infer_instance

instance : Respects (Holding Database.OnCourse) settleBlock := by
  unfold settleBlock
  infer_instance

end Update

/-! ## Runs -/

section Runs

variable {s s' : Database}

/-- `witness_update_evaluator`: a new witness joins, an old one keeps its lap. -/
theorem Database.OnCourse.witnessUpdate {o : WitnessUpdateOperation} (h : s.OnCourse)
    (hr : Runs (witnessUpdateEvaluator o) s () s') : s'.OnCourse := by
  simp only [witnessUpdateEvaluator, runs_bind_getAccount, runs_bind_require, runs_bind_findBy?,
    runs_bind_headBlockTime] at hr
  obtain ⟨_, -, -, hr⟩ := hr
  generalize ObjectIndex.findBy? _ _ = found at hr
  cases found with
  | none =>
      simp only [Option.map_none, Option.elim_none, runs_bind_create, runs_pure] at hr
      obtain ⟨-, -, rfl⟩ := hr
      exact h.create rfl
  | some w =>
      simp only [Option.map_some, Option.elim_some, Table.runs_modify] at hr
      obtain ⟨x, _, hx, hy, rfl⟩ := hr
      cases hy
      have hlap : x.lap.OnCourse s.witnessSchedule.currentVirtualTime := h.witness hx
      exact h.update hlap

instance (name : String) (x : ShareType) :
    Respects (Holding Database.OnCourse) (createInitMiner name x) :=
  ⟨fun hr hs => by
    simp only [createInitMiner] at hr
    obtain ⟨_, t, haccount, hr⟩ := runs_bind.mp hr
    have ht : t.OnCourse := onCourse_of_within hs haccount
    simp only [runs_bind_create, runs_pure] at hr
    obtain ⟨-, -, rfl⟩ := hr
    exact ht.create rfl⟩

variable [Externals]

/-- After genesis every witness stands at the line. -/
theorem initGenesis_onCourse {g : GenesisState} (h : Runs (initGenesis g) {} () s) :
    s.OnCourse := by
  have hempty : ({} : Database).OnCourse := fun _ _ hl => by cases hl
  have himport : Respects (Holding Database.OnCourse) (initGenesis g) := by
    have hsched := within_modifySchedule (D := besideLaps)
      (fun s => { s with currentShuffledWitnesses := "initminer" :: initMinerNames })
      (fun hi => absurd (by decide) hi) fun _ _ => rfl
    unfold initGenesis importAsset importBalance importVesting
    infer_instance
  exact himport.rel h hempty

/-- An evaluator keeps every witness on course. -/
theorem evaluate_onCourse {push : Nat → DbM Unit} {op : Operation}
    (hop : op.isProposalUpdate = false) (h : s.OnCourse)
    (hr : Runs (evaluate push op) s () s') : s'.OnCourse := by
  cases hi : op.writes .laps with
  | false => exact h.congr (evaluate_same (i := .laps) hop hi hr)
  | true =>
      cases op <;> first | exact (Bool.false_ne_true hi).elim | skip
      case witnessUpdate o => exact h.witnessUpdate hr
      all_goals
        simp only [evaluate] at hr
        exact Respects.rel (R := Holding Database.OnCourse) hr h

/-- In every reachable state every witness is on course for the virtual time. -/
theorem Reachable.onCourse (hs : Reachable s) : s.OnCourse := by
  induction hs with
  | genesis h => exact initGenesis_onCourse h
  | move hs _ hm ih =>
      refine (Move.run_induction (P := Database.OnCourse) (C := fun _ => True) (fun _ _ h => h)
        (fun _ _ _ _ hop _ _ h hr => evaluate_onCourse hop h hr)
        (fun _ _ _ h hr => onCourse_of_within h hr) (fun _ _ _ h hr => onCourse_of_within h hr)
        (fun _ _ _ h hr => Respects.rel (R := Holding Database.OnCourse) hr h)
        (fun _ _ h hr => onCourse_of_within h hr) hs.reachable.proposalsValid (fun _ _ => trivial)
        ih hm).1

/-- The votes of some witness are adjusted, which is what moves laps between updates. -/
def VoteChange (s t : Database) : Prop := ∃ w delta, Runs (adjustWitnessVote w delta) s () t

omit [Externals] in
theorem Database.OnCourse.voteChanges (h : s.OnCourse) (hst : Relation.ReflTransGen VoteChange s s') :
    s'.OnCourse := by
  induction hst with
  | refl => exact h
  | tail _ hstep ih =>
      obtain ⟨w, delta, hr⟩ := hstep
      exact Respects.rel (R := Holding Database.OnCourse) hr ih

/-- In every reachable state, and after any further changes of votes, every witness was updated
in the past and is scheduled in the future; and the next adjustment of its votes is exact if
and only if the votes are no negative number, or no virtual time has passed. -/
theorem virtual_schedule_exact_iff (hs : Reachable s) (hst : Relation.ReflTransGen VoteChange s s') :
    ∀ id w, s'.witnesses.find? id = some w →
      w.virtualLastUpdate ≤ s'.witnessSchedule.currentVirtualTime ∧
      s'.witnessSchedule.currentVirtualTime ≤ w.virtualScheduledTime ∧
      w.virtualPosition ≤ BitVec.allOnes 128 ∧
      (w.lap.Exact s'.witnessSchedule.currentVirtualTime ↔
        0 ≤ w.votes.toInt ∨ w.virtualLastUpdate = s'.witnessSchedule.currentVirtualTime) := by
  intro id w hw
  have hcourse := (hs.onCourse.voteChanges hst).witness hw
  refine ⟨hcourse.behind, hcourse.ahead, ?_, hcourse.exact_iff⟩
  have hposition := w.virtualPosition.isLt
  rw [BitVec.le_def, UInt128.toNat_allOnes]
  omega

end Runs

section Samples

open Sample

/-- The names of nineteen accounts, beside the initial ones. -/
def extraNames : List String :=
  ["alice", "bob11", "carol", "david", "erin1", "frank", "grace", "heidi", "ivan1", "judy1", "karl1",
    "laura", "mallory", "niaj1", "olivia", "peggy", "quinn", "rupert", "sybil"]

/-- A genesis with nine quintillion vesting shares and no BTCM in the vesting fund, and enough
accounts for a full round of witnesses, each with the shares that its bandwidth needs. -/
def fullRoundGenesis : GenesisState where
  initSupply := 1000000000000000000
  initSupply_nonneg := quintillion_nonneg
  initialAccounts := extraNames.map fun name => { name, ownerKey := 1, activeKey := 1 }
  initialVestingBalances := ⟨5, 9000000000000000000, nineQuintillion_nonneg⟩ ::
    (3 :: (List.range 19).map (6 + ·)).map fun owner => ⟨owner, 1000000000000, trillion_nonneg⟩

/-- In the second block the accounts become witnesses; then the shares of `initminer` wrap around,
and it votes for two of the initial witnesses. -/
def fullRoundBlock : SignedBlock where
  witness := "initminer1"
  timestamp := 1585422006
  transactions := [
    extraNames.map fun owner => .witnessUpdate
      { owner, url := "url", blockSigningKey := 1, props := {}, fee := btcm 0 },
    [.transferToVesting "initminer" "initminer" (btcm 1000000)],
    [.transferToVesting "initminer" "initminer" (btcm 2000000)],
    [.accountWitnessVote "initminer" "initminer1" true],
    [.accountWitnessVote "initminer" "initminer2" true]]

/-- The empty first block, the votes, and empty blocks up to the end of the round. -/
def fullRound : List SignedBlock :=
  (quietChain 1) ++ fullRoundBlock :: (quietChain 21).drop 2

/-- At the end of the round one of the two takes the last seat, and the virtual time moves on
without the other: its next adjustment multiplies a negative number of votes. -/
theorem negative_votes_inexact :
    ∃ s w, Reachable s ∧ s.witnesses.find? 2 = some w ∧
      ¬ w.lap.Exact s.witnessSchedule.currentVirtualTime := by
  have hrun : leadsTo (replay fullRoundGenesis fullRound) {} (fun s =>
      decide ((s.witnesses.find? 2).map (fun w => (w.votes.toInt, w.virtualLastUpdate)) =
        some (-446703073706551616, 0) ∧ s.witnessSchedule.currentVirtualTime = 1)) = true := by
    decide +kernel
  obtain ⟨s, hs, hfound⟩ := leadsTo_iff.mp hrun
  obtain ⟨hfound, htime⟩ := of_decide_eq_true hfound
  obtain ⟨w, hw, hfound⟩ := Option.map_eq_some_iff.mp hfound
  obtain ⟨hvotes, hlast⟩ := Prod.mk.inj hfound
  refine ⟨s, w, replay_reachable hs, hw, fun hexact => ?_⟩
  have hcourse := (replay_reachable hs).onCourse.witness hw
  rcases hcourse.exact_iff.mp hexact with hnonneg | hnow
  · have hnonneg : 0 ≤ w.votes.toInt := hnonneg
    omega
  · have hnow : w.virtualLastUpdate = s.witnessSchedule.currentVirtualTime := hnow
    rw [hlast, htime] at hnow
    exact absurd hnow (by decide)

/-- At genesis nothing has moved yet, so the arithmetic of a lap is exact. -/
theorem genesis_schedule_exact :
    ∃ s w, Reachable s ∧ s.witnesses.find? 0 = some w ∧
      w.lap.Exact s.witnessSchedule.currentVirtualTime := by
  have hrun : leadsTo (initGenesis fullRoundGenesis) {} (fun s =>
      decide ((s.witnesses.find? 0).map (fun w => w.votes.toInt) = some 0)) = true := by
    decide +kernel
  obtain ⟨s, hs, hfound⟩ := leadsTo_iff.mp hrun
  obtain ⟨w, hw, hvotes⟩ := Option.map_eq_some_iff.mp (of_decide_eq_true hfound)
  have hall := virtual_schedule_exact_iff (.genesis hs) .refl 0 w hw
  exact ⟨s, w, .genesis hs, hw, hall.2.2.2.mpr (.inl (by omega))⟩

end Samples

end BtcmChain
