import BtcmChain.Chain.Beside

set_option autoImplicit false
set_option synthInstance.maxSize 10000000
set_option synthInstance.maxHeartbeats 200000

/-!
# The virtual schedule

Every witness runs laps of length `2¹²⁸ - 1` at the speed of its votes, and the schedule
keeps when it will finish the present one. `Lap.OnCourse` is what holds of every lap: it was
brought up to date in the past, it ends in the future, and it does not end later than the
distance left allows (`finish`). The last point is what keeps `adjust_witness_vote` from
wrapping around, and every adjustment restores it from scratch, whatever the votes were
before. A witness with a negative number of votes is the one case it says nothing about.
-/

namespace BtcmChain

/-! ## Arithmetic -/

namespace UInt128

theorem toNat_allOnes : (BitVec.allOnes 128 : UInt128).toNat = 2 ^ 128 - 1 := by
  simp only [BitVec.toNat_allOnes]

/-- Only zero is extended to zero, so a tally that is not zero may be divided by. -/
theorem ofShare_ne_zero {x : ShareType} (h : x ≠ 0) : ofShare x ≠ 0 := by
  have hlt := x.toInt_lt
  have hge := x.le_toInt
  have hx : x.toInt ≠ 0 := toInt_ne_zero.mpr h
  intro hzero
  have htoNat : (ofShare x).toNat = 0 := by
    rw [hzero]
    rfl
  simp only [ofShare, BitVec.toNat_ofInt] at htoNat
  omega

/-- The successor of a non-negative number of votes, extended, is not below it: at the very
top of the range it wraps to a negative number, which is extended to a huge one. -/
theorem succ_le_ofShare {x : ShareType} (h : 0 ≤ x.toInt) :
    x.toInt.toNat + 1 ≤ (ofShare (x + 1)).toNat := by
  have hlt := x.toInt_lt
  have hadd : (x + 1).toInt = (x.toInt + 1).bmod (2 ^ 64) := Int64.toInt_add x 1
  simp only [ofShare, BitVec.toNat_ofInt, hadd]
  by_cases htop : x.toInt = 2 ^ 63 - 1
  · rw [htop]
    decide
  · rw [Int.bmod_eq_of_le (by omega) (by omega)]
    omega

end UInt128

/-- The sum of two 128-bit numbers that is not below one of them is exact. -/
theorem toNat_add_of_not_lt {a b : UInt128} (h : ¬ a + b < a) :
    (a + b).toNat = a.toNat + b.toNat := by
  have hb := b.isLt
  have ha := a.isLt
  rw [BitVec.lt_def, BitVec.toNat_add] at h
  rw [BitVec.toNat_add]
  omega

/-- A sum below one of its terms has wrapped around. -/
theorem le_add_of_add_lt {a b : UInt128} (h : a + b < a) : 2 ^ 128 ≤ a.toNat + b.toNat := by
  rw [BitVec.lt_def, BitVec.toNat_add] at h
  omega

/-! ## One lap -/

/-- A lap as it should be at the given virtual time. -/
structure Lap.OnCourse (time : UInt128) (l : Lap) : Prop where
  /-- Nobody gets to minus one vote: the speed is the divisor, and the division throws. -/
  moving : l.votes ≠ -1
  behind : l.lastUpdate ≤ time
  ahead : time ≤ l.scheduled
  /-- With the votes it has, the witness is not scheduled later than it finishes. -/
  finish : 0 ≤ l.votes.toInt → l.scheduled.toNat ≤
    l.lastUpdate.toNat + (2 ^ 128 - 1 - l.position.toNat) / (l.votes.toInt.toNat + 1)

/-- The lap `adjust_witness_vote` leaves behind: `left` is what remains of it, `per` the speed. -/
def Lap.finishing (votes : ShareType) (time position lap : UInt128) : Lap where
  votes
  lastUpdate := time
  position
  scheduled := if time + lap < time then BitVec.allOnes 128 else time + lap

section Lap

variable {votes : ShareType} {time position lap : UInt128}

theorem succ_ne_zero_of_ne {x : ShareType} (h : x ≠ -1) : x + 1 ≠ 0 := by
  intro hzero
  apply h
  grind

theorem ne_of_ofShare_succ_ne {x : ShareType} (h : UInt128.ofShare (x + 1) ≠ 0) : x ≠ -1 := by
  rintro rfl
  exact h (by decide)

/-- A quotient by the speed is at most the exact one. -/
theorem toNat_div_speed_le {left : UInt128} (h : 0 ≤ votes.toInt) :
    (left / UInt128.ofShare (votes + 1)).toNat ≤ left.toNat / (votes.toInt.toNat + 1) := by
  rw [BitVec.toNat_udiv]
  exact Nat.div_le_div_left (UInt128.succ_le_ofShare h) (Nat.succ_pos _)

/-- Whatever the position, a lap that is planned anew is on course. -/
theorem Lap.finishing_onCourse
    (hlap : UInt128.div (BitVec.allOnes 128 - position) (UInt128.ofShare (votes + 1)) = .ok lap) :
    (Lap.finishing votes time position lap).OnCourse time := by
  obtain ⟨hne, rfl⟩ := UInt128.div_ok.mp hlap
  have hleft : (BitVec.allOnes 128 - position).toNat = 2 ^ 128 - 1 - position.toNat := by
    have hp := position.isLt
    rw [BitVec.toNat_sub, UInt128.toNat_allOnes]
    omega
  refine ⟨ne_of_ofShare_succ_ne hne, BitVec.le_refl _, ?_, fun hvotes : 0 ≤ votes.toInt => ?_⟩
  · unfold Lap.finishing
    dsimp only
    split
    case isTrue =>
      rw [BitVec.le_def, UInt128.toNat_allOnes]
      have := time.isLt
      omega
    case isFalse h => exact BitVec.not_lt.mp h
  · have hbound := @toNat_div_speed_le _ (BitVec.allOnes 128 - position) hvotes
    rw [hleft] at hbound
    unfold Lap.finishing
    dsimp only
    split
    case isTrue h =>
      have hwrap := le_add_of_add_lt h
      rw [UInt128.toNat_allOnes]
      omega
    case isFalse h =>
      rw [toNat_add_of_not_lt h]
      omega

/-- A lap that is begun at the line is on course, unless its end wraps around. -/
theorem Lap.started_onCourse (hlap : lapTime votes = .ok lap) (h : ¬ time + lap < time) :
    Lap.OnCourse time ⟨votes, time, 0, time + lap⟩ := by
  have hall : BitVec.allOnes 128 - (0 : UInt128) = BitVec.allOnes 128 := BitVec.sub_zero _
  have hcourse := @Lap.finishing_onCourse votes time 0 lap (by rw [hall]; exact hlap)
  unfold Lap.finishing at hcourse
  rw [if_neg h] at hcourse
  exact hcourse

/-- A new witness has no votes and is scheduled for the end of time. -/
theorem Lap.new_onCourse : Lap.OnCourse time ⟨0, 0, 0, BitVec.allOnes 128⟩ where
  moving := by decide
  behind := by
    rw [BitVec.le_def]
    exact Nat.zero_le _
  ahead := by
    rw [BitVec.le_def, UInt128.toNat_allOnes]
    have := time.isLt
    omega
  finish _ := by
    rw [UInt128.toNat_allOnes]
    decide

/-- What `adjust_witness_vote` adds to the position of a witness: its votes times the time elapsed.
-/
def Lap.gain (time : UInt128) (l : Lap) : UInt128 := UInt128.ofShare l.votes * (time - l.lastUpdate)

/-- The arithmetic of `adjust_witness_vote` does not wrap around, neither in the time nor in the
position. -/
structure Lap.Exact (time : UInt128) (l : Lap) : Prop where
  elapsed : (time - l.lastUpdate).toNat + l.lastUpdate.toNat = time.toNat
  gained : ((l.gain time).toNat : ℤ) = l.votes.toInt * (time.toNat - l.lastUpdate.toNat)
  moved : (l.position + l.gain time).toNat = l.position.toNat + (l.gain time).toNat
  left : (BitVec.allOnes 128 - (l.position + l.gain time)).toNat +
    (l.position + l.gain time).toNat = 2 ^ 128 - 1

theorem toNat_allOnes_sub (x : UInt128) : (BitVec.allOnes 128 - x).toNat + x.toNat = 2 ^ 128 - 1 := by
  have hx := x.isLt
  rw [BitVec.toNat_sub, UInt128.toNat_allOnes]
  omega

/-- A witness on course does not get past the end of its lap before it is scheduled. -/
theorem Lap.OnCourse.gain_le {l : Lap} (h : l.OnCourse time) (hvotes : 0 ≤ l.votes.toInt) :
    l.position.toNat + l.votes.toInt.toNat * (time.toNat - l.lastUpdate.toNat) ≤ 2 ^ 128 - 1 := by
  have hbehind : l.lastUpdate.toNat ≤ time.toNat := h.behind
  have hahead : time.toNat ≤ l.scheduled.toNat := h.ahead
  have hfinish := h.finish hvotes
  have hposition := l.position.isLt
  have hspent : (l.votes.toInt.toNat + 1) * (time.toNat - l.lastUpdate.toNat) ≤
      2 ^ 128 - 1 - l.position.toNat := by
    rw [Nat.mul_comm]
    refine le_trans (Nat.mul_le_mul_right _ ?_) (Nat.div_mul_le_self _ (l.votes.toInt.toNat + 1))
    omega
  rw [Nat.succ_mul] at hspent
  omega

theorem Lap.OnCourse.elapsed {l : Lap} (h : l.OnCourse time) :
    (time - l.lastUpdate).toNat + l.lastUpdate.toNat = time.toNat := by
  have hbehind : l.lastUpdate.toNat ≤ time.toNat := h.behind
  have htime := time.isLt
  rw [BitVec.toNat_sub]
  omega

/-- On course, the arithmetic is exact unless a negative number of votes is multiplied by
something. -/
theorem Lap.OnCourse.exact_iff {l : Lap} (h : l.OnCourse time) :
    l.Exact time ↔ 0 ≤ l.votes.toInt ∨ l.lastUpdate = time := by
  have helapsed := h.elapsed
  constructor
  · intro hexact
    rcases Int.lt_or_le l.votes.toInt 0 with hneg | hnonneg
    · refine .inr (BitVec.eq_of_toNat_eq ?_)
      have hgained := hexact.gained
      -- a product that is no negative number has a factor zero
      by_contra hne
      have hpos : (0 : ℤ) < time.toNat - l.lastUpdate.toNat := by omega
      have hprod := Int.mul_neg_of_neg_of_pos hneg hpos
      omega
    · exact .inl hnonneg
  · rintro (hvotes | heq)
    · have hle := h.gain_le hvotes
      have hgain : (l.gain time).toNat = l.votes.toInt.toNat * (time.toNat - l.lastUpdate.toNat) := by
        have hdiff : (time - l.lastUpdate).toNat = time.toNat - l.lastUpdate.toNat := by omega
        unfold Lap.gain
        rw [BitVec.toNat_mul, UInt128.toNat_ofShare hvotes, hdiff]
        exact Nat.mod_eq_of_lt (by omega)
      refine ⟨helapsed, ?_, ?_, toNat_allOnes_sub _⟩
      · rw [hgain, Nat.cast_mul, Int.toNat_of_nonneg hvotes, Nat.cast_sub (by omega)]
      · rw [BitVec.toNat_add, hgain]
        exact Nat.mod_eq_of_lt (by omega)
    · have hzero : l.gain time = 0 := by
        unfold Lap.gain
        rw [heq, BitVec.sub_self]
        exact BitVec.mul_zero
      refine ⟨helapsed, ?_, ?_, toNat_allOnes_sub _⟩
      · rw [hzero, heq, sub_self, mul_zero]
        rfl
      · rw [hzero]
        exact congrArg BitVec.toNat (BitVec.add_zero _)

end Lap

/-! ## Votes -/

/-- Every witness of the state is on course for the current virtual time. -/
def Database.OnCourse (s : Database) : Prop :=
  ∀ id l, s.laps.1.find? id = some l → l.OnCourse s.laps.2

section Votes

variable {s s' : Database}

theorem Database.find?_laps (s : Database) (id : Nat) :
    s.laps.1.find? id = (s.witnesses.find? id).map WitnessObject.lap := FlatMap.find?_mapVals ..

theorem Database.OnCourse.congr (h : s.OnCourse) (hl : s'.laps = s.laps) : s'.OnCourse := by
  unfold Database.OnCourse
  rw [hl]
  exact h

theorem Database.OnCourse.witness (h : s.OnCourse) {id : Nat} {w : WitnessObject}
    (hw : s.witnesses.find? id = some w) : w.lap.OnCourse s.witnessSchedule.currentVirtualTime :=
  h id w.lap (by rw [s.find?_laps, hw]; rfl)

/-- When one witness gets a lap that is on course, everybody still is. -/
theorem Database.OnCourse.update (h : s.OnCourse) {id : Nat} {w : WitnessObject}
    (hw : w.lap.OnCourse s.witnessSchedule.currentVirtualTime) :
    Database.OnCourse { s with witnesses := s.witnesses.update id fun _ => w } := by
  intro id' l hl
  rw [Database.find?_laps] at hl
  have hl : ((s.witnesses.update id fun _ => w).find? id').map WitnessObject.lap = some l := hl
  rw [ObjectIndex.find?_update] at hl
  split at hl
  · obtain ⟨_, hfound, rfl⟩ := Option.map_eq_some_iff.mp hl
    obtain ⟨_, -, rfl⟩ := Option.map_eq_some_iff.mp hfound
    exact hw
  · exact h id' l (by rw [s.find?_laps]; exact hl)

/-- A witness may join at whatever virtual time, and is on course from the start. -/
theorem Database.OnCourse.create (h : s.OnCourse) {w : WitnessObject}
    (hw : w.lap = ⟨0, 0, 0, BitVec.allOnes 128⟩) :
    Database.OnCourse { s with witnesses := s.witnesses.create w } := by
  intro id l hl
  rw [Database.find?_laps] at hl
  have hl : ((s.witnesses.create w).find? id).map WitnessObject.lap = some l := hl
  rw [ObjectIndex.find?_create] at hl
  split at hl
  · obtain rfl := Option.some.inj hl
    rw [hw]
    exact Lap.new_onCourse
  · exact h id l (by rw [s.find?_laps]; exact hl)

/-- `adjust_witness_vote` plans the rest of the lap anew, at the position reached so far. -/
theorem laps_adjustWitnessVote {witness : Nat} {delta : ShareType}
    (hr : Runs (adjustWitnessVote witness delta) s () s') :
    ∃ (w : WitnessObject) (votes : ShareType) (position lap : UInt128),
      s.witnesses.find? witness = some w ∧ votes.toInt = w.votes.toInt + delta.toInt ∧
      position = w.virtualPosition + UInt128.ofShare w.votes *
        (s.witnessSchedule.currentVirtualTime - w.virtualLastUpdate) ∧
      UInt128.div (BitVec.allOnes 128 - position) (UInt128.ofShare (votes + 1)) = .ok lap ∧
      ∃ w' : WitnessObject, s' = { s with witnesses := s.witnesses.update witness fun _ => w' } ∧
        w'.lap = Lap.finishing votes s.witnessSchedule.currentVirtualTime position lap := by
  simp only [adjustWitnessVote, runs_bind_reads, Table.runs_modify, except_bind_ok, safeAdd_ok,
    except_pure_ok] at hr
  obtain ⟨w, _, hw, ⟨votes, hvotes, _, -, lap, hlap, rfl⟩, rfl⟩ := hr
  exact ⟨w, votes, _, lap, hw, hvotes, rfl, hlap, _, rfl, rfl⟩

/-- All concerns but the virtual schedule, with which no lap changes. -/
abbrev besideLaps : List Concern :=
  [.funds, .stakes, .listening, .requests, .splits, .pools, .catalogue, .pending, .names, .clock,
    .rates, .feeds, .voting, .redelegations, .routes, .finality, .slots, .orders]

theorem onCourse_of_within {α : Type} {m : DbM α} [h : Within besideLaps m] {x : α}
    (hs : s.OnCourse) (hr : Runs m s x s') : s'.OnCourse :=
  hs.congr (h.same (i := .laps) (by decide) hr)

instance (priority := low) {α : Type} (m : DbM α) [Within besideLaps m] :
    Respects (Holding Database.OnCourse) m :=
  ⟨fun hr hs => onCourse_of_within hs hr⟩

instance (w : Nat) (d : ShareType) : Respects (Holding Database.OnCourse) (adjustWitnessVote w d) :=
  ⟨fun hr hs => by
    obtain ⟨w, votes, position, lap, -, -, -, hlap, w', rfl, hw'⟩ := laps_adjustWitnessVote hr
    exact hs.update (hw'.symm ▸ Lap.finishing_onCourse hlap)⟩

instance (a : AccountId) (d : ShareType) :
    Respects (Holding Database.OnCourse) (adjustWitnessVotes a d) := by
  unfold adjustWitnessVotes
  infer_instance

instance (delta : List ShareType) (n : Nat) (a : AccountId) :
    Respects (Holding Database.OnCourse) (adjustProxiedWitnessVotesAll delta n a) := by
  induction n generalizing a with
  | zero => unfold adjustProxiedWitnessVotesAll; infer_instance
  | succ n ih => unfold adjustProxiedWitnessVotesAll; infer_instance

instance (delta : ShareType) (n : Nat) (a : AccountId) :
    Respects (Holding Database.OnCourse) (adjustProxiedWitnessVotesFrom delta n a) := by
  induction n generalizing a with
  | zero => unfold adjustProxiedWitnessVotesFrom; infer_instance
  | succ n ih => unfold adjustProxiedWitnessVotesFrom; infer_instance

instance (a : AccountId) (d : ShareType) :
    Respects (Holding Database.OnCourse) (adjustProxiedWitnessVotes a d) := by
  unfold adjustProxiedWitnessVotes
  infer_instance

end Votes

/-! ## Payments and operations -/

section Operations

variable {s s' : Database}

instance : contentIndex.Beside (Holding Database.OnCourse) := ⟨fun _ _ h => h⟩
instance : reportIndex.Beside (Holding Database.OnCourse) := ⟨fun _ _ h => h⟩

instance (a : AccountId) (x : Asset) : Respects (Holding Database.OnCourse) (createVesting a x) := by
  unfold createVesting
  infer_instance

instance (x y : ShareType) (r : Entry WithdrawVestingRouteObject) :
    Respects (Holding Database.OnCourse) (depositVests x y r) := by
  unfold depositVests
  infer_instance

instance (a : AccountId) : Respects (Holding Database.OnCourse) (withdrawFrom a) := by
  unfold withdrawFrom
  infer_instance

instance (f t : String) (x : Asset) :
    Respects (Holding Database.OnCourse) (transferToVestingEvaluator f t x) := by
  unfold transferToVestingEvaluator
  infer_instance

instance (o : ContentUpdateOperation) :
    Respects (Holding Database.OnCourse) (contentUpdateEvaluator o) := by
  unfold contentUpdateEvaluator
  infer_instance

instance (a b : String) (c : Bool) :
    Respects (Holding Database.OnCourse) (challengeAuthorityEvaluator a b c) := by
  unfold challengeAuthorityEvaluator
  infer_instance

instance (a w : String) (b : Bool) :
    Respects (Holding Database.OnCourse) (accountWitnessVoteEvaluator a w b) := by
  unfold accountWitnessVoteEvaluator
  infer_instance

instance (a : AccountId) : Respects (Holding Database.OnCourse) (clearWitnessVotes a) := by
  unfold clearWitnessVotes
  infer_instance

instance (a p : String) :
    Respects (Holding Database.OnCourse) (accountWitnessProxyEvaluator a p) := by
  unfold accountWitnessProxyEvaluator
  infer_instance

instance [Externals] (o : AccountCreateOperation) :
    Respects (Holding Database.OnCourse) (accountCreateEvaluator o) := by
  unfold accountCreateEvaluator
  infer_instance

instance (o : AccountCreateWithDelegationOperation) :
    Respects (Holding Database.OnCourse) (accountCreateWithDelegationEvaluator o) := by
  unfold accountCreateWithDelegationEvaluator
  infer_instance

end Operations

end BtcmChain
