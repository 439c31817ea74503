import BtcmChain.Lib.Respects
import BtcmChain.Sound.Irreversible

set_option autoImplicit false

/-!
# Slots

A slot is three seconds long. Seen from a state, slot `N` begins `3 N` seconds after the slot
of the head block (`slotStart`), and `get_slot_at_time` is the inverse of that as far as 32-bit
times reach. Along a chain the absolute slot number is accumulated block by block; since every
block counts from the slot its parent is in, not from the parent's time, the sum is the number
of whole slots since genesis, however the timestamps lie within their slots.
-/

namespace BtcmChain

/-! ## Slots of one state -/

/-- Where the slot of the head block begins; at genesis the head time itself. -/
def Database.slotStart (s : Database) : ℕ :=
  if s.dgpo.headBlockNumber = 0 then s.dgpo.time.toNat else s.dgpo.time.toNat / 3 * 3

section State

variable {s : Database}

theorem toNat_add_mul_three {x n : UInt32} (h : x.toNat + 3 * n.toNat < 2 ^ 32) :
    (x + n * 3).toNat = x.toNat + 3 * n.toNat := by
  have hmul : (n * 3).toNat = 3 * n.toNat := by
    rw [UInt32.toNat_mul]
    show n.toNat * 3 % 2 ^ 32 = _
    omega
  rw [UInt32.toNat_add, hmul]
  exact Nat.mod_eq_of_lt h

theorem toNat_div_mul_three (x : UInt32) : (x / 3 * 3).toNat = x.toNat / 3 * 3 := by
  have hx := x.toNat_lt
  have hdiv : (x / 3).toNat = x.toNat / 3 := UInt32.toNat_div x 3
  rw [UInt32.toNat_mul, hdiv]
  show x.toNat / 3 * 3 % 2 ^ 32 = _
  omega

/-- `get_slot_time` is the start of the slots and three seconds for each, while that fits a time. -/
theorem toNat_slotTime {n : UInt32} (h : s.slotStart + 3 * n.toNat < 2 ^ 32) :
    (s.slotTime n).toNat = s.slotStart + 3 * n.toNat := by
  unfold Database.slotStart at h ⊢
  unfold Database.slotTime
  split
  case isTrue hzero =>
    rw [if_pos hzero] at h
    exact toNat_add_mul_three h
  case isFalse hhead =>
    rw [if_neg hhead] at h
    rw [← toNat_div_mul_three] at h ⊢
    exact toNat_add_mul_three h

/-- `get_slot_at_time` counts the whole slots since the one of the head block. -/
theorem toNat_slotAtTime (h : s.slotStart + 3 < 2 ^ 32) (t : TimePointSec) :
    (s.slotAtTime t).toNat = (t.toNat - s.slotStart) / 3 := by
  have ht := t.toNat_lt
  have hfirst : (s.slotTime 1).toNat = s.slotStart + 3 := toNat_slotTime (n := 1) h
  unfold Database.slotAtTime
  split
  case isTrue hlt =>
    rw [UInt32.lt_iff_toNat_lt, hfirst] at hlt
    show 0 = _
    omega
  case isFalse hge =>
    rw [UInt32.lt_iff_toNat_lt, hfirst] at hge
    have hsub : (t - s.slotTime 1).toNat = t.toNat - (s.slotStart + 3) := by
      rw [UInt32.toNat_sub_of_le _ _ (UInt32.le_iff_toNat_le.mpr (by omega)), hfirst]
    have hdiv : ((t - s.slotTime 1) / 3).toNat = (t.toNat - (s.slotStart + 3)) / 3 := by
      rw [UInt32.toNat_div, hsub]
      rfl
    rw [UInt32.toNat_add, hdiv]
    show ((t.toNat - (s.slotStart + 3)) / 3 + 1) % 2 ^ 32 = _
    omega

/-- Slots and times are inverse to each other, as far as the times reach. -/
structure Database.SlotsAndTimes (s : Database) : Prop where
  /-- The slot of a time is the greatest one that has begun. -/
  greatest : ∀ (t : TimePointSec) (n : UInt32), 1 ≤ n.toNat → s.slotStart + 3 * n.toNat < 2 ^ 32 →
    (s.slotTime n ≤ t ↔ n ≤ s.slotAtTime t)
  /-- The slot of a time has begun by then, unless it is slot 0. -/
  begun : ∀ t : TimePointSec, s.slotStart + 3 < 2 ^ 32 → s.slotAtTime t ≠ 0 →
    s.slotTime (s.slotAtTime t) ≤ t
  inverse : ∀ n : UInt32, 1 ≤ n.toNat → s.slotStart + 3 * n.toNat < 2 ^ 32 →
    s.slotAtTime (s.slotTime n) = n

theorem slotsAndTimes (s : Database) : s.SlotsAndTimes where
  greatest t n hn h := by
    rw [UInt32.le_iff_toNat_le, UInt32.le_iff_toNat_le, toNat_slotTime h,
      toNat_slotAtTime (by omega), Nat.le_div_iff_mul_le (by decide)]
    omega
  begun t h hne := by
    have hat := toNat_slotAtTime h t
    have hpos : 0 < (s.slotAtTime t).toNat := by
      refine Nat.pos_of_ne_zero fun hzero => hne ?_
      exact UInt32.toNat_inj.mp hzero
    have htime : s.slotStart + 3 * (s.slotAtTime t).toNat ≤ t.toNat := by omega
    rw [UInt32.le_iff_toNat_le, toNat_slotTime (Nat.lt_of_le_of_lt htime t.toNat_lt)]
    exact htime
  inverse n hn h := by
    refine UInt32.toNat_inj.mp ?_
    rw [toNat_slotAtTime (by omega), toNat_slotTime h]
    omega

end State

/-! ## One block -/

/-- The clock of the state, and its absolute slot. -/
def Database.ticks (s : Database) : (UInt32 × TimePointSec) × UInt64 := (s.clock, s.dgpo.currentAslot)

section Block

variable {s s' : Database}

theorem Writes.ticks_eq {α : Type} {m : DbM α} {C : List Concern} {a : α} [h : Writes m C]
    (hr : Runs m s a s') (hc : Concern.clock ∉ C) (hi : Concern.slots ∉ C) : s'.ticks = s.ticks :=
  Prod.ext (h.within.same hc hr) (h.within.same hi hr)

theorem slotAtTime_congr (h : s'.ticks = s.ticks) (t : TimePointSec) :
    s'.slotAtTime t = s.slotAtTime t := by
  have hhead : s'.dgpo.headBlockNumber = s.dgpo.headBlockNumber := congrArg (fun x => x.1.1) h
  have htime : s'.dgpo.time = s.dgpo.time := congrArg (fun x => x.1.2) h
  unfold Database.slotAtTime Database.slotTime
  rw [hhead, htime]

/-- Asking whose turn it is changes nothing in the state. -/
instance (n : UInt32) : Respects (Fixing (id : Database → Database)) (getScheduledWitness n) := by
  unfold getScheduledWitness
  infer_instance

/-- The header of a block: later than the head, and signed by whose turn it is. -/
theorem runs_startBlock {b : SignedBlock} (h : Runs (startBlock b) s () s') :
    s.dgpo.time < b.timestamp ∧ 0 < s.slotAtTime b.timestamp ∧
      Runs (getScheduledWitness (s.slotAtTime b.timestamp)) s b.witness s := by
  simp only [startBlock, runs_bind_headBlockTime, runs_bind_require, getWitness, runs_bind_getBy,
    runs_bind_reads] at h
  obtain ⟨hlater, w, hw, hslot, h⟩ := h
  obtain ⟨scheduled, t, hsched, h⟩ := runs_bind.mp h
  rw [runs_bind_require] at h
  have ht : t = s := Respects.rel (R := Fixing id) hsched
  have howner : w.val.owner = b.witness := of_decide_eq_true (ObjectIndex.find?_of_findBy? hw).2
  have hturn : w.val.owner = scheduled := of_decide_eq_true h.1
  have hname : b.witness = scheduled := howner.symm.trans hturn
  rw [ht, ← hname] at hsched
  exact ⟨of_decide_eq_true hlater, of_decide_eq_true hslot, hsched⟩

/-- `update_global_dynamic_data` counts the slots up to that of the block. -/
theorem aslot_updateGlobalDynamicData {p : String} {time : TimePointSec}
    (h : Runs (updateGlobalDynamicData p time) s () s') :
    s'.dgpo.currentAslot = s.dgpo.currentAslot + (s.slotAtTime time).toUInt64 := by
  have hmiss : ∀ n : Nat, Writes ((List.range n).forM fun i => missSlot p (i + 1)) [] :=
    fun n => ⟨inferInstance⟩
  simp only [updateGlobalDynamicData, runs_bind_reads, runs_bind_require] at h
  obtain ⟨-, h⟩ := h
  obtain ⟨_, t1, h1, h⟩ := runs_bind.mp h
  rw [runs_bind_reads] at h
  obtain ⟨_, t2, h2, h⟩ := runs_bind.mp h
  obtain ⟨_, t3, h3, h⟩ := runs_bind.mp h
  simp only [runs_bind_reads, runs_require] at h
  obtain ⟨-, rfl⟩ := h
  have hbefore : t2.dgpo.currentAslot = s.dgpo.currentAslot :=
    (Writes.slots_eq h2 (by decide)).trans (Writes.slots_eq h1 (by decide))
  obtain ⟨d, hd, rfl⟩ := runs_modifyDgpo.mp h3
  obtain rfl := Except.ok.inj hd
  show t2.dgpo.currentAslot + _ = _
  rw [hbefore]

variable [Externals]

theorem evaluate_ticks {push : Nat → DbM Unit} {op : Operation} (hop : op.isProposalUpdate = false)
    (h : Runs (evaluate push op) s () s') : s'.ticks = s.ticks :=
  Prod.ext (evaluate_same (i := .clock) hop (by cases op <;> rfl) h)
    (evaluate_same (i := .slots) hop (by cases op <;> rfl) h)

/-- What a block does to the clock and the absolute slot. -/
structure Ticked (b : SignedBlock) (s s' : Database) : Prop where
  later : s.dgpo.time < b.timestamp
  slot : 0 < s.slotAtTime b.timestamp
  scheduled : Runs (getScheduledWitness (s.slotAtTime b.timestamp)) s b.witness s
  head : s'.dgpo.headBlockNumber = s.dgpo.headBlockNumber + 1
  time : s'.dgpo.time = b.timestamp
  aslot : s'.dgpo.currentAslot = s.dgpo.currentAslot + (s.slotAtTime b.timestamp).toUInt64

theorem applyBlock_ticked {b : SignedBlock} (hv : ProposalsValid s)
    (h : Runs (applyBlock b) s () s') : Ticked b s s' := by
  obtain ⟨_, t1, h1, h⟩ := runs_bind.mp h
  obtain ⟨_, t2, h2, h⟩ := runs_bind.mp h
  obtain ⟨_, t3, h3, h⟩ := runs_bind.mp h
  obtain ⟨_, t4, h4, h⟩ := runs_bind.mp h
  obtain ⟨_, t5, h5, h⟩ := runs_bind.mp h
  obtain ⟨_, t6, h6, h⟩ := runs_bind.mp h
  obtain ⟨_, t7, h7, h8⟩ := runs_bind.mp h
  obtain ⟨hlater, hslot, hsched⟩ := runs_startBlock h1
  -- up to the transactions nothing moves
  have hops : t2.ticks = s.ticks ∧ ProposalsValid t2 :=
    forM_induction (P := fun t => t.ticks = s.ticks ∧ ProposalsValid t)
      (fun ops _ u v hu hr => applyTransaction_induction (P := fun t => t.ticks = s.ticks)
        (fun _ _ hu => hu) (fun push op u v hop _ hu hr => (evaluate_ticks hop hr).trans hu) hr hu) h2
      ⟨Writes.ticks_eq h1 (by decide) (by decide), hv.congr (Writes.proposals_eq h1 (by decide))⟩
  -- and after the clock has moved nothing does
  have hvalid : ProposalsValid t5 :=
    ((hops.2.congr (Writes.proposals_eq h3 (by decide))).congr
      (Writes.proposals_eq h4 (by decide))).congr (Writes.proposals_eq h5 (by decide))
  have hexpired : t6.ticks = t5.ticks ∧ ProposalsValid t6 :=
    clearExpiredProposals_induction (P := fun t => t.ticks = t5.ticks) (fun _ _ hu => hu)
      (fun push op u v hop _ hu hr => (evaluate_ticks hop hr).trans hu) h6 ⟨rfl, hvalid⟩
  have hrest : s'.ticks = t3.ticks := by
    rw [Writes.ticks_eq h8 (by decide) (by decide), Writes.ticks_eq h7 (by decide) (by decide),
      hexpired.1, Writes.ticks_eq h5 (by decide) (by decide),
      Writes.ticks_eq h4 (by decide) (by decide)]
  have hclock : t3.clock = (t2.dgpo.headBlockNumber + 1, b.timestamp) :=
    (runs_updateGlobalDynamicData h3).1
  have haslot := aslot_updateGlobalDynamicData h3
  have hhead2 : t2.dgpo.headBlockNumber = s.dgpo.headBlockNumber := congrArg (fun x => x.1.1) hops.1
  have haslot2 : t2.dgpo.currentAslot = s.dgpo.currentAslot := congrArg Prod.snd hops.1
  have hclock' : s'.clock = t3.clock := congrArg Prod.fst hrest
  have haslot' : s'.dgpo.currentAslot = t3.dgpo.currentAslot := congrArg Prod.snd hrest
  refine ⟨hlater, hslot, hsched, ?_, ?_, ?_⟩
  · rw [← hhead2]
    exact congrArg Prod.fst (hclock'.trans hclock)
  · exact congrArg Prod.snd (hclock'.trans hclock)
  · rw [haslot', haslot, haslot2, slotAtTime_congr hops.1]

end Block

/-! ## Chains -/

section Chains

variable {s s' : Database}

/-- The number of the slot that genesis is in. -/
def genesisSlot : ℕ := 1585422000 / 3

/-- The three views of a slot agree: the absolute number, the time of the head, and, at block 0,
the time of genesis. -/
structure Database.InSlot (s : Database) : Prop where
  aslot : s.dgpo.currentAslot.toNat + genesisSlot = s.dgpo.time.toNat / 3
  genesis : s.dgpo.headBlockNumber = 0 → s.dgpo.time = 1585422000
  paced : s.dgpo.headBlockNumber.toNat + 1585422000 ≤ s.dgpo.time.toNat

/-- The slot of the head begins at a multiple of three, also at genesis. -/
theorem Database.InSlot.start (h : s.InSlot) : s.slotStart = s.dgpo.time.toNat / 3 * 3 := by
  unfold Database.slotStart
  split
  case isTrue hzero =>
    rw [h.genesis hzero]
    rfl
  case isFalse => rfl

/-- After a block, the absolute slot is that of its timestamp. -/
theorem Database.InSlot.ticked {b : SignedBlock} (h : s.InSlot) (hb : Ticked b s s') : s'.InSlot := by
  have hlater : s.dgpo.time.toNat < b.timestamp.toNat := UInt32.lt_iff_toNat_lt.mp hb.later
  have htime := b.timestamp.toNat_lt
  have hstart := h.start
  have haslot := h.aslot
  have hpaced := h.paced
  have hslot : (s.slotAtTime b.timestamp).toNat = (b.timestamp.toNat - s.slotStart) / 3 :=
    toNat_slotAtTime (by omega) b.timestamp
  have hhead : s'.dgpo.headBlockNumber.toNat = s.dgpo.headBlockNumber.toNat + 1 := by
    rw [hb.head, UInt32.toNat_add]
    exact Nat.mod_eq_of_lt (by show s.dgpo.headBlockNumber.toNat + 1 < 2 ^ 32; omega)
  refine ⟨?_, fun hzero => ?_, ?_⟩
  · rw [hb.aslot, hb.time, UInt64.toNat_add, UInt32.toNat_toUInt64, hslot, hstart]
    omega
  · rw [hzero] at hhead
    cases hhead
  · rw [hhead, hb.time]
    omega

/-- From one block to the next, time passes by a slot at least. -/
theorem Database.InSlot.slot_lt {b : SignedBlock} (h : s.InSlot) (hb : Ticked b s s') :
    s.dgpo.time.toNat / 3 < b.timestamp.toNat / 3 := by
  have hlater : s.dgpo.time.toNat < b.timestamp.toNat := UInt32.lt_iff_toNat_lt.mp hb.later
  have htime := b.timestamp.toNat_lt
  have hstart := h.start
  have hslot : (s.slotAtTime b.timestamp).toNat = (b.timestamp.toNat - s.slotStart) / 3 :=
    toNat_slotAtTime (by omega) b.timestamp
  have hpos : 0 < (s.slotAtTime b.timestamp).toNat := UInt32.lt_iff_toNat_lt.mp hb.slot
  omega

variable [Externals]

theorem initGenesis_inSlot {g : GenesisState} (h : Runs (initGenesis g) {} () s) : s.InSlot := by
  simp only [initGenesis, runs_bind] at h
  obtain ⟨_, t1, h1, _, t2, h2, _, t3, h3, _, t4, h4, _, t5, h5, _, t6, h6, _, t7, h7, _, t8, h8,
    _, t9, h9, _, t10, h10, _, t11, h11, _, t12, h12, _, t13, h13, _, t14, h14, h15⟩ := h
  have himport : Writes (g.initialAssets.forM importAsset) [.funds] :=
    ⟨by unfold importAsset; infer_instance⟩
  have hbalance : Writes (g.initialBalances.forM importBalance) [.funds] :=
    ⟨by unfold importBalance; infer_instance⟩
  have hvesting : Writes (g.initialVestingBalances.forM importVesting) [.funds, .stakes, .voting] :=
    ⟨by unfold importVesting; infer_instance⟩
  have haccounts : Writes (g.initialAccounts.forM fun a => accountCreateEvaluator a.operation)
      [.funds, .stakes, .listening, .names, .voting, .laps, .redelegations] := ⟨by infer_instance⟩
  have hticks : s.ticks = t7.ticks := by
    rw [Writes.ticks_eq h15 (by decide) (by decide), Writes.ticks_eq h14 (by decide) (by decide),
      Writes.ticks_eq h13 (by decide) (by decide), Writes.ticks_eq h12 (by decide) (by decide),
      Writes.ticks_eq h11 (by decide) (by decide), Writes.ticks_eq h10 (by decide) (by decide),
      Writes.ticks_eq h9 (by decide) (by decide), Writes.ticks_eq h8 (by decide) (by decide)]
  have hset : t7.ticks = ((0, 1585422000), 0) := by
    obtain ⟨d, hd, rfl⟩ := runs_modifyDgpo.mp h7
    obtain rfl := Except.ok.inj hd
    rfl
  have hhead : s.dgpo.headBlockNumber = 0 := congrArg (fun x => x.1.1) (hticks.trans hset)
  have htime : s.dgpo.time = 1585422000 := congrArg (fun x => x.1.2) (hticks.trans hset)
  have haslot : s.dgpo.currentAslot = 0 := congrArg Prod.snd (hticks.trans hset)
  refine ⟨?_, fun _ => htime, ?_⟩
  · rw [haslot, htime]
    rfl
  · rw [hhead, htime]
    decide

/-- Blocks in a row keep the three views together, and each of them is in a later slot than
the head before it. -/
theorem applyBlocks_inSlot {blocks : List SignedBlock} (hr : Reachable s) (hs : s.InSlot)
    (h : Runs (blocks.forM applyBlock) s () s') :
    s'.InSlot ∧ ∀ c ∈ blocks, s.dgpo.time.toNat / 3 < c.timestamp.toNat / 3 := by
  induction blocks generalizing s with
  | nil =>
      obtain ⟨-, rfl⟩ := runs_pure.mp h
      exact ⟨hs, fun c hc => absurd hc List.not_mem_nil⟩
  | cons b blocks ih =>
      obtain ⟨_, t, hb, hrest⟩ := runs_bind.mp h
      have hticked := applyBlock_ticked hr.proposalsValid hb
      obtain ⟨hend, hlater⟩ := ih (applyBlock_reachable hr hb) (hs.ticked hticked) hrest
      have hfirst := hs.slot_lt hticked
      refine ⟨hend, fun c hc => ?_⟩
      rcases List.mem_cons.mp hc with rfl | hc
      · exact hfirst
      · have hnext := hlater c hc
        rw [hticked.time] at hnext
        exact hfirst.trans hnext

theorem replay_inSlot {g : GenesisState} {blocks : List SignedBlock}
    (h : Runs (replay g blocks) {} () s) : s.InSlot := by
  obtain ⟨_, s0, hg, hblocks⟩ := runs_bind.mp h
  exact (applyBlocks_inSlot (.genesis hg) (initGenesis_inSlot hg) hblocks).1

/-- Slots and times are inverse in every head state. Along every chain the absolute slot is the
number of whole slots since genesis; a block is signed by the witness its parent state schedules
for its slot, and later blocks are in later slots. -/
theorem slots_agree {g : GenesisState} {before after : List SignedBlock} {b : SignedBlock}
    {t u : Database} (hs : Runs (replay g before) {} () s) (hb : Runs (applyBlock b) s () t)
    (ha : Runs (after.forM applyBlock) t () u) :
    s.SlotsAndTimes ∧
      s.dgpo.currentAslot.toNat + 1585422000 / 3 = s.dgpo.time.toNat / 3 ∧
      t.dgpo.currentAslot.toNat + 1585422000 / 3 = b.timestamp.toNat / 3 ∧
      0 < s.slotAtTime b.timestamp ∧
      Runs (getScheduledWitness (s.slotAtTime b.timestamp)) s b.witness s ∧
      ∀ c ∈ after, b.timestamp.toNat / 3 < c.timestamp.toNat / 3 := by
  have hr := replay_reachable hs
  have hin := replay_inSlot hs
  have hticked := applyBlock_ticked hr.proposalsValid hb
  have hnext := hin.ticked hticked
  obtain ⟨-, hlater⟩ := applyBlocks_inSlot (applyBlock_reachable hr hb) hnext ha
  have haslot := hnext.aslot
  rw [hticked.time] at haslot hlater
  exact ⟨slotsAndTimes s, hin.aslot, haslot, hticked.slot, hticked.scheduled, hlater⟩

end Chains

section Samples

open Sample

/-- An unaligned block after two missed slots: it is in the fourth slot after genesis. -/
theorem unaligned_block_in_slot : ∃ s t : Database,
    Runs (replay {} (quietChain 1)) {} () s ∧ Runs (applyBlock ⟨"initminer", 1585422014, []⟩) s () t ∧
      t.dgpo.currentAslot.toNat = 4 := by
  have hrun : leadsTo (replay {} (quietChain 1)) {} (fun s =>
      leadsTo (applyBlock ⟨"initminer", 1585422014, []⟩) s fun _ => true) = true := by
    decide +kernel
  obtain ⟨s, hs, hrun⟩ := leadsTo_iff.mp hrun
  obtain ⟨t, ht, -⟩ := leadsTo_iff.mp hrun
  have hnone : Runs (([] : List SignedBlock).forM applyBlock) t () t := runs_pure.mpr ⟨rfl, rfl⟩
  have haslot := (slots_agree hs ht hnone).2.2.1
  have htime : (1585422014 : UInt32).toNat = 1585422014 := rfl
  rw [show (⟨"initminer", 1585422014, []⟩ : SignedBlock).timestamp = 1585422014 from rfl,
    htime] at haslot
  exact ⟨s, t, hs, ht, by omega⟩

end Samples

end BtcmChain
