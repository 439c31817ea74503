import BtcmChain.Chain.Run
import BtcmChain.Lib.Median

set_option autoImplicit false

/-!
# The last irreversible block

Before `BTCM_START_MINER_VOTING_BLOCK` the irreversible block trails the head by
`BTCM_MAX_MINERS`; from then on it is a block that 51% of the scheduled witnesses have
signed, or a block on top of it. Either way it never moves back and stays below the head.

What carries the argument is a relation between the `clock` and the `finality` of a state
(`FinalityOk`): nobody has signed beyond the head, and while the early rule applies the
irreversible number is exactly what that rule computes. Operations keep it, since a new
witness has signed nothing. The head number does not wrap around, because every block takes
the clock further than itself.
-/

namespace BtcmChain

/-! ## The invariant -/

/-- How the finality of a state fits its clock: nothing beyond the head is irreversible, confirmed,
or signed. -/
structure FinalityOk (clock : UInt32 × TimePointSec) (f : UInt32 × FlatMap Nat UInt64) : Prop where
  le_head : f.1.toNat ≤ clock.1.toNat
  signed : ∀ id n, f.2.find? id = some n → n.toNat ≤ clock.1.toNat
  early : clock.1 < BTCM_START_MINER_VOTING_BLOCK → f.1.toNat = clock.1.toNat - 21
  paced : clock.1.toNat ≤ clock.2.toNat

/-- Nothing happened to finality, except that there may be witnesses who have signed nothing. -/
structure AddsUnsigned (s t : Database) : Prop where
  clock : t.clock = s.clock
  last : t.finality.1 = s.finality.1
  signed : ∀ id n, t.finality.2.find? id = some n → n = 0 ∨ s.finality.2.find? id = some n

theorem AddsUnsigned.of_eq {s t : Database} (hc : t.clock = s.clock) (hf : t.finality = s.finality) :
    AddsUnsigned s t :=
  ⟨hc, congrArg Prod.fst hf, fun _ _ h => .inr (hf ▸ h)⟩

theorem AddsUnsigned.trans {s t u : Database} (h1 : AddsUnsigned s t) (h2 : AddsUnsigned t u) :
    AddsUnsigned s u where
  clock := h2.clock.trans h1.clock
  last := h2.last.trans h1.last
  signed id n hn := (h2.signed id n hn).elim .inl (h1.signed id n)

theorem FinalityOk.grow {s t : Database} (h : FinalityOk s.clock s.finality)
    (hst : AddsUnsigned s t) : FinalityOk t.clock t.finality := by
  rw [hst.clock]
  refine ⟨hst.last ▸ h.le_head, fun id n hn => ?_, hst.last ▸ h.early, h.paced⟩
  rcases hst.signed id n hn with rfl | hn
  · exact Nat.zero_le _
  · exact h.signed id n hn

/-- A new witness has not signed any block, so it adds one to those who have not. -/
theorem addsUnsigned_create {s : Database} {w : WitnessObject} (hw : w.lastConfirmedBlockNum = 0) :
    AddsUnsigned s { s with witnesses := s.witnesses.create w } := by
  refine ⟨rfl, rfl, fun id n hn => ?_⟩
  simp only [Database.finality, FlatMap.find?_mapVals, Option.map_eq_some_iff] at hn
  obtain ⟨x, hx, rfl⟩ := hn
  have hx : (s.witnesses.create w).find? id = some x := hx
  rw [ObjectIndex.find?_create] at hx
  split at hx
  · obtain rfl := Option.some.inj hx
    exact .inl hw
  · refine .inr ?_
    simp only [Database.finality, FlatMap.find?_mapVals, Option.map_eq_some_iff]
    exact ⟨x, hx, rfl⟩

/-! ## Operations and genesis -/

section Operations

variable [Externals]

theorem evaluate_addsUnsigned {push : Nat → DbM Unit} {op : Operation} {s s' : Database}
    (hop : op.isProposalUpdate = false) (h : Runs (evaluate push op) s () s') :
    AddsUnsigned s s' := by
  have hclock : s'.clock = s.clock := evaluate_same (i := .clock) hop (by cases op <;> rfl) h
  cases hi : op.writes .finality with
  | false => exact .of_eq hclock (evaluate_same (i := .finality) hop hi h)
  | true =>
      cases op <;> first | exact (Bool.false_ne_true hi).elim | skip
      case witnessUpdate o =>
        simp only [evaluate, witnessUpdateEvaluator, runs_bind_getAccount, runs_bind_require,
          runs_bind_findBy?, runs_bind_headBlockTime] at h
        obtain ⟨_, -, -, h⟩ := h
        cases hw : (witnessIndex.read s).findBy? (fun w => decide (w.owner = o.owner)) with
        | none =>
            simp only [hw, Option.map_none, Option.elim_none, runs_bind_create, runs_pure] at h
            obtain ⟨-, -, rfl⟩ := h
            exact addsUnsigned_create rfl
        | some e =>
            simp only [hw, Option.map_some, Option.elim_some] at h
            refine .of_eq hclock ?_
            -- url, key and properties of a witness have nothing to do with what it signed
            have hkeeps := within_modifyWitness (D := [.rates, .voting, .laps]) e.1
              (fun w => .ok { w with url := o.url, signingKey := o.blockSigningKey, props := o.props })
              (fun hi => absurd (by simp) hi) (fun hi => absurd (by simp) hi)
              (fun _ w w' hw => by cases hw; rfl) fun hi => absurd (by simp) hi
            exact hkeeps.same (i := .finality) (by decide) h

omit [Externals] in
theorem createInitMiner_addsUnsigned {s s' : Database} {name : String} {balance : ShareType}
    (h : Runs (createInitMiner name balance) s () s') : AddsUnsigned s s' := by
  simp only [createInitMiner] at h
  obtain ⟨_, t, haccount, h⟩ := runs_bind.mp h
  have hfirst : AddsUnsigned s t :=
    .of_eq (Writes.clock_eq haccount (by decide)) (Writes.finality_eq haccount (by decide))
  simp only [runs_bind_create, runs_pure] at h
  obtain ⟨-, -, rfl⟩ := h
  exact hfirst.trans (addsUnsigned_create rfl)

/-- After genesis the head is block 0, and nobody has signed anything. -/
theorem initGenesis_finalityOk {g : GenesisState} {s : Database}
    (h : Runs (initGenesis g) {} () s) : FinalityOk s.clock s.finality := by
  simp only [initGenesis] at h
  simp only [runs_bind] at h
  obtain ⟨_, t1, h1, _, t2, h2, _, t3, h3, _, t4, h4, _, t5, h5, _, t6, h6, _, t7, h7, _, t8, h8,
    _, t9, h9, _, t10, h10, _, t11, h11, _, t12, h12, _, t13, h13, _, t14, h14, h15⟩ := h
  have hearly : ∀ id n, t3.finality.2.find? id ≠ some n := by
    intro id n hn
    rw [Writes.finality_eq h3 (by decide), Writes.finality_eq h2 (by decide),
      Writes.finality_eq h1 (by decide)] at hn
    cases hn
  have hminers : AddsUnsigned t3 t6 := ((createInitMiner_addsUnsigned h4).trans
    (createInitMiner_addsUnsigned h5)).trans (createInitMiner_addsUnsigned h6)
  have hstart : FinalityOk t7.clock t7.finality := by
    obtain ⟨d, hd, rfl⟩ := runs_modifyDgpo.mp h7
    obtain rfl := Except.ok.inj hd
    refine ⟨Nat.zero_le _, fun id n hn => ?_, fun _ => rfl, Nat.zero_le _⟩
    rcases hminers.signed id n hn with rfl | hn
    · exact Nat.zero_le _
    · exact absurd hn (hearly id n)
  have himport : Writes (g.initialAssets.forM importAsset) [.funds] :=
    ⟨by unfold importAsset; infer_instance⟩
  have hbalance : Writes (g.initialBalances.forM importBalance) [.funds] :=
    ⟨by unfold importBalance; infer_instance⟩
  have hvesting : Writes (g.initialVestingBalances.forM importVesting) [.funds, .stakes, .voting] :=
    ⟨by unfold importVesting; infer_instance⟩
  have haccounts : Writes (g.initialAccounts.forM fun a => accountCreateEvaluator a.operation)
      [.funds, .stakes, .listening, .names, .voting, .laps, .redelegations] := ⟨by infer_instance⟩
  have hclock : s.clock = t7.clock := by
    rw [Writes.clock_eq h15 (by decide), Writes.clock_eq h14 (by decide),
      Writes.clock_eq h13 (by decide), Writes.clock_eq h12 (by decide),
      Writes.clock_eq h11 (by decide), Writes.clock_eq h10 (by decide),
      Writes.clock_eq h9 (by decide), Writes.clock_eq h8 (by decide)]
  have hfinality : s.finality = t7.finality := by
    rw [Writes.finality_eq h15 (by decide), Writes.finality_eq h14 (by decide),
      Writes.finality_eq h13 (by decide), Writes.finality_eq h12 (by decide),
      Writes.finality_eq h11 (by decide), Writes.finality_eq h10 (by decide),
      Writes.finality_eq h9 (by decide), Writes.finality_eq h8 (by decide)]
  exact hstart.grow (.of_eq hclock hfinality)

end Operations

/-! ## The vote of the witnesses -/

/-- The last block the witness of that name has signed. -/
def Database.confirmedBy (s : Database) (name : String) : Option UInt64 :=
  (s.witnesses.findBy? (·.owner = name)).map fun w => w.2.lastConfirmedBlockNum

/-- At least 51% of the seats in the schedule have confirmed block `v`. -/
def Database.Quorum (s : Database) (v : Nat) : Prop :=
  51 * s.witnessSchedule.currentShuffledWitnesses.length ≤
    100 * s.witnessSchedule.currentShuffledWitnesses.countP fun name =>
      (s.confirmedBy name).any fun n => v ≤ n.toNat

/-- Every seat is read once, in the order of the schedule. -/
theorem runs_confirmedBlocks {s s' : Database} {nums : List UInt64}
    (h : Runs confirmedBlocks s nums s') :
    s' = s ∧ s.witnessSchedule.currentShuffledWitnesses.map s.confirmedBy = nums.map some := by
  simp only [confirmedBlocks, runs_bind_reads] at h
  generalize s.witnessSchedule.currentShuffledWitnesses = names at h ⊢
  -- induction on the seats still to be read, from what has been read before
  suffices hfrom : ∀ acc, Runs (names.foldlM (fun (nums : List UInt64) name => do
      let w ← getWitness name
      return nums ++ [w.val.lastConfirmedBlockNum]) acc) s nums s' →
      s' = s ∧ acc.map some ++ names.map s.confirmedBy = nums.map some from hfrom [] h
  clear h
  induction names with
  | nil =>
      intro acc h
      obtain ⟨rfl, rfl⟩ := runs_pure.mp h
      exact ⟨rfl, List.append_nil _⟩
  | cons name names ih =>
      intro acc h
      rw [List.foldlM_cons] at h
      obtain ⟨acc', t, h1, h2⟩ := runs_bind.mp h
      simp only [getWitness, runs_bind_getBy, runs_pure] at h1
      obtain ⟨e, he, rfl, rfl⟩ := h1
      obtain ⟨rfl, hmap⟩ := ih _ h2
      have hname : s'.confirmedBy name = some e.val.lastConfirmedBlockNum :=
        Option.map_eq_some_iff.mpr ⟨_, he, rfl⟩
      refine ⟨rfl, ?_⟩
      rw [← hmap, List.map_cons, hname, List.map_append, List.append_assoc]
      rfl

/-- The number that is selected has 51% of the entries at or above it. -/
theorem irreversibleNum_quorum {confirmed : List UInt64} {num : UInt64}
    (h : irreversibleNum confirmed = some num) :
    num ∈ confirmed ∧ 51 * confirmed.length ≤ 100 * confirmed.countP (num ≤ ·) := by
  have hsorted : (confirmed.insertionSort fun a b => a ≤ b).Pairwise fun a b => a ≤ b :=
    List.pairwise_insertionSort _ _
  have hperm := List.perm_insertionSort (fun a b : UInt64 => a ≤ b) confirmed
  refine ⟨(List.mem_insertionSort _).mp (List.mem_of_getElem? h), ?_⟩
  have hcount := length_sub_le_countP hsorted UInt64.le_refl h
  rw [hperm.countP_eq, hperm.length_eq] at hcount
  omega

/-- `update_last_irreversible_block`: the early rule, or the vote of the witnesses if that
takes it further. -/
theorem runs_updateLastIrreversibleBlock {s s' : Database}
    (h : Runs updateLastIrreversibleBlock s () s') :
    ∃ v, s' = { s with dgpo := { s.dgpo with lastIrreversibleBlockNum := v } } ∧
      (s.dgpo.headBlockNumber < BTCM_START_MINER_VOTING_BLOCK ∧
          v = (if BTCM_MAX_MINERS < s.dgpo.headBlockNumber
            then s.dgpo.headBlockNumber - BTCM_MAX_MINERS else s.dgpo.lastIrreversibleBlockNum) ∨
        ¬s.dgpo.headBlockNumber < BTCM_START_MINER_VOTING_BLOCK ∧ ∃ nums num,
          s.witnessSchedule.currentShuffledWitnesses.map s.confirmedBy = nums.map some ∧
          irreversibleNum nums = some num ∧
          v = if s.dgpo.lastIrreversibleBlockNum < num.toUInt32 then num.toUInt32
            else s.dgpo.lastIrreversibleBlockNum) := by
  simp only [updateLastIrreversibleBlock, runs_bind_reads, runs_ite] at h
  rcases h with ⟨hhead, h⟩ | ⟨hhead, h⟩
  · rcases runs_whenM.mp h with ⟨hmin, h⟩ | ⟨hmin, rfl⟩
    · obtain ⟨d, hd, rfl⟩ := runs_modifyDgpo.mp h
      obtain rfl := Except.ok.inj hd
      exact ⟨_, rfl, .inl ⟨hhead, (if_pos (of_decide_eq_true hmin)).symm⟩⟩
    · exact ⟨_, rfl, .inl ⟨hhead, (if_neg (of_decide_eq_false hmin)).symm⟩⟩
  · rw [runs_bind] at h
    obtain ⟨nums, t, h1, h⟩ := h
    obtain ⟨rfl, hnums⟩ := runs_confirmedBlocks h1
    rw [runs_bind_reads] at h
    cases hnum : irreversibleNum nums with
    | none =>
        rw [hnum] at h
        exact absurd h runs_throw
    | some num =>
        rw [hnum] at h
        rcases runs_whenM.mp h with ⟨hlt, h⟩ | ⟨hlt, rfl⟩
        · obtain ⟨d, hd, rfl⟩ := runs_modifyDgpo.mp h
          obtain rfl := Except.ok.inj hd
          exact ⟨_, rfl, .inr ⟨hhead, nums, num, hnums, hnum,
            (if_pos (of_decide_eq_true hlt)).symm⟩⟩
        · exact ⟨_, rfl, .inr ⟨hhead, nums, num, hnums, hnum,
            (if_neg (of_decide_eq_false hlt)).symm⟩⟩

/-! ## Blocks -/

section Blocks

variable [Externals]

/-- `_apply_block` up to the point where its witness has confirmed the block. -/
def confirmBlock (b : SignedBlock) : DbM Unit := do
  startBlock b
  b.transactions.forM applyTransaction
  updateGlobalDynamicData b.witness b.timestamp
  updateSigningWitness b.witness b.timestamp

/-- What `_apply_block` does once the irreversible block is known, less what comes before. -/
def concludeBlock : DbM Unit := do
  clearExpiredProposals
  settleBlock
  accountRecoveryProcessing

theorem applyBlock_eq (b : SignedBlock) : applyBlock b = (do
    confirmBlock b
    updateLastIrreversibleBlock
    concludeBlock) := by
  simp only [applyBlock, finishBlock, confirmBlock, concludeBlock, bind_assoc]

/-- A state after the witness has confirmed the block and before that counts. -/
structure Confirmed (s t : Database) : Prop where
  head : t.dgpo.headBlockNumber.toNat = s.dgpo.headBlockNumber.toNat + 1
  last : t.dgpo.lastIrreversibleBlockNum = s.dgpo.lastIrreversibleBlockNum
  signed : ∀ id n, t.finality.2.find? id = some n → n.toNat ≤ t.dgpo.headBlockNumber.toNat
  paced : t.dgpo.headBlockNumber.toNat ≤ t.dgpo.time.toNat

omit [Externals] in
/-- `update_signing_witness` writes down the head block as confirmed, for one witness. -/
theorem runs_updateSigningWitness {p : String} {time : TimePointSec} {s s' : Database}
    (h : Runs (updateSigningWitness p time) s () s') :
    s'.clock = s.clock ∧ s'.finality.1 = s.finality.1 ∧ ∀ id n, s'.finality.2.find? id = some n →
      n = s.dgpo.headBlockNumber.toUInt64 ∨ s.finality.2.find? id = some n := by
  refine ⟨Writes.clock_eq h (by decide), ?_⟩
  simp only [updateSigningWitness, getWitness, runs_bind_getBy, runs_bind_reads,
    Table.runs_modify, Except.ok.injEq] at h
  obtain ⟨e, -, w, w', hw, rfl, rfl⟩ := h
  refine ⟨rfl, fun id n hn => ?_⟩
  simp only [Database.finality, FlatMap.find?_mapVals, Option.map_eq_some_iff] at hn ⊢
  obtain ⟨x, hx, rfl⟩ := hn
  have hx : (s.witnesses.update e.id fun _ => _).find? id = some x := hx
  rw [ObjectIndex.find?_update] at hx
  split at hx
  · obtain ⟨_, -, rfl⟩ := Option.map_eq_some_iff.mp hx
    exact .inl rfl
  · exact .inr ⟨x, hx, rfl⟩

omit [Externals] in
/-- `update_global_dynamic_data` counts the block, takes over its time, and leaves the finality
alone. -/
theorem runs_updateGlobalDynamicData {p : String} {time : TimePointSec} {s s' : Database}
    (h : Runs (updateGlobalDynamicData p time) s () s') :
    s'.clock = (s.dgpo.headBlockNumber + 1, time) ∧ s'.finality = s.finality := by
  refine ⟨?_, Writes.finality_eq h (by decide)⟩
  have hmiss : ∀ n : Nat, Writes ((List.range n).forM fun i => missSlot p (i + 1)) [] :=
    fun n => ⟨inferInstance⟩
  simp only [updateGlobalDynamicData, runs_bind_reads, runs_bind_require] at h
  obtain ⟨-, h⟩ := h
  rw [runs_bind] at h
  obtain ⟨_, t1, h1, h⟩ := h
  rw [runs_bind_reads, runs_bind] at h
  obtain ⟨_, t2, h2, h⟩ := h
  rw [runs_bind] at h
  obtain ⟨_, t3, h3, h⟩ := h
  simp only [runs_bind_reads, runs_require] at h
  obtain ⟨-, rfl⟩ := h
  have hhead : t1.clock = s.clock := Writes.clock_eq h1 (by decide)
  have hset : t2.clock = (t1.dgpo.headBlockNumber + 1, time) := by
    obtain ⟨d, hd, rfl⟩ := runs_modifyDgpo.mp h2
    obtain rfl := Except.ok.inj hd
    rfl
  rw [Writes.clock_eq h3 (by decide), hset]
  exact congrArg (fun n => (n + 1, time)) (congrArg Prod.fst hhead)

theorem runs_confirmBlock {b : SignedBlock} {s t : Database}
    (hs : FinalityOk s.clock s.finality) (hv : ProposalsValid s)
    (h : Runs (confirmBlock b) s () t) : Confirmed s t ∧ ProposalsValid t := by
  simp only [confirmBlock] at h
  rw [runs_bind] at h
  obtain ⟨_, t1, h1, h⟩ := h
  rw [runs_bind] at h
  obtain ⟨_, t2, h2, h⟩ := h
  rw [runs_bind] at h
  obtain ⟨_, t3, h3, h4⟩ := h
  have hlater : s.dgpo.time < b.timestamp := by
    simp only [startBlock, runs_bind_headBlockTime, runs_bind_require] at h1
    exact of_decide_eq_true h1.1
  have hstart : AddsUnsigned s t1 :=
    .of_eq (Writes.clock_eq h1 (by decide)) (Writes.finality_eq h1 (by decide))
  have hops : AddsUnsigned s t2 ∧ ProposalsValid t2 :=
    forM_induction (P := fun t => AddsUnsigned s t ∧ ProposalsValid t)
      (fun ops _ u v hu hr => applyTransaction_induction (P := AddsUnsigned s)
        (fun u x hu => hu.trans (.of_eq rfl rfl))
        (fun push op u v hop _ hu hr => hu.trans (evaluate_addsUnsigned hop hr)) hr hu) h2
      ⟨hstart, hv.congr (Writes.proposals_eq h1 (by decide))⟩
  obtain ⟨hclock3, hfinal3⟩ := runs_updateGlobalDynamicData h3
  obtain ⟨hclock4, hlast4, hsigned4⟩ := runs_updateSigningWitness h4
  -- the clock is ahead of the head block, so there is room for one more
  have hhead2 : t2.dgpo.headBlockNumber = s.dgpo.headBlockNumber :=
    congrArg Prod.fst hops.1.clock
  have hroom : s.dgpo.headBlockNumber.toNat + 1 ≤ b.timestamp.toNat := by
    have hpaced := hs.paced
    have hlt := UInt32.lt_iff_toNat_lt.mp hlater
    exact Nat.le_trans (Nat.succ_le_succ hpaced) hlt
  have hhead3 : t3.dgpo.headBlockNumber.toNat = s.dgpo.headBlockNumber.toNat + 1 := by
    have h3 : t3.dgpo.headBlockNumber = t2.dgpo.headBlockNumber + 1 := congrArg Prod.fst hclock3
    rw [h3, hhead2, UInt32.toNat_add]
    exact Nat.mod_eq_of_lt (Nat.lt_of_le_of_lt hroom b.timestamp.toNat_lt)
  have hhead4 : t.dgpo.headBlockNumber = t3.dgpo.headBlockNumber := congrArg Prod.fst hclock4
  have htime4 : t.dgpo.time = b.timestamp :=
    (congrArg Prod.snd hclock4).trans (congrArg Prod.snd hclock3)
  refine ⟨⟨hhead4 ▸ hhead3, ?_, fun id n hn => ?_, ?_⟩, ?_⟩
  · exact hlast4.trans ((congrArg Prod.fst hfinal3).trans hops.1.last)
  · rw [hhead4]
    rcases hsigned4 id n hn with rfl | hn
    · exact Nat.le_of_eq (UInt32.toNat_toUInt64 _)
    · rw [hfinal3] at hn
      have hle := (hs.grow hops.1).signed id n hn
      have hhead2 : t2.clock.1 = s.dgpo.headBlockNumber := hhead2
      rw [hhead2] at hle
      omega
  · rw [hhead4, hhead3, htime4]
    exact hroom
  · exact (hops.2.congr (Writes.proposals_eq h3 (by decide))).congr (Writes.proposals_eq h4 (by decide))

omit [Externals] in
/-- A witness that the schedule names has signed no more than the head. -/
theorem Confirmed.num_le {s t : Database} (h : Confirmed s t) {nums : List UInt64} {num : UInt64}
    (hnums : t.witnessSchedule.currentShuffledWitnesses.map t.confirmedBy = nums.map some)
    (hmem : num ∈ nums) : num.toNat ≤ t.dgpo.headBlockNumber.toNat := by
  have hsome : some num ∈ t.witnessSchedule.currentShuffledWitnesses.map t.confirmedBy := by
    rw [hnums]
    exact List.mem_map_of_mem hmem
  obtain ⟨name, -, hname⟩ := List.mem_map.mp hsome
  obtain ⟨⟨id, w⟩, hw, rfl⟩ := Option.map_eq_some_iff.mp hname
  refine h.signed id _ ?_
  simp only [Database.finality, FlatMap.find?_mapVals, Option.map_eq_some_iff]
  exact ⟨w, (ObjectIndex.find?_of_findBy? hw).1, rfl⟩

omit [Externals] in
/-- If the vote takes the irreversible block further, then there is a quorum for it. -/
theorem Confirmed.quorum {s t : Database} (h : Confirmed s t) {nums : List UInt64} {num : UInt64}
    (hnums : t.witnessSchedule.currentShuffledWitnesses.map t.confirmedBy = nums.map some)
    (hnum : irreversibleNum nums = some num) : t.Quorum num.toUInt32.toNat := by
  obtain ⟨hmem, hcount⟩ := irreversibleNum_quorum hnum
  have hlen := congrArg List.length hnums
  rw [List.length_map, List.length_map] at hlen
  have hsame : nums.countP (num ≤ ·) =
      t.witnessSchedule.currentShuffledWitnesses.countP fun name =>
        (t.confirmedBy name).any fun n => num.toNat ≤ n.toNat := by
    have hmap : (nums.map some).countP (fun o => o.any fun n => num.toNat ≤ n.toNat) =
        nums.countP (num ≤ ·) := List.countP_map
    rw [← hmap, ← hnums, List.countP_map]
    rfl
  have hfits : num.toUInt32.toNat = num.toNat := by
    rw [UInt64.toNat_toUInt32]
    exact Nat.mod_eq_of_lt (Nat.lt_of_le_of_lt (h.num_le hnums hmem) t.dgpo.headBlockNumber.toNat_lt)
  rw [Database.Quorum, hfits, hlen, ← hsame]
  exact hcount

omit [Externals] in
/-- What `update_last_irreversible_block` makes of a state in which the block has just been
confirmed. -/
theorem updateLastIrreversibleBlock_step {s t t' : Database}
    (hs : FinalityOk s.clock s.finality) (ht : Confirmed s t)
    (h : Runs updateLastIrreversibleBlock t () t') :
    FinalityOk t'.clock t'.finality ∧
      s.dgpo.lastIrreversibleBlockNum ≤ t'.dgpo.lastIrreversibleBlockNum ∧
      (BTCM_START_MINER_VOTING_BLOCK ≤ t'.dgpo.headBlockNumber →
        s.dgpo.lastIrreversibleBlockNum < t'.dgpo.lastIrreversibleBlockNum →
        t'.Quorum t'.dgpo.lastIrreversibleBlockNum.toNat) := by
  obtain ⟨v, rfl, hv⟩ := runs_updateLastIrreversibleBlock h
  have hlast := ht.last
  have hhead := ht.head
  have hle : s.dgpo.lastIrreversibleBlockNum.toNat ≤ s.dgpo.headBlockNumber.toNat := hs.le_head
  have hstart : BTCM_START_MINER_VOTING_BLOCK.toNat = 28800 := rfl
  have hminers : BTCM_MAX_MINERS.toNat = 21 := rfl
  rcases hv with ⟨hearly, rfl⟩ | ⟨hlate, nums, num, hnums, hnum, rfl⟩
  · -- the early rule computes the invariant's number
    have hearly' := UInt32.lt_iff_toNat_lt.mp hearly
    have hbefore : s.dgpo.lastIrreversibleBlockNum.toNat = s.dgpo.headBlockNumber.toNat - 21 :=
      hs.early (UInt32.lt_iff_toNat_lt.mpr (show s.dgpo.headBlockNumber.toNat < _ by omega))
    generalize hw : (if BTCM_MAX_MINERS < t.dgpo.headBlockNumber then
      t.dgpo.headBlockNumber - BTCM_MAX_MINERS else t.dgpo.lastIrreversibleBlockNum) = v
    have hv : v.toNat = t.dgpo.headBlockNumber.toNat - 21 := by
      rw [← hw]
      split
      case isTrue hlt =>
        have hlt := UInt32.lt_iff_toNat_lt.mp hlt
        rw [UInt32.toNat_sub_of_le _ _ (UInt32.le_iff_toNat_le.mpr (by omega)), hminers]
      case isFalse hlt =>
        have hge := Nat.le_of_not_lt fun hlt' => hlt (UInt32.lt_iff_toNat_lt.mpr hlt')
        rw [hlast, hbefore]
        omega
    refine ⟨⟨?_, ht.signed, fun _ => hv, ht.paced⟩, ?_, fun hge => ?_⟩
    · exact hv ▸ Nat.sub_le _ _
    · rw [UInt32.le_iff_toNat_le]
      show _ ≤ v.toNat
      omega
    · exact absurd hearly (UInt32.not_lt.mpr hge)
  · have hmem := (irreversibleNum_quorum hnum).1
    have hfits : num.toUInt32.toNat ≤ t.dgpo.headBlockNumber.toNat := by
      rw [UInt64.toNat_toUInt32]
      exact Nat.le_trans (Nat.mod_le _ _) (ht.num_le hnums hmem)
    split
    case isTrue hlt =>
      refine ⟨⟨hfits, ht.signed, fun h => absurd h hlate, ht.paced⟩, ?_, fun _ _ => ?_⟩
      · exact UInt32.le_of_lt (hlast ▸ hlt)
      · exact ht.quorum hnums hnum
    case isFalse hlt =>
      refine ⟨⟨?_, ht.signed, fun h => absurd h hlate, ht.paced⟩, ?_, fun _ hmore => ?_⟩
      · show t.dgpo.lastIrreversibleBlockNum.toNat ≤ t.dgpo.headBlockNumber.toNat
        rw [hlast]
        omega
      · exact UInt32.le_of_eq hlast.symm
      · exact absurd (hlast ▸ hmore) (UInt32.lt_irrefl _)

/-- Nothing that comes after it touches the irreversible block, or what witnesses have signed. -/
theorem concludeBlock_addsUnsigned {s s' : Database} (hv : ProposalsValid s)
    (h : Runs concludeBlock s () s') : AddsUnsigned s s' := by
  simp only [concludeBlock] at h
  rw [runs_bind] at h
  obtain ⟨_, t1, h1, h⟩ := h
  rw [runs_bind] at h
  obtain ⟨_, t2, h2, h3⟩ := h
  have hexpired : AddsUnsigned s t1 ∧ ProposalsValid t1 :=
    clearExpiredProposals_induction (P := AddsUnsigned s)
      (fun u x hu => hu.trans (.of_eq rfl rfl))
      (fun push op u v hop _ hu hr => hu.trans (evaluate_addsUnsigned hop hr)) h1
      ⟨.of_eq rfl rfl, hv⟩
  have hsettle : AddsUnsigned t1 t2 :=
    .of_eq (Writes.clock_eq h2 (by decide)) (Writes.finality_eq h2 (by decide))
  have hrecover : AddsUnsigned t2 s' :=
    .of_eq (Writes.clock_eq h3 (by decide)) (Writes.finality_eq h3 (by decide))
  exact (hexpired.1.trans hsettle).trans hrecover

/-- One block: the irreversible number does not move back, stays below the head, and moves
past the voting block only with a quorum. -/
theorem applyBlock_finality {b : SignedBlock} {s s' : Database}
    (hs : FinalityOk s.clock s.finality) (hv : ProposalsValid s) (h : Runs (applyBlock b) s () s') :
    FinalityOk s'.clock s'.finality ∧
      s.dgpo.lastIrreversibleBlockNum ≤ s'.dgpo.lastIrreversibleBlockNum ∧
      ∃ t t', Runs (confirmBlock b) s () t ∧ Runs updateLastIrreversibleBlock t () t' ∧
        Runs concludeBlock t' () s' ∧
        t'.dgpo.lastIrreversibleBlockNum = s'.dgpo.lastIrreversibleBlockNum ∧
        (BTCM_START_MINER_VOTING_BLOCK ≤ s'.dgpo.headBlockNumber →
          s.dgpo.lastIrreversibleBlockNum < s'.dgpo.lastIrreversibleBlockNum →
          t'.Quorum s'.dgpo.lastIrreversibleBlockNum.toNat) := by
  rw [applyBlock_eq, runs_bind] at h
  obtain ⟨_, t, h1, h⟩ := h
  rw [runs_bind] at h
  obtain ⟨_, t', h2, h3⟩ := h
  obtain ⟨ht, hvt⟩ := runs_confirmBlock hs hv h1
  obtain ⟨hok, hle, hquorum⟩ := updateLastIrreversibleBlock_step hs ht h2
  have hrest := concludeBlock_addsUnsigned (hvt.congr (Writes.proposals_eq h2 (by decide))) h3
  have hlast : s'.dgpo.lastIrreversibleBlockNum = t'.dgpo.lastIrreversibleBlockNum := hrest.last
  have hhead : s'.dgpo.headBlockNumber = t'.dgpo.headBlockNumber := congrArg Prod.fst hrest.clock
  refine ⟨hok.grow hrest, hlast ▸ hle, t, t', h1, h2, h3, hlast.symm, ?_⟩
  rw [hlast, hhead]
  exact hquorum

/-- Blocks in a row keep the finality fitting, and the irreversible block only goes up. -/
theorem applyBlocks_finality {blocks : List SignedBlock} {s s' : Database}
    (hr : Reachable s) (hs : FinalityOk s.clock s.finality)
    (h : Runs (blocks.forM applyBlock) s () s') :
    FinalityOk s'.clock s'.finality ∧
      s.dgpo.lastIrreversibleBlockNum ≤ s'.dgpo.lastIrreversibleBlockNum := by
  have hrun : Reachable s' ∧ FinalityOk s'.clock s'.finality ∧
      s.dgpo.lastIrreversibleBlockNum ≤ s'.dgpo.lastIrreversibleBlockNum :=
    forM_induction (P := fun t => Reachable t ∧ FinalityOk t.clock t.finality ∧
        s.dgpo.lastIrreversibleBlockNum ≤ t.dgpo.lastIrreversibleBlockNum)
      (fun b _ t t' ⟨hrt, ht, hle⟩ hb => by
        obtain ⟨ht', hle', -⟩ := applyBlock_finality ht hrt.proposalsValid hb
        exact ⟨applyBlock_reachable hrt hb, ht', UInt32.le_trans hle hle'⟩)
      h ⟨hr, hs, UInt32.le_refl _⟩
  exact hrun.2

/-- Along every chain the last irreversible block stays below the head and never moves back;
where it moves on from the voting block on, 51% of the seats have confirmed what it moves to. -/
theorem irreversible_by_quorum {g : GenesisState} {before after : List SignedBlock}
    {b : SignedBlock} {s t u : Database} (hs : Runs (replay g before) {} () s)
    (hb : Runs (applyBlock b) s () t) (ha : Runs (after.forM applyBlock) t () u) :
    s.dgpo.lastIrreversibleBlockNum ≤ s.dgpo.headBlockNumber ∧
      s.dgpo.lastIrreversibleBlockNum ≤ t.dgpo.lastIrreversibleBlockNum ∧
      t.dgpo.lastIrreversibleBlockNum ≤ u.dgpo.lastIrreversibleBlockNum ∧
      ∃ c v, Runs (confirmBlock b) s () c ∧ Runs updateLastIrreversibleBlock c () v ∧
        Runs concludeBlock v () t ∧
        v.dgpo.lastIrreversibleBlockNum = t.dgpo.lastIrreversibleBlockNum ∧
        (BTCM_START_MINER_VOTING_BLOCK ≤ t.dgpo.headBlockNumber →
          s.dgpo.lastIrreversibleBlockNum < t.dgpo.lastIrreversibleBlockNum →
          v.Quorum t.dgpo.lastIrreversibleBlockNum.toNat) := by
  have hrs := replay_reachable hs
  have hok : FinalityOk s.clock s.finality := by
    rw [replay, runs_bind] at hs
    obtain ⟨_, s0, hg, hbefore⟩ := hs
    exact (applyBlocks_finality (.genesis hg) (initGenesis_finalityOk hg) hbefore).1
  obtain ⟨hokt, hle, hquorum⟩ := applyBlock_finality hok hrs.proposalsValid hb
  obtain ⟨-, hlater⟩ := applyBlocks_finality (applyBlock_reachable hrs hb) hokt ha
  exact ⟨UInt32.le_iff_toNat_le.mpr hok.le_head, hle, hlater, hquorum⟩

end Blocks

section Samples

open Sample

/-- Empty blocks in consecutive slots, by the witnesses of the genesis schedule in turn. -/
def quietChain (n : Nat) : List SignedBlock :=
  (List.range n).map fun i => {
    witness := ["initminer", "initminer1", "initminer2", "initminer"].getD (i % 4) ""
    timestamp := 1585422003 + 3 * UInt32.ofNat i }

/-- Block 22 makes block 1 irreversible, as long as votes do not decide. -/
theorem block22_confirms_block1 : ∃ s t : Database, Runs (replay {} (quietChain 21)) {} () s ∧
    Runs (applyBlock ⟨"initminer1", 1585422066, []⟩) s () t ∧
    s.dgpo.lastIrreversibleBlockNum = 0 ∧ t.dgpo.lastIrreversibleBlockNum = 1 ∧
    s.dgpo.lastIrreversibleBlockNum ≤ t.dgpo.lastIrreversibleBlockNum := by
  have hrun : leadsTo (replay {} (quietChain 21)) {} (fun s =>
      leadsTo (applyBlock ⟨"initminer1", 1585422066, []⟩) s fun t =>
        decide (s.dgpo.lastIrreversibleBlockNum = 0 ∧ t.dgpo.lastIrreversibleBlockNum = 1)) =
          true := by
    decide +kernel
  obtain ⟨s, hs, hrun⟩ := leadsTo_iff.mp hrun
  obtain ⟨t, ht, hlast⟩ := leadsTo_iff.mp hrun
  obtain ⟨hbefore, hafter⟩ := of_decide_eq_true hlast
  have hnone : Runs (([] : List SignedBlock).forM applyBlock) t () t := runs_pure.mpr ⟨rfl, rfl⟩
  exact ⟨s, t, hs, ht, hbefore, hafter, (irreversible_by_quorum hs ht hnone).2.1⟩

end Samples

end BtcmChain
