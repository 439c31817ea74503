import BtcmChain.Chain.Transactions
import BtcmChain.Sound.PushBlock
import BtcmChain.Sound.Slots

set_option autoImplicit false
set_option synthInstance.maxSize 10000000
set_option synthInstance.maxHeartbeats 200000

/-!
# Chains of whole blocks

A block with its transactions, summaries and flags does to the objects of `Chain.Database` what
`applyBlock` does to them (`applyContents_refines`), so all that is known of reachable states is
known of the states of a chain. A node, whatever blocks it is given and however often it
switches, is always at the end of some chain from genesis (`Node.replayed`).

The objects of `Chain.Database` are those that money, stake and authority are about; blocks in full
have more to them, transactions that must be new and must refer to the chain, and tables which only
that concerns. `Parts` takes the application of a block apart into what happens to either. By the
refinement a statement about reachable states becomes one about each node, at any time, wherever it
is.
-/

namespace BtcmChain

section Block

variable [Externals] [Cryptography] {s s' : Objects} {skip : SkipFlags} {id : BlockId}
  {b : BlockContents}

/-! ## One block -/

/-- The parts of a block: `d₁` behind the header, `u` behind the transactions, `d₂` when the
clock has moved. -/
structure Parts (skip : SkipFlags) (id : BlockId) (b : BlockContents) (s s' : Objects)
    (d₁ d₂ d₃ : Database) (u : Objects) : Prop where
  merkle : skip.merkleCheck = false →
    b.transactionMerkleRoot = Cryptography.merkleRoot b.transactions
  header : Runs (do
    validateBlockHeader skip b
    modifyParams fun p => { p with currentWitness := b.witness }) s.db () d₁
  transactions : Runs (b.transactions.forM (applySignedTransaction skip)) { s with db := d₁ } () u
  clock : Runs (do
    updateGlobalDynamicDataUnder skip b.witness b.timestamp
    updateSigningWitness b.witness b.timestamp
    updateLastIrreversibleBlock) u.db () d₂
  rest : Runs (do
    clearExpiredProposals
    settleBlock
    accountRecoveryProcessing) d₂ () d₃
  state : s' = {
    db := d₃
    transactions := clearExpired d₂.dgpo.time u.transactions.entries.length u.transactions
    blockSummaries := Function.update u.blockSummaries (id.numFromId &&& 0xffff).toUInt16 id }

theorem runs_applyContents :
    Runs (applyContents skip id b) s () s' ↔ ∃ d₁ d₂ d₃ u, Parts skip id b s s' d₁ d₂ d₃ u := by
  rw [applyContents, runs_bind_ofExcept]
  constructor
  · rintro ⟨_, hmerkle, h⟩
    rw [fcAssert_ok] at hmerkle
    obtain ⟨_, t1, h1, h⟩ := runs_bind.mp h
    obtain ⟨d₁, hheader, rfl⟩ := runs_onDb.mp h1
    obtain ⟨_, u, htrx, h⟩ := runs_bind.mp h
    obtain ⟨_, t3, h3, h⟩ := runs_bind.mp h
    obtain ⟨d₂, hclock, rfl⟩ := runs_onDb.mp h3
    obtain ⟨_, t4, h4, h⟩ := runs_bind.mp h
    obtain ⟨_, t5, h5, h6⟩ := runs_bind.mp h
    cases h4
    cases h5
    obtain ⟨d₃, hrest, rfl⟩ := runs_onDb.mp h6
    exact ⟨d₁, d₂, d₃, u, fun hskip => by simpa [hskip] using hmerkle, hheader, htrx, hclock, hrest,
      rfl⟩
  · rintro ⟨d₁, d₂, d₃, u, h⟩
    refine ⟨(), ?_, ?_⟩
    · rw [fcAssert_ok]
      cases hskip : skip.merkleCheck with
      | true => rfl
      | false => simp [h.merkle hskip]
    · refine runs_bind.mpr ⟨(), _, runs_onDb.mpr ⟨d₁, h.header, rfl⟩, ?_⟩
      refine runs_bind.mpr ⟨(), u, h.transactions, ?_⟩
      refine runs_bind.mpr ⟨(), _, runs_onDb.mpr ⟨d₂, h.clock, rfl⟩, ?_⟩
      refine runs_bind.mpr ⟨(), _, rfl, runs_bind.mpr ⟨(), _, rfl, ?_⟩⟩
      exact runs_onDb.mpr ⟨d₃, h.rest, h.state⟩

omit [Externals] in
/-- The header checks, when none is skipped, are those of `startBlock`. -/
theorem startBlock_of_header {d d' : Database} (h : Runs (do
    validateBlockHeader skipNothing b
    modifyParams fun p => { p with currentWitness := b.witness }) d () d') :
    Runs (startBlock b.signed) d () d' := by
  obtain ⟨_, t, h1, h2⟩ := runs_bind.mp h
  simp only [validateBlockHeader, runs_bind_headBlockTime, runs_bind_require, getWitness,
    runs_bind_getBy] at h1
  obtain ⟨hlater, w, hw, h1⟩ := h1
  obtain ⟨_, t1, h1, h3⟩ := runs_bind.mp h1
  simp only [whenM, skipNothing, Bool.not_false, if_true, runs_require] at h1
  obtain ⟨-, rfl⟩ := h1
  simp only [whenM, skipNothing, Bool.not_false, if_true, runs_bind_reads, runs_bind_require] at h3
  obtain ⟨hslot, h3⟩ := h3
  obtain ⟨scheduled, t2, hsched, h3⟩ := runs_bind.mp h3
  simp only [startBlock, runs_bind_headBlockTime, runs_bind_require, getWitness, runs_bind_getBy,
    runs_bind_reads]
  refine ⟨hlater, w, hw, hslot, runs_bind.mpr ⟨scheduled, t2, hsched, ?_⟩⟩
  rw [runs_require] at h3
  rw [runs_bind_require]
  exact ⟨h3.1, h3.2 ▸ h2⟩

/-- A transaction without flags does to the objects what `applyTransaction` does. -/
theorem applyTransaction_of_signed {t : SignedTransaction}
    (h : Runs (applySignedTransaction skipNothing t) s () s') :
    Runs (applyTransaction t.operations) s.db () s'.db := by
  obtain ⟨hvalid, -, -, -, d, hd, rfl⟩ := runs_applySignedTransaction.mp h
  obtain ⟨hne, hall⟩ := hvalid rfl
  simp only [applyTransaction, runs_bind_require, runs_bind_ofExcept]
  exact ⟨by simpa using hne, (), hall, hd⟩

theorem applyTransactions_of_signed {l : List SignedTransaction}
    (h : Runs (l.forM (applySignedTransaction skipNothing)) s () s') :
    Runs ((l.map fun t => t.operations).forM applyTransaction) s.db () s'.db := by
  induction l generalizing s with
  | nil =>
      obtain ⟨-, rfl⟩ := runs_pure.mp h
      exact runs_pure.mpr ⟨rfl, rfl⟩
  | cons t l ih =>
      obtain ⟨_, u, h1, h2⟩ := runs_bind.mp h
      exact runs_bind.mpr ⟨(), u.db, applyTransaction_of_signed h1, ih h2⟩

/-- **Refinement.** With all checks on, a block is applied to the objects as `applyBlock` does. -/
theorem applyContents_refines (h : Runs (applyContents skipNothing id b) s () s') :
    Runs (applyBlock b.signed) s.db () s'.db := by
  obtain ⟨d₁, d₂, d₃, u, h⟩ := runs_applyContents.mp h
  have hfinish : Runs (finishBlock b.signed) u.db () d₃ := by
    have hclock : (do
        (do
          updateGlobalDynamicDataUnder skipNothing b.witness b.timestamp
          updateSigningWitness b.witness b.timestamp
          updateLastIrreversibleBlock)
        clearExpiredProposals
        settleBlock
        accountRecoveryProcessing) = finishBlock b.signed := by
      simp only [finishBlock, bind_assoc]
      rfl
    rw [← hclock]
    exact runs_bind.mpr ⟨(), d₂, h.clock, h.rest⟩
  rw [h.state]
  exact runs_bind.mpr ⟨(), d₁, startBlock_of_header h.header, runs_bind.mpr ⟨(), u.db,
    applyTransactions_of_signed h.transactions, hfinish⟩⟩

end Block

/-! ## Chains -/

section Chain

variable {β : Type} [ChainBlock β] [HasContents β] [Externals] [Cryptography]
  {flags : β → Except Exn SkipFlags} {g : GenesisState} {bs : List β} {b : β}
  {s t : ChainState Objects}

/-- Applying a block extends the chain: the parent was the head, the block is the head now, and its
contents ran. -/
theorem applyBlockUnder_ok : applyBlockUnder flags b s = .ok t ↔
    s.headId = previous b ∧ t.headId = blockId b ∧ ∃ skip, flags b = .ok skip ∧
      Runs (applyContents skip (blockId b) (HasContents.contents b)) s.rest () t.rest := by
  unfold applyBlockUnder
  split
  case isTrue hid =>
    simp only [except_bind_ok, except_pure_ok, Runs]
    constructor
    · rintro ⟨skip, hskip, ⟨⟨⟩, u⟩, hr, rfl⟩
      exact ⟨hid, rfl, skip, hskip, hr⟩
    · rintro ⟨-, hhead, skip, hskip, hr⟩
      refine ⟨skip, hskip, ((), t.rest), hr, ?_⟩
      rw [← hhead]
  case isFalse hid =>
    simp only [except_bind_ok]
    constructor
    · rintro ⟨skip, -, h⟩
      cases h
    · exact fun h => absurd h.1 hid

namespace Chained

/-- The head of a chain is its last block, and blocks are numbered from 1 on. -/
theorem num_eq (h : Chained flags g bs s) : s.headId.num = bs.length := by
  induction h with
  | start => rfl
  | block _ hb ih =>
      obtain ⟨hprev, hhead, -⟩ := applyBlockUnder_ok.mp hb
      rw [hhead, num_blockId, blockNum, ← hprev, ih, List.length_append]
      rfl

/-- Later blocks have greater numbers, so the head's is the greatest of the chain. -/
theorem blockNum_le (h : Chained flags g bs s) : ∀ c ∈ bs, blockNum c ≤ s.headId.num := by
  induction h with
  | start => exact fun _ hc => absurd hc List.not_mem_nil
  | @block bs b s t hs hb ih =>
      obtain ⟨hprev, hhead, -⟩ := applyBlockUnder_ok.mp hb
      have hnum : t.headId.num = s.headId.num + 1 := by rw [hhead, num_blockId, blockNum, hprev]
      intro c hc
      rcases List.mem_append.mp hc with hc | hc
      · exact (ih c hc).trans (hnum ▸ Nat.le_succ _)
      · rw [List.mem_singleton.mp hc, hhead]
        exact le_refl _

/-- With all checks on, the objects are in a reachable state, between two blocks. -/
theorem reachable (h : Chained flags g bs s) (hflags : ∀ b ∈ bs, flags b = .ok skipNothing) :
    Reachable s.rest.db ∧ s.rest.db.InSlot := by
  induction h with
  | start hg => exact ⟨.genesis hg, initGenesis_inSlot hg⟩
  | @block bs b s t hs hb ih =>
      obtain ⟨-, -, skip, hskip, hr⟩ := applyBlockUnder_ok.mp hb
      rw [hflags b (List.mem_append_right bs List.mem_cons_self)] at hskip
      obtain rfl := Except.ok.inj hskip
      obtain ⟨hreach, hin⟩ := ih fun c hc => hflags c (List.mem_append_left [b] hc)
      have happly := applyContents_refines hr
      exact ⟨applyBlock_reachable hreach happly,
        hin.ticked (applyBlock_ticked hreach.proposalsValid happly)⟩

/-- A block of a chain was applied to the end of the chain before it. -/
theorem applied {front back : List β} (h : Chained flags g bs s) (hbs : bs = front ++ b :: back) :
    ∃ c d, Chained flags g front c ∧ applyBlockUnder flags b c = .ok d := by
  induction h generalizing back with
  | start => cases front <;> cases hbs
  | @block bs last s t hs hlast ih =>
      obtain rfl | ⟨back, x, rfl⟩ := List.eq_nil_or_concat back
      · obtain ⟨rfl, hb⟩ := List.append_inj' hbs rfl
        obtain rfl := (List.cons.inj hb).1
        exact ⟨s, t, hs, hlast⟩
      · rw [List.concat_eq_append, ← List.cons_append, ← List.append_assoc] at hbs
        exact ih (List.append_inj' hbs rfl).1

end Chained

/-- A node that starts at the end of a chain is always at the end of one. -/
theorem Node.chained [BlockPolicy β] {start n : Node β Objects}
    {C : Node β Objects → Node.Call β → Prop} (hopen : start.Opened)
    (hstart : ∃ bs, Chained BlockPolicy.flags g (bs : List β) start.state)
    (h : Node.RunIf C start n) : ∃ bs, Chained BlockPolicy.flags g (bs : List β) n.state := by
  have hpast : Node.Along (fun s => ∃ bs, Chained BlockPolicy.flags g (bs : List β) s) start := by
    refine ⟨hstart, fun s hs => ?_⟩
    rw [hopen.1] at hs
    cases hs
  have hblock (b : β) (s t : ChainState Objects)
      (hs : ∃ bs, Chained BlockPolicy.flags g (bs : List β) s) (hb : (s.apply b).outcome = .ok t) :
      ∃ bs, Chained BlockPolicy.flags g (bs : List β) t := by
    obtain ⟨bs, hs⟩ := hs
    exact ⟨bs ++ [b], hs.block (apply_ok_iff.mp hb)⟩
  exact (Node.RunIf.along hblock hpast h).1

end Chain

end BtcmChain
