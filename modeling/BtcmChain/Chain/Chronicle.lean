import BtcmChain.Chain.Run

set_option autoImplicit false
set_option synthInstance.maxSize 10000000
set_option synthInstance.maxHeartbeats 200000

/-!
# Runs with a record of their evaluator calls

What a state allows may depend on what was done long ago and on nothing having undone it since.
A `Chronicle` is a run from genesis together with all evaluator calls made in it, in their order.
It keeps to the phases of a block: operations are applied while a block is open (or pending, ahead
of the next one), the clock only advances to a later time, and from there to the end of the block
nothing but expiring proposals is executed.
-/

namespace BtcmChain

variable [Externals]

/-- Whether operations are being applied or a block is being finished. -/
inductive Phase where
  | applying
  | finishing
  deriving DecidableEq

/-- The phase a move leads to, if it may be made. -/
def Move.next (s : Database) : Phase → Move → Option Phase
  | .applying, .operation _ => some .applying
  | .applying, .startBlock _ => some .applying
  | .applying, .advance b => if s.dgpo.time < b.timestamp then some .finishing else none
  | .finishing, .expire _ => some .finishing
  | .finishing, .settle => some .finishing
  | .finishing, .recover => some .applying
  | _, _ => none

/-- The runs from genesis, with the evaluator calls made in them. -/
inductive Chronicle : Phase → List Call → Database → Prop
  | genesis {g : GenesisState} {s : Database} : Runs (initGenesis g) {} () s → Chronicle .applying [] s
  | move {p q : Phase} {m : Move} {l : List Call} {s s' : Database} :
      Chronicle p l s → m.next s p = some q → Runs m.run s () s' → Chronicle q (l ++ m.calls s) s'

variable {p : Phase} {l : List Call} {s s' : Database}

theorem Chronicle.reachable (h : Chronicle p l s) : Reachable s := by
  induction h with
  | genesis h => exact .genesis h
  | move _ _ hm ih => exact ih.move hm

/-- The calls that an operation makes are put on record: the chronicle goes on with them. -/
theorem Chronicle.operation {op : Operation} (h : Chronicle .applying l s) (hv : op.validate = .ok ())
    (hr : Runs (applyOperation BTCM_MAX_PROPOSAL_NESTING op) s () s') :
    Chronicle .applying (l ++ calls BTCM_MAX_PROPOSAL_NESTING op s) s' :=
  h.move (m := .operation op) rfl (by
    simp only [Move.run, runs_bind_ofExcept]
    exact ⟨(), hv, hr⟩)

/-- Operations do not move the clock: the head block time is the same before and after. -/
theorem applyOperation_time {n : ℕ} {op : Operation} (hv : op.validate = .ok ())
    (hs : ProposalsValid s) (h : Runs (applyOperation n op) s () s') : s'.dgpo.time = s.dgpo.time :=
  (applyOperation_induction (P := fun t => t.dgpo.time = s.dgpo.time) (fun _ _ hP => hP)
    (fun push o t t' ho _ hP hr => by
      have hclock : Cut.same .clock t t' := by
        refine evaluate_same ho ?_ hr
        cases o <;> rfl
      have hclock : t'.clock = t.clock := hclock
      exact (congrArg Prod.snd hclock).trans hP) hv hs rfl h).1

theorem Chronicle.transaction {ops : List Operation} (h : Chronicle .applying l s)
    (hr : Runs (applyTransaction ops) s () s') :
    (∃ l', Chronicle .applying (l ++ l') s') ∧ s'.dgpo.time = s.dgpo.time := by
  simp only [applyTransaction, runs_bind_require, runs_bind_ofExcept] at hr
  obtain ⟨-, _, hv, hr⟩ := hr
  refine forM_induction (P := fun t => (∃ l', Chronicle .applying (l ++ l') t) ∧
    t.dgpo.time = s.dgpo.time) (fun op ho t t' ht hr => ?_) hr ⟨⟨[], by simpa using h⟩, rfl⟩
  obtain ⟨⟨l', ht⟩, htime⟩ := ht
  have hvop := validateAll_ok.mp hv op ho
  refine ⟨⟨l' ++ calls BTCM_MAX_PROPOSAL_NESTING op t, ?_⟩, ?_⟩
  · rw [← List.append_assoc]
    exact ht.operation hvop hr
  · rw [applyOperation_time hvop ht.reachable.proposalsValid hr, htime]

theorem Chronicle.clearExpiredProposals (h : Chronicle .finishing l s)
    (hr : Runs clearExpiredProposals s () s') : ∃ l', Chronicle .finishing (l ++ l') s' := by
  simp only [BtcmChain.clearExpiredProposals, runs_bind_headBlockTime, runs_bind_reads] at hr
  refine due_induction (P := fun _ t => ∃ l', Chronicle .finishing (l ++ l') t)
    (fun _ _ e t u ht he _ hb => ?_) hr ⟨[], by simpa using h⟩
  obtain ⟨l', ht⟩ := ht
  refine ⟨l' ++ (Move.expire e.id).calls t, ?_⟩
  rw [← List.append_assoc]
  refine ht.move rfl ?_
  simp only [Move.run, runs_bind_get]
  exact ⟨e.val, he, hb⟩

/-- A block continues the chronicle with what its transactions and its end do. -/
theorem Chronicle.block {b : SignedBlock} (h : Chronicle .applying l s)
    (hr : Runs (applyBlock b) s () s') : ∃ l', Chronicle .applying (l ++ l') s' := by
  obtain ⟨⟨⟩, t1, h1, hr⟩ := runs_bind.mp hr
  obtain ⟨⟨⟩, t2, h2, hr⟩ := runs_bind.mp hr
  have hclock : (advanceClock b >>= fun _ => do
      BtcmChain.clearExpiredProposals
      settleBlock
      accountRecoveryProcessing) = finishBlock b := by
    simp only [advanceClock, finishBlock, bind_assoc]
  rw [← hclock] at hr
  obtain ⟨⟨⟩, t3, h3, hr⟩ := runs_bind.mp hr
  obtain ⟨⟨⟩, t4, h4, hr⟩ := runs_bind.mp hr
  obtain ⟨⟨⟩, t5, h5, h6⟩ := runs_bind.mp hr
  have hlater : s.dgpo.time < b.timestamp := by
    simp only [BtcmChain.startBlock, runs_bind_headBlockTime, runs_bind_require] at h1
    exact of_decide_eq_true h1.1
  have hstart : Chronicle .applying (l ++ []) t1 := h.move (m := .startBlock b) rfl h1
  have htime1 : t1.dgpo.time = s.dgpo.time := congrArg Prod.snd (Writes.clock_eq h1 (by decide))
  obtain ⟨⟨l2, htxs⟩, htime2⟩ := forM_induction
    (P := fun t => (∃ l', Chronicle .applying (l ++ l') t) ∧ t.dgpo.time = s.dgpo.time)
    (fun ops _ t t' ht hr => by
      obtain ⟨⟨l', ht⟩, htime⟩ := ht
      obtain ⟨⟨l'', ht'⟩, htime'⟩ := ht.transaction hr
      exact ⟨⟨l' ++ l'', by rwa [← List.append_assoc]⟩, htime'.trans htime⟩)
    h2 ⟨⟨[], hstart⟩, htime1⟩
  have hadvance : Chronicle .finishing (l ++ l2 ++ []) t3 :=
    htxs.move (m := .advance b) (by rw [Move.next, htime2, if_pos hlater]) h3
  obtain ⟨l4, hexpired⟩ := hadvance.clearExpiredProposals h4
  have hsettled : Chronicle .finishing _ t5 := hexpired.move (m := .settle) rfl h5
  have hdone : Chronicle .applying _ s' := hsettled.move (m := .recover) rfl h6
  refine ⟨l2 ++ l4, ?_⟩
  simpa [Move.calls] using hdone

/-- A whole chain, from genesis on, has a chronicle. -/
theorem exists_chronicle {g : GenesisState} {blocks : List SignedBlock}
    (h : Runs (replay g blocks) {} () s) : ∃ l, Chronicle .applying l s := by
  obtain ⟨⟨⟩, t, hg, hblocks⟩ := runs_bind.mp h
  refine forM_induction (P := fun t => ∃ l, Chronicle .applying l t) (fun b _ t t' ht hr => ?_)
    hblocks ⟨[], .genesis hg⟩
  obtain ⟨l, ht⟩ := ht
  obtain ⟨l', ht'⟩ := ht.block hr
  exact ⟨l ++ l', ht'⟩

end BtcmChain
