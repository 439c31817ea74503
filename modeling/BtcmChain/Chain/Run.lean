import BtcmChain.Chain.Genesis

set_option autoImplicit false
set_option synthInstance.maxSize 10000000
set_option synthInstance.maxHeartbeats 200000

/-!
# Runs of the chain

The chain as a transition system. A `Move` is what happens to the state in one piece:
an operation is applied, a block begins, the clock advances, a proposal expires, the
block is settled. `applyBlock` is a sequence of moves (`applyBlock_reachable`), and
operations may come between any two of them, so the states in the middle of a block
are reachable too.

An operation can make evaluators run that are not its own: those of a proposal it
completes. `calls` lists them all with the states they start from; what every
evaluator call relates or preserves, a whole operation does (`applyOperation_trace`).
-/

namespace BtcmChain

variable [Externals]

/-! ## What an operation may write -/

/-- The concerns that the evaluator of an operation may write, less what it calls for proposals. -/
def Operation.footprint : Operation → List Concern
  | .content _ => [.funds, .splits, .pools, .catalogue]
  | .contentUpdate _ => [.funds, .stakes, .splits, .pools, .catalogue, .voting, .laps]
  | .contentDisable _ => [.catalogue]
  | .witnessUpdate _ => [.rates, .voting, .laps, .finality]
  | .feedPublish .. => [.rates]
  | .transfer .. => [.funds]
  | .transferToVesting .. => [.funds, .stakes, .voting, .laps]
  | .withdrawVesting .. => [.stakes]
  | .setWithdrawVestingRoute .. => [.routes]
  | .accountWitnessVote .. => [.voting, .laps]
  | .accountWitnessProxy .. => [.voting, .laps]
  | .accountStreamingPlatformVote .. => [.voting]
  | .limitOrderCreate _ => [.funds, .orders]
  | .limitOrderCreate2 _ => [.funds, .orders]
  | .limitOrderCancel .. => [.funds, .orders]
  | .convert .. => [.funds]
  | .accountCreate _ => [.funds, .stakes, .listening, .names, .voting, .laps, .redelegations]
  | .streamingPlatformUpdate .. => [.funds, .stakes, .listening, .names, .voting]
  | .streamingPlatformReport _ => [.listening, .catalogue]
  | .assetCreate _ => [.funds]
  | .assetUpdate _ => [.funds]
  | .assetIssue .. => [.funds]
  | .assetReserve .. => [.funds]
  | .challengeAuthority .. => [.funds, .stakes, .voting, .laps]
  | .proposalCreate .. => [.pending]
  | .proposalDelete _ => [.pending]
  | .balanceClaim .. => [.funds]
  | .accountCreateWithDelegation _ => [.funds, .stakes, .listening, .names, .voting, .laps, .redelegations]
  | .delegateVestingShares .. => [.stakes, .redelegations]
  | .requestStreamReporting .. => [.requests, .redelegations]
  | .cancelStreamReporting .. => [.requests, .redelegations]
  | _ => []

/-- Whether a concern is in the footprint of an operation. -/
def Operation.writes (op : Operation) (i : Concern) : Bool := decide (i ∈ op.footprint)

/-- An evaluator writes nothing outside the footprint of its operation. -/
theorem evaluate_same {push : Nat → DbM Unit} {op : Operation} {i : Concern} {s s' : Database}
    (hop : op.isProposalUpdate = false) (hi : op.writes i = false)
    (h : Runs (evaluate push op) s () s') : Cut.same i s s' := by
  cases op with
  | proposalUpdate o => cases hop
  | custom | escrowTransfer | escrowDispute | escrowRelease | virtualOperation =>
      first
        | exact absurd h runs_throw
        | rw [(runs_pure.mp h).2]; exact Cut.same_refl _ _
  | _ =>
      simp only [evaluate] at h
      refine Writes.within.same ?_ h
      exact of_decide_eq_false hi

/-! ## Proposals -/

/-- Every proposed operation passed its stateless check and is no proposal. -/
def ProposalsValid (s : Database) : Prop :=
  ∀ id p, s.proposals.find? id = some p →
    ∀ op ∈ p.proposedOps, op.validate = .ok () ∧ op.isProposalCreate = false

theorem validateAll_ok {ops : List Operation} :
    validateAll ops = .ok () ↔ ∀ op ∈ ops, op.validate = .ok () := by
  induction ops with
  | nil => simp [validateAll]
  | cons op ops ih =>
      simp only [validateAll, except_bind_ok, ih, List.forall_mem_cons]
      constructor
      · intro h
        obtain ⟨_, hop, hops⟩ := h
        exact ⟨hop, hops⟩
      · intro h
        exact ⟨(), h.1, h.2⟩

theorem ProposalsValid.congr {s s' : Database} (h : ProposalsValid s)
    (he : s'.proposals = s.proposals) : ProposalsValid s' := by
  unfold ProposalsValid
  rw [he]
  exact h

/-- Removing a proposal keeps all other stored proposals valid. -/
theorem ProposalsValid.remove {s : Database} (h : ProposalsValid s) (id : Nat) :
    ProposalsValid { s with proposals := s.proposals.remove id } := by
  intro id' p hp
  have hp' : (s.proposals.remove id).find? id' = some p := hp
  rw [ObjectIndex.find?_remove] at hp'
  split at hp'
  · cases hp'
  · exact h id' p hp'

/-- New approvals do not change what a proposal proposes, so it stays valid. -/
theorem ProposalsValid.amend {s : Database} (h : ProposalsValid s) {o : ProposalUpdateOperation}
    {p : ProposalObject} (hp : s.proposals.find? o.proposal = some p) :
    ProposalsValid (o.amendedState p s) := by
  intro id' q hq
  have hq' : (s.proposals.update o.proposal fun _ => o.amend p).find? id' = some q := hq
  rw [ObjectIndex.find?_update] at hq'
  split at hq'
  case isTrue he =>
    subst he
    rw [hp] at hq'
    obtain rfl := Option.some.inj hq'
    exact h _ p hp
  case isFalse => exact h id' q hq'

/-- An evaluator leaves only valid proposals behind, when there were only valid ones before. -/
theorem evaluate_proposalsValid {push : Nat → DbM Unit} {op : Operation} {s s' : Database}
    (hop : op.isProposalUpdate = false) (hs : ProposalsValid s)
    (h : Runs (evaluate push op) s () s') : ProposalsValid s' := by
  cases hi : op.writes .pending with
  | true =>
    cases op <;> first | exact (Bool.false_ne_true hi).elim | skip
    case proposalCreate ops expiration review =>
      obtain ⟨q, rfl, hvalid, hflat, rfl⟩ := runs_proposalCreateEvaluator h
      intro id p hp o ho
      have hp' : (s.proposals.create q).find? id = some p := hp
      rw [ObjectIndex.find?_create] at hp'
      split at hp'
      · obtain rfl := Option.some.inj hp'
        exact ⟨validateAll_ok.mp hvalid o ho, hflat o ho⟩
      · exact hs id p hp' o ho
    case proposalDelete o =>
      obtain rfl := runs_proposalDeleteEvaluator h
      exact hs.remove _
  | false => exact hs.congr (evaluate_same hop hi h)

/-! ## Evaluator calls -/

/-- A call of an evaluator: the state it starts from and its operation. -/
structure Call where
  state : Database
  op : Operation

/-- The calls made while operations are applied one after the other. -/
def callsAll (apply : Operation → DbM Unit) (calls : Operation → Database → List Call) :
    List Operation → Database → List Call
  | [], _ => []
  | op :: ops, s => calls op s ++ (apply op s).toOption.elim [] fun r => callsAll apply calls ops r.2

/-- The calls of a proposal that is pushed; a proposal that fails is rolled back, with
everything it called. -/
def pushedCalls (apply : Operation → DbM Unit) (calls : Operation → Database → List Call) (id : Nat)
    (s : Database) : List Call :=
  if (pushProposal apply id s).toOption.isSome then
    (s.proposals.find? id).elim [] fun p => callsAll apply calls p.proposedOps s
  else []

/-- The calls behind an update: none unless it completes the authorisation. -/
def updateCalls (pushed : Nat → Database → List Call) (o : ProposalUpdateOperation) (s : Database) :
    List Call :=
  (s.proposals.find? o.proposal).elim [] fun p =>
    if o.completes p s then pushed o.proposal (o.amendedState p s) else []

/-- The evaluator calls that an operation leads to, its own first, then those of the proposals it
executes. -/
def calls : Nat → Operation → Database → List Call
  | 0, op, s => [⟨s, op⟩]
  | n + 1, op, s =>
      ⟨s, op⟩ :: match op with
        | .proposalUpdate o => updateCalls (pushedCalls (applyOperation n) (calls n)) o s
        | _ => []

/-- Only an update of a proposal makes further calls: any other operation leads to its own call
alone. -/
theorem calls_eq_self {n : Nat} {op : Operation} (h : op.isProposalUpdate = false) (s : Database) :
    calls n op s = [⟨s, op⟩] := by
  cases n with
  | zero => rfl
  | succ n => cases op <;> first | rfl | cases h

omit [Externals] in
theorem Operation.eq_proposalUpdate {op : Operation} (h : op.isProposalUpdate = true) :
    ∃ o, op = .proposalUpdate o := by
  cases op <;> first | exact ⟨_, rfl⟩ | exact (Bool.false_ne_true h).elim

/-- A relation between two states and the calls that lead from one to the other. It
ignores the proposals, composes along runs, and an update adds nothing by itself. -/
structure Traces (R : Database → List Call → Database → Prop) : Prop where
  pending : ∀ s x, R s [] { s with proposals := x }
  append : ∀ {s t u l l'}, R s l t → R t l' u → R s (l ++ l') u
  update : ∀ {s u o l}, R s l u → R s (⟨s, .proposalUpdate o⟩ :: l) u

section Traces

variable {R : Database → List Call → Database → Prop} (hR : Traces R)

include hR

/-- What relates the operations of a proposal relates the proposal as a whole. -/
theorem pushProposal_trace {apply : Operation → DbM Unit}
    {callsOf : Operation → Database → List Call}
    (happly : ∀ op s s', op.validate = .ok () → ProposalsValid s → Runs (apply op) s () s' →
      R s (callsOf op s) s' ∧ ProposalsValid s')
    {id : Nat} {s s' : Database} (hs : ProposalsValid s)
    (h : Runs (pushProposal apply id) s () s') :
    R s (pushedCalls apply callsOf id s) s' ∧ ProposalsValid s' := by
  have hsome : (pushProposal apply id s).toOption.isSome := by rw [h]; rfl
  obtain ⟨p, t, hp, hops, rfl⟩ := runs_pushProposal h
  have hvalid : ∀ op ∈ p.proposedOps, op.validate = .ok () := fun op ho => (hs id p hp op ho).1
  simp only [pushedCalls, hsome, if_true, hp, Option.elim_some]
  have hall : R s (callsAll apply callsOf p.proposedOps s) t ∧ ProposalsValid t := by
    -- the calls of the remaining operations start where the previous one ended
    clear hp hsome h
    generalize p.proposedOps = ops at hops hvalid
    induction ops generalizing s with
    | nil =>
        obtain ⟨-, rfl⟩ := runs_pure.mp hops
        exact ⟨hR.pending _ _, hs⟩
    | cons op ops ih =>
        obtain ⟨⟨⟩, u, h1, h2⟩ := runs_bind.mp hops
        obtain ⟨hr, hs'⟩ := happly op s u (hvalid op List.mem_cons_self) hs h1
        obtain ⟨hr', hs''⟩ := ih hs' h2 fun o ho => hvalid o (List.mem_cons_of_mem op ho)
        refine ⟨?_, hs''⟩
        simp only [callsAll, show apply op s = .ok ((), u) from h1]
        exact hR.append hr hr'
  refine ⟨?_, hall.2.remove id⟩
  rw [← List.append_nil (callsAll apply callsOf p.proposedOps s)]
  exact hR.append hall.1 (hR.pending _ _)

/-- The induction step over the nesting of proposals: what one level less traces, this level traces.
-/
theorem evaluate_trace
    (heval : ∀ push op s s', op.isProposalUpdate = false → op.validate = .ok () →
      Runs (evaluate push op) s () s' → R s [⟨s, op⟩] s')
    {push : Nat → DbM Unit} {op : Operation} {s s' : Database} {l : List Call}
    (hv : op.validate = .ok ()) (hs : ProposalsValid s)
    (hplain : op.isProposalUpdate = false → l = [])
    (hfailed : ∀ o p, op = .proposalUpdate o → s.proposals.find? o.proposal = some p →
      (o.completes p s = true → ∃ e, push o.proposal (o.amendedState p s) = .error e) → l = [])
    (hpush : ∀ o p u, op = .proposalUpdate o → s.proposals.find? o.proposal = some p →
      o.completes p s = true → Runs (push o.proposal) (o.amendedState p s) () u →
      R (o.amendedState p s) l u ∧ ProposalsValid u)
    (h : Runs (evaluate push op) s () s') : R s (⟨s, op⟩ :: l) s' ∧ ProposalsValid s' := by
  cases hop : op.isProposalUpdate with
  | false =>
      rw [hplain hop]
      exact ⟨heval push op s s' hop hv h, evaluate_proposalsValid hop hs h⟩
  | true =>
      obtain ⟨o, rfl⟩ := Operation.eq_proposalUpdate hop
      obtain ⟨p, hp, ⟨rfl, hfail⟩ | ⟨hc, hr⟩⟩ := runs_proposalUpdateEvaluator h
      · rw [hfailed o p rfl hp hfail]
        exact ⟨hR.update (hR.pending _ _), hs.amend hp⟩
      · obtain ⟨hr', hs'⟩ := hpush o p s' rfl hp hc hr
        exact ⟨hR.update (hR.append (hR.pending _ _) hr'), hs'⟩

/-- What relates every evaluator call relates an operation, with all it executes. -/
theorem applyOperation_trace
    (heval : ∀ push op s s', op.isProposalUpdate = false → op.validate = .ok () →
      Runs (evaluate push op) s () s' → R s [⟨s, op⟩] s') :
    ∀ n op s s', op.validate = .ok () → ProposalsValid s →
      Runs (applyOperation n op) s () s' → R s (calls n op s) s' ∧ ProposalsValid s' := by
  intro n
  induction n with
  | zero =>
      intro op s s' hv hs h
      exact evaluate_trace hR heval hv hs (fun _ => rfl) (fun _ _ _ _ _ => rfl)
        (fun o p u _ _ _ hr => absurd hr runs_throw) h
  | succ n ih =>
      intro op s s' hv hs h
      refine evaluate_trace hR heval hv hs ?_ ?_ ?_ h
      · intro hop
        cases op <;> first | rfl | cases hop
      · rintro o p rfl hp hfail
        simp only [updateCalls, hp, Option.elim_some]
        split
        case isTrue hc =>
          obtain ⟨e, he⟩ := hfail hc
          simp [pushedCalls, he, Except.toOption]
        case isFalse => rfl
      · rintro o p u rfl hp hc hr
        simp only [updateCalls, hp, Option.elim_some, hc, if_true]
        exact pushProposal_trace hR ih (hs.amend hp) hr

end Traces

omit [Externals] in
/-- What every call preserves, whatever leads through these calls preserves. -/
theorem traces_invariant {P : Database → Prop} {C : Call → Prop}
    (hpending : ∀ s x, P s → P { s with proposals := x }) :
    Traces fun s l s' => (∀ c ∈ l, C c) → P s → P s' where
  pending s x _ hP := hpending s x hP
  append h1 h2 hC hP :=
    h2 (fun c hc => hC c (List.mem_append_right _ hc))
      (h1 (fun c hc => hC c (List.mem_append_left _ hc)) hP)
  update h hC hP := h (fun c hc => hC c (List.mem_cons_of_mem _ hc)) hP

/-! ## Moves -/

/-- What happens to the state in one piece, and either happens altogether or not at all. -/
inductive Move where
  | operation (op : Operation)
  | startBlock (b : SignedBlock)
  | advance (b : SignedBlock)
  | expire (id : Nat)
  | settle
  | recover

/-- The clock, the slot bookkeeping and the irreversible number of a block. -/
def advanceClock (b : SignedBlock) : DbM Unit := do
  updateGlobalDynamicData b.witness b.timestamp
  updateSigningWitness b.witness b.timestamp
  updateLastIrreversibleBlock

omit [Externals] in
instance (b : SignedBlock) : Writes (advanceClock b) [.clock, .finality, .slots] :=
  ⟨by unfold advanceClock; infer_instance⟩

/-- The program of a move, as the source runs it. -/
def Move.run : Move → DbM Unit
  | .operation op => do
      ofExcept op.validate
      applyOperation BTCM_MAX_PROPOSAL_NESTING op
  | .startBlock b => BtcmChain.startBlock b
  | .advance b => advanceClock b
  | .expire id => do
      let p ← proposalIndex.get id
      expireProposal ⟨id, p⟩
  | .settle => settleBlock
  | .recover => accountRecoveryProcessing

/-- The evaluator calls that a move makes in a given state. -/
def Move.calls : Move → Database → List Call
  | .operation op, s => BtcmChain.calls BTCM_MAX_PROPOSAL_NESTING op s
  | .expire id, s =>
      (s.proposals.find? id).elim [] fun p =>
        if s.isAuthorizedToExecute p then
          pushedCalls (applyOperation (BTCM_MAX_PROPOSAL_NESTING - 1))
            (BtcmChain.calls (BTCM_MAX_PROPOSAL_NESTING - 1)) id s
        else []
  | _, _ => []

/-- The states of runs in which every move meets `C` where it starts. -/
inductive ReachableIf (C : Database → Move → Prop) : Database → Prop
  | genesis {g : GenesisState} {s : Database} : Runs (initGenesis g) {} () s → ReachableIf C s
  | move {m : Move} {s s' : Database} :
      ReachableIf C s → C s m → Runs m.run s () s' → ReachableIf C s'

/-- The states of all runs: those that some sequence of moves leads to from genesis. -/
def Reachable (s : Database) : Prop := ReachableIf (fun _ _ => True) s

theorem ReachableIf.reachable {C : Database → Move → Prop} {s : Database} (h : ReachableIf C s) :
    Reachable s := by
  induction h with
  | genesis h => exact .genesis h
  | move _ _ hm ih => exact .move ih trivial hm

/-- The moves of a block without transactions, when no proposal expires in it. -/
def Move.emptyBlock (b : SignedBlock) : List Move := [.startBlock b, .advance b, .settle, .recover]

/-- Such a block makes no evaluator calls, so it meets every condition that is about the calls. -/
theorem ReachableIf.emptyBlock {C : Database → Move → Prop} {b : SignedBlock} {s s' : Database}
    (hC : ∀ t m, Move.calls m t = [] → C t m) (hs : ReachableIf C s)
    (h : Runs ((Move.emptyBlock b).forM Move.run) s () s') : ReachableIf C s' := by
  refine forM_induction (fun m hm t u ht hu => .move ht (hC t m ?_) hu) h hs
  simp only [Move.emptyBlock, List.mem_cons, List.not_mem_nil, or_false] at hm
  obtain rfl | rfl | rfl | rfl := hm <;> rfl

/-- A proposal that expires is executed, when it is approved in time, or just removed. -/
theorem runs_expireProposal {e : Entry ProposalObject} {s s' : Database}
    (h : Runs (expireProposal e) s () s') :
    (s' = { s with proposals := s.proposals.remove e.id } ∧
        (s.isAuthorizedToExecute e.val = true → ∃ x,
          pushProposal (applyOperation (BTCM_MAX_PROPOSAL_NESTING - 1)) e.id s = .error x)) ∨
      s.isAuthorizedToExecute e.val = true ∧
        Runs (pushProposal (applyOperation (BTCM_MAX_PROPOSAL_NESTING - 1)) e.id) s () s' := by
  simp only [expireProposal, runs_bind_reads, runs_ite] at h
  rcases h with ⟨ha, h⟩ | ⟨hnot, h⟩
  · rw [runs_bind] at h
    obtain ⟨done, t, hd, h⟩ := h
    rw [runs_whenM, Table.runs_remove] at h
    rcases runs_attempt.mp hd with ⟨rfl, hr⟩ | ⟨rfl, rfl, hfailed⟩
    · rcases h with ⟨hf, -⟩ | ⟨-, rfl⟩
      · cases hf
      · exact Or.inr ⟨ha, hr⟩
    · rcases h with ⟨-, rfl⟩ | ⟨hf, -⟩
      · exact Or.inl ⟨rfl, fun _ => hfailed⟩
      · cases hf
  · rw [runs_bind_pure, runs_whenM, Table.runs_remove] at h
    rcases h with ⟨-, rfl⟩ | ⟨hf, -⟩
    · exact Or.inl ⟨rfl, fun ha => absurd ha hnot⟩
    · cases hf

/-- What relates every evaluator call relates the end of a proposal. -/
theorem expire_trace {R : Database → List Call → Database → Prop} (hR : Traces R)
    (heval : ∀ push op s s', op.isProposalUpdate = false → op.validate = .ok () →
      Runs (evaluate push op) s () s' → R s [⟨s, op⟩] s')
    {id : Nat} {s s' : Database} (hs : ProposalsValid s) (h : Runs (Move.expire id).run s () s') :
    R s ((Move.expire id).calls s) s' ∧ ProposalsValid s' := by
  simp only [Move.run, runs_bind_get] at h
  obtain ⟨p, hp, h⟩ := h
  have hp : s.proposals.find? id = some p := hp
  simp only [Move.calls, hp, Option.elim_some]
  rcases runs_expireProposal h with ⟨rfl, hfailed⟩ | ⟨ha, hr⟩
  · have hnone : (if s.isAuthorizedToExecute p then
        pushedCalls (applyOperation (BTCM_MAX_PROPOSAL_NESTING - 1))
          (BtcmChain.calls (BTCM_MAX_PROPOSAL_NESTING - 1)) id s else []) = [] := by
      split
      case isTrue ha =>
        obtain ⟨x, hx⟩ := hfailed ha
        simp [pushedCalls, hx, Except.toOption]
      case isFalse => rfl
    rw [hnone]
    exact ⟨hR.pending _ _, hs.remove id⟩
  · rw [if_pos ha]
    exact pushProposal_trace hR (applyOperation_trace hR heval _) hs hr

/-- What relates every evaluator call and every move of the block itself relates every move. -/
theorem Move.run_trace {R : Database → List Call → Database → Prop} (hR : Traces R) {m : Move}
    (heval : ∀ push op s s', op.isProposalUpdate = false → op.validate = .ok () →
      Runs (evaluate push op) s () s' → R s [⟨s, op⟩] s')
    (hstart : ∀ b s s', Runs (BtcmChain.startBlock b) s () s' → R s [] s')
    (hadvance : ∀ b s s', Runs (advanceClock b) s () s' → R s [] s')
    (hsettle : m = .settle → ∀ s s', Runs settleBlock s () s' → R s [] s')
    (hrecover : ∀ s s', Runs accountRecoveryProcessing s () s' → R s [] s')
    {s s' : Database} (hs : ProposalsValid s) (h : Runs m.run s () s') :
    R s (m.calls s) s' ∧ ProposalsValid s' := by
  cases m with
  | operation op =>
      simp only [Move.run, runs_bind_ofExcept] at h
      obtain ⟨_, hv, h⟩ := h
      exact applyOperation_trace hR heval _ op s s' hv hs h
  | startBlock b =>
      have h : Runs (BtcmChain.startBlock b) s () s' := h
      exact ⟨hstart b s s' h, hs.congr (Writes.proposals_eq h (by decide))⟩
  | advance b =>
      have h : Runs (advanceClock b) s () s' := h
      exact ⟨hadvance b s s' h, hs.congr (Writes.proposals_eq h (by decide))⟩
  | settle =>
      have h : Runs settleBlock s () s' := h
      exact ⟨hsettle rfl s s' h, hs.congr (Writes.proposals_eq h (by decide))⟩
  | recover =>
      have h : Runs accountRecoveryProcessing s () s' := h
      exact ⟨hrecover s s' h, hs.congr (Writes.proposals_eq h (by decide))⟩
  | expire id => exact expire_trace hR heval hs h

/-- What every evaluator call and every move of the block itself preserves, every move
preserves. -/
theorem Move.run_induction {P : Database → Prop} {C : Call → Prop} {m : Move}
    (hpending : ∀ s x, P s → P { s with proposals := x })
    (heval : ∀ push op s s', op.isProposalUpdate = false → op.validate = .ok () → C ⟨s, op⟩ → P s →
      Runs (evaluate push op) s () s' → P s')
    (hstart : ∀ b s s', P s → Runs (BtcmChain.startBlock b) s () s' → P s')
    (hadvance : ∀ b s s', P s → Runs (advanceClock b) s () s' → P s')
    (hsettle : m = .settle → ∀ s s', P s → Runs settleBlock s () s' → P s')
    (hrecover : ∀ s s', P s → Runs accountRecoveryProcessing s () s' → P s')
    {s s' : Database} (hs : ProposalsValid s) (hcalls : ∀ c ∈ m.calls s, C c) (hP : P s)
    (h : Runs m.run s () s') : P s' ∧ ProposalsValid s' := by
  have hone : ∀ push op s s', op.isProposalUpdate = false → op.validate = .ok () →
      Runs (evaluate push op) s () s' → (∀ c ∈ [(⟨s, op⟩ : Call)], C c) → P s → P s' :=
    fun push op s s' hop hv hr hC hP => heval push op s s' hop hv (hC _ List.mem_cons_self) hP hr
  obtain ⟨hr, hs'⟩ := Move.run_trace (traces_invariant hpending) hone
    (fun b s s' hr _ hP => hstart b s s' hP hr) (fun b s s' hr _ hP => hadvance b s s' hP hr)
    (fun hm s s' hr _ hP => hsettle hm s s' hP hr) (fun s s' hr _ hP => hrecover s s' hP hr) hs h
  exact ⟨hr hcalls hP, hs'⟩

omit [Externals] in
instance (d : DynamicGlobalPropertyObject) :
    Writes (modifyDgpo fun _ => .ok d) [.funds, .stakes, .listening, .clock, .finality, .slots, .voting] :=
  ⟨⟨fun hi _ _ _ hr => by
    obtain ⟨d, -, rfl⟩ := runs_modifyDgpo.mp hr
    refine same_dgpo ?_ ?_ ?_ ?_ ?_ ?_ ?_ <;> intro h <;> exact absurd h (by rintro rfl; simp at hi)⟩⟩

instance (g : GenesisState) : Writes (initGenesis g)
    [.funds, .stakes, .listening, .names, .clock, .rates, .voting, .laps, .redelegations, .finality,
      .slots] :=
  ⟨by unfold initGenesis createInitMiner importAsset importBalance importVesting; infer_instance⟩

/-- In every reachable state the operations of the stored proposals are valid. -/
theorem Reachable.proposalsValid {s : Database} (h : Reachable s) : ProposalsValid s := by
  induction h with
  | genesis h =>
      have he := Writes.proposals_eq h (by decide)
      intro id p hp
      rw [he] at hp
      cases hp
  | move _ _ hm ih =>
      exact (Move.run_induction (P := fun _ => True) (C := fun _ => True) (fun _ _ _ => trivial)
        (fun _ _ _ _ _ _ _ _ _ => trivial) (fun _ _ _ _ _ => trivial) (fun _ _ _ _ _ => trivial)
        (fun _ _ _ _ _ => trivial) (fun _ _ _ _ => trivial) ih (fun _ _ => trivial) trivial hm).2

/-! ## Blocks -/

theorem Reachable.move {m : Move} {s s' : Database} (hs : Reachable s) (h : Runs m.run s () s') :
    Reachable s' := ReachableIf.move hs trivial h

theorem Reachable.operation {op : Operation} {s s' : Database} (hs : Reachable s)
    (hv : op.validate = .ok ())
    (h : Runs (applyOperation BTCM_MAX_PROPOSAL_NESTING op) s () s') : Reachable s' :=
  hs.move (m := .operation op) (by
    simp only [Move.run, runs_bind_ofExcept]
    exact ⟨(), hv, h⟩)

theorem Reachable.transaction {ops : List Operation} {s s' : Database} (hs : Reachable s)
    (h : Runs (applyTransaction ops) s () s') : Reachable s' := by
  simp only [applyTransaction, runs_bind_require, runs_bind_ofExcept] at h
  obtain ⟨-, _, hv, h⟩ := h
  refine forM_induction (fun op ho t t' ht hr => ?_) h hs
  exact ht.operation (validateAll_ok.mp hv op ho) hr

theorem Reachable.clearExpiredProposals {s s' : Database} (hs : Reachable s)
    (h : Runs clearExpiredProposals s () s') : Reachable s' := by
  simp only [BtcmChain.clearExpiredProposals, runs_bind_headBlockTime, runs_bind_reads] at h
  refine due_induction (P := fun _ t => Reachable t) (fun _ _ p t u ht hp _ hb => ?_) h hs
  refine ht.move (m := .expire p.id) ?_
  simp only [Move.run, runs_bind_get]
  exact ⟨p.val, hp, hb⟩

section BlockInduction

variable {P : Database → Prop} (hpending : ∀ s x, P s → P { s with proposals := x })
  (heval : ∀ push op s s', op.isProposalUpdate = false → op.validate = .ok () → P s →
    Runs (evaluate push op) s () s' → P s')

include hpending heval

/-- What every evaluator call preserves, an operation with all it executes preserves. -/
theorem applyOperation_induction {n : Nat} {op : Operation} {s s' : Database}
    (hv : op.validate = .ok ()) (hs : ProposalsValid s) (hP : P s)
    (h : Runs (applyOperation n op) s () s') : P s' ∧ ProposalsValid s' := by
  obtain ⟨hr, hs'⟩ := applyOperation_trace (traces_invariant (C := fun _ => True) hpending)
    (fun push op s s' hop hv hr _ hP => heval push op s s' hop hv hP hr) n op s s' hv hs h
  exact ⟨hr (fun _ _ => trivial) hP, hs'⟩

/-- What every operation of a transaction preserves, a transaction preserves. -/
theorem applyTransaction_induction {ops : List Operation} {s s' : Database}
    (h : Runs (applyTransaction ops) s () s') (hP : P s ∧ ProposalsValid s) :
    P s' ∧ ProposalsValid s' := by
  simp only [applyTransaction, runs_bind_require, runs_bind_ofExcept] at h
  obtain ⟨-, _, hv, h⟩ := h
  refine forM_induction (P := fun t => P t ∧ ProposalsValid t) (fun op ho t t' ht hr => ?_) h hP
  exact applyOperation_induction hpending heval (validateAll_ok.mp hv op ho) ht.2 ht.1 hr

/-- So does the clearing of expired proposals, some of which are executed. -/
theorem clearExpiredProposals_induction {s s' : Database}
    (h : Runs clearExpiredProposals s () s') (hP : P s ∧ ProposalsValid s) :
    P s' ∧ ProposalsValid s' := by
  simp only [BtcmChain.clearExpiredProposals, runs_bind_headBlockTime, runs_bind_reads] at h
  refine due_induction (P := fun _ t => P t ∧ ProposalsValid t) (fun _ _ p t u ht hp _ hb => ?_) h hP
  rcases runs_expireProposal hb with ⟨rfl, -⟩ | ⟨-, hr⟩
  · exact ⟨hpending _ _ ht.1, ht.2.remove p.id⟩
  · obtain ⟨hr, hs'⟩ := pushProposal_trace (traces_invariant (C := fun _ => True) hpending)
      (applyOperation_trace (traces_invariant (C := fun _ => True) hpending)
        (fun push op s s' hop hv hr _ hP => heval push op s s' hop hv hP hr) _) ht.2 hr
    exact ⟨hr (fun _ _ => trivial) ht.1, hs'⟩

end BlockInduction

/-- A block that is applied leads from reachable states to reachable states. -/
theorem applyBlock_reachable {b : SignedBlock} {s s' : Database} (hs : Reachable s)
    (h : Runs (applyBlock b) s () s') : Reachable s' := by
  simp only [applyBlock] at h
  rw [runs_bind] at h
  obtain ⟨_, t1, h1, h⟩ := h
  rw [runs_bind] at h
  obtain ⟨_, t2, h2, h⟩ := h
  have hclock : (advanceClock b >>= fun _ => do
      clearExpiredProposals
      settleBlock
      accountRecoveryProcessing) = finishBlock b := by
    simp only [advanceClock, finishBlock, bind_assoc]
  rw [← hclock, runs_bind] at h
  obtain ⟨_, t3, h3, h⟩ := h
  rw [runs_bind] at h
  obtain ⟨_, t4, h4, h⟩ := h
  rw [runs_bind] at h
  obtain ⟨_, t5, h5, h6⟩ := h
  have r1 : Reachable t1 := hs.move (m := .startBlock b) h1
  have r2 : Reachable t2 := forM_induction (fun ops _ _ _ hr => hr.transaction) h2 r1
  have r3 : Reachable t3 := r2.move (m := .advance b) h3
  have r5 : Reachable t5 := (r3.clearExpiredProposals h4).move (m := .settle) h5
  exact r5.move (m := .recover) h6

/-! ## The parts of a settlement -/

/-- A step of `settleBlock`, with what the steps before it have computed. -/
inductive Part where
  | expiredOrders
  | expiredDelegations
  | schedule
  | medianFeed
  | virtualSupply
  | producerReward
  | funds (contentReward witnessPay : ShareType)
  | conversions
  | cashout (contentReward : ShareType)
  | adjustFunds (contentReward paid : ShareType)
  | withdrawals

/-- The program of a part of the settlement of a block. -/
def Part.run : Part → DbM Unit
  | .expiredOrders => clearExpiredOrders
  | .expiredDelegations => clearExpiredDelegations
  | .schedule => updateWitnessSchedule
  | .medianFeed => updateMedianFeed
  | .virtualSupply => updateVirtualSupply
  | .producerReward => do
      let _ ← getProducerReward
      return ()
  | .funds contentReward witnessPay => processFunds contentReward witnessPay 0
  | .conversions => processConversions
  | .cashout contentReward => do
      let _ ← processContentCashout contentReward
      return ()
  | .adjustFunds contentReward paid => BtcmChain.adjustFunds contentReward paid
  | .withdrawals => processVestingWithdrawals

omit [Externals] in
/-- Apart from the schedule and the median feed, the parts touch neither. -/
theorem Part.writes {p : Part} (hfeed : p ≠ .medianFeed) (hsched : p ≠ .schedule) :
    Writes p.run [.funds, .stakes, .listening, .pools, .catalogue, .voting, .laps, .orders] :=
  ⟨by
    cases p <;> first | exact absurd rfl hfeed | exact absurd rfl hsched | skip
    all_goals
      unfold Part.run
      infer_instance⟩

/-- The states of runs in which settlements go part by part, each of which meets `C` where it
starts. Parts may come in any order, which only adds runs. -/
inductive PiecewiseIf (C : Database → Part → Prop) : Database → Prop
  | genesis {g : GenesisState} {s : Database} : Runs (initGenesis g) {} () s → PiecewiseIf C s
  | move {m : Move} {s s' : Database} :
      PiecewiseIf C s → m ≠ .settle → Runs m.run s () s' → PiecewiseIf C s'
  | part {p : Part} {s s' : Database} :
      PiecewiseIf C s → C s p → Runs p.run s () s' → PiecewiseIf C s'

/-- The settlement of a block is a sequence of its parts. -/
theorem PiecewiseIf.settle {s s' : Database} (hs : PiecewiseIf (fun _ _ => True) s)
    (h : Runs settleBlock s () s') : PiecewiseIf (fun _ _ => True) s' := by
  have part : ∀ {p : Part} {t u : Database}, PiecewiseIf (fun _ _ => True) t →
      Runs p.run t () u → PiecewiseIf (fun _ _ => True) u := fun ht hp => .part ht trivial hp
  simp only [settleBlock, runs_bind] at h
  obtain ⟨_, t1, h1, _, t2, h2, _, t3, h3, _, t4, h4, _, t5, h5, c, t6, h6, w, t7, h7, _, t8, h8,
    _, t9, h9, p, t10, h10, _, t11, h11, _, t12, h12, h13⟩ := h
  have r5 := part (p := .virtualSupply) (part (p := .medianFeed) (part (p := .schedule)
    (part (p := .expiredDelegations) (part (p := .expiredOrders) hs h1) h2) h3) h4) h5
  have r6 : PiecewiseIf (fun _ _ => True) t6 := by
    simp only [getContentReward, runs_bind_reads, runs_bind_ofExcept, runs_pure] at h6
    obtain ⟨_, -, -, rfl⟩ := h6
    exact r5
  have r7 := part (p := .producerReward) r6 (runs_bind.mpr ⟨w, t7, h7, runs_pure.mpr ⟨rfl, rfl⟩⟩)
  have r9 := part (p := .conversions) (part (p := .funds c w) r7 h8) h9
  have r10 := part (p := .cashout c) r9 (runs_bind.mpr ⟨p, t10, h10, runs_pure.mpr ⟨rfl, rfl⟩⟩)
  exact part (p := .virtualSupply)
    (part (p := .withdrawals) (part (p := .adjustFunds c p) r10 h11) h12) h13

theorem PiecewiseIf.proposalsValid {C : Database → Part → Prop} {s : Database}
    (h : PiecewiseIf C s) : ProposalsValid s := by
  induction h with
  | genesis h =>
      have hs : Reachable _ := .genesis h
      exact hs.proposalsValid
  | move _ hne hm ih =>
      exact (Move.run_induction (P := fun _ => True) (C := fun _ => True) (fun _ _ _ => trivial)
        (fun _ _ _ _ _ _ _ _ _ => trivial) (fun _ _ _ _ _ => trivial) (fun _ _ _ _ _ => trivial)
        (fun _ _ _ _ _ => trivial) (fun _ _ _ _ => trivial) ih (fun _ _ => trivial) trivial hm).2
  | @part p _ _ _ _ hp ih =>
      have hsame : Writes p.run
          [.funds, .stakes, .listening, .pools, .catalogue, .rates, .feeds, .voting, .laps, .orders] :=
        ⟨by cases p <;> unfold Part.run <;> infer_instance⟩
      exact ih.congr (Writes.proposals_eq hp (by decide))

/-- A whole chain: genesis, and then its blocks one after the other. -/
def replay (g : GenesisState) (blocks : List SignedBlock) : DbM Unit := do
  initGenesis g
  blocks.forM applyBlock

/-- The state that a chain leads to is reachable. -/
theorem replay_reachable {g : GenesisState} {blocks : List SignedBlock} {s : Database}
    (h : Runs (replay g blocks) {} () s) : Reachable s := by
  rw [replay, runs_bind] at h
  obtain ⟨_, t, hg, h⟩ := h
  exact forM_induction (fun b _ _ _ ht => applyBlock_reachable ht) h (.genesis hg)

end BtcmChain
