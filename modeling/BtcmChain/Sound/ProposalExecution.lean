import BtcmChain.Chain.ProposalSessions
import BtcmChain.Chain.Run
import BtcmChain.Sound.Conservation

set_option autoImplicit false
set_option synthInstance.maxSize 10000000
set_option synthInstance.maxHeartbeats 200000

/-!
# Proposals are executed wholly or not at all

The sessions are invisible from outside: inside one, a program that keeps its changes when it
throws does what the same program does when it loses them (`Simulates`), and leaves the sessions
below alone. So `push_proposal` either applies everything or restores the objects and the undo
database. Every proposal refers to older ones only, which bounds the nesting; and nothing a
proposal does makes a new one, so `clear_expired_proposals` comes to an end.
-/

namespace BtcmChain

section Proposals

variable [Externals]

/-! ## Programs inside a session -/

section Sessions

variable {w w' u : Watched Database}

/-- The sessions are as they were; there may be room for more. -/
structure SameSessions (w w' : Watched Database) : Prop where
  stack : w'.stack = w.stack
  activeSessions : w'.activeSessions = w.activeSessions
  disabled : w'.disabled = w.disabled

omit [Externals] in
theorem SameSessions.refl (w : Watched Database) : SameSessions w w := ⟨rfl, rfl, rfl⟩

omit [Externals] in
theorem SameSessions.trans (h : SameSessions w u) (h' : SameSessions u w') : SameSessions w w' :=
  ⟨h'.stack.trans h.stack, h'.activeSessions.trans h.activeSessions, h'.disabled.trans h.disabled⟩

omit [Externals] in
theorem SameSessions.recorded (h : SameSessions w w') (hw : w.Recorded) : w'.Recorded := by
  unfold Watched.Recorded
  rw [h.stack, h.activeSessions]
  exact hw

/-- Changes are recorded in a session: undo is enabled, and there is a record for every session. -/
structure Guarded (w : Watched Database) : Prop where
  recorded : w.Recorded
  open_ : w.stack ≠ []
  enabled : w.disabled = false

omit [Externals] in
theorem SameSessions.guarded (h : SameSessions w w') (hw : Guarded w) : Guarded w' where
  recorded := h.recorded hw.recorded
  open_ := by
    rw [h.stack]
    exact hw.open_
  enabled := h.disabled.trans hw.enabled

omit [Externals] in
theorem Guarded.change (hw : Guarded w) (s : Database) : SameSessions w (w.change s) :=
  ⟨if_pos (Or.inr hw.open_), rfl, rfl⟩

/-- `m` does to the objects what `d` does, throws when `d` does, and leaves the sessions alone. -/
def Simulates (m : WatchM Unit) (d : DbM Unit) : Prop :=
  ∀ w, Guarded w → Post m w (fun _ w' => SameSessions w w' ∧ Runs d w.objects () w'.objects)
    (fun _ w' => SameSessions w w' ∧ Fails d w.objects)

/-- The same in front of everything, with the objects restored when it throws. -/
def Restores (m : WatchM Unit) (d : DbM Unit) : Prop :=
  ∀ w, w.Recorded → Post m w (fun _ w' => SameSessions w w' ∧ Runs d w.objects () w'.objects)
    (fun _ w' => SameSessions w w' ∧ w'.objects = w.objects ∧ Fails d w.objects)

omit [Externals] in
theorem post_look {α : Type} {m : DbM α} {P : α → Watched Database → Prop}
    {Q : Exn → Watched Database → Prop} :
    Post (Watched.look m) w P Q ↔
      (∀ a s, Runs m w.objects a s → P a w) ∧ ∀ e, m w.objects = .error e → Q e w := by
  unfold Post Watched.look Runs
  cases m w.objects with
  | ok r =>
      obtain ⟨a, s⟩ := r
      simp
  | error e => simp

omit [Externals] in
theorem post_perform {halfway : Database → Database} {m : DbM Unit}
    {P : Unit → Watched Database → Prop} {Q : Exn → Watched Database → Prop} :
    Post (Watched.perform halfway m) w P Q ↔
      (∀ s, Runs m w.objects () s → P () (w.change s)) ∧
        ∀ e, m w.objects = .error e → Q e (w.change (halfway w.objects)) := by
  unfold Post Watched.perform Runs
  cases m w.objects with
  | ok r =>
      obtain ⟨a, s⟩ := r
      simp
  | error e => simp

omit [Externals] in
theorem simulates_perform (halfway : Database → Database) (m : DbM Unit) :
    Simulates (Watched.perform halfway m) m := by
  intro w hw
  rw [post_perform]
  exact ⟨fun s hr => ⟨hw.change s, hr⟩, fun e he => ⟨hw.change _, e, he⟩⟩

omit [Externals] in
theorem Simulates.bind {m m' : WatchM Unit} {d d' : DbM Unit} (h : Simulates m d)
    (h' : Simulates m' d') : Simulates (m >>= fun _ => m') (d >>= fun _ => d') := by
  intro w hw
  rw [post_bind]
  refine (h w hw).mono (fun _ u hu => ?_) fun e u hu => ⟨hu.1, fails_bind.mpr (Or.inl hu.2)⟩
  refine (h' u (hu.1.guarded hw)).mono (fun _ v hv => ?_) fun e v hv => ?_
  · exact ⟨hu.1.trans hv.1, runs_bind.mpr ⟨(), _, hu.2, hv.2⟩⟩
  · exact ⟨hu.1.trans hv.1, fails_bind.mpr (Or.inr ⟨(), _, hu.2, hv.2⟩)⟩

omit [Externals] in
theorem simulates_forM {α : Type} {l : List α} {m : α → WatchM Unit} {d : α → DbM Unit}
    (h : ∀ a, Simulates (m a) (d a)) : Simulates (l.forM m) (l.forM d) := by
  induction l with
  | nil =>
      intro w hw
      exact ⟨.refl w, runs_pure.mpr ⟨rfl, rfl⟩⟩
  | cons a l ih => exact (h a).bind ih

omit [Externals] in
/-- With room for one more session, opening it drops nothing. -/
theorem start_eq (hroom : w.stack.length < w.maxSize) : w.startUndoSession true = { w with
    disabled := false
    stack := w.objects :: w.stack
    activeSessions := w.activeSessions + 1 } := by
  simp [Watched.startUndoSession, List.take_of_length_le hroom.le]

omit [Externals] in
theorem guarded_start (hw : w.Recorded) (hroom : w.stack.length < w.maxSize) :
    Guarded (w.startUndoSession true) := by
  rw [start_eq hroom]
  exact ⟨Nat.succ_le_succ hw, List.cons_ne_nil _ _, rfl⟩

omit [Externals] in
theorem raiseMaxSize_spec (w : Watched Database) : SameSessions w w.raiseMaxSize ∧
    w.raiseMaxSize.objects = w.objects ∧ w.raiseMaxSize.stack.length < w.raiseMaxSize.maxSize := by
  unfold Watched.raiseMaxSize
  split
  case isTrue => exact ⟨⟨rfl, rfl, rfl⟩, rfl, Nat.lt_succ_self _⟩
  case isFalse hle => exact ⟨.refl w, rfl, Nat.lt_of_not_le hle⟩

omit [Externals] in
theorem get_eq (w : Watched Database) : (get : WatchM (Watched Database)) w = .ok w w := rfl

omit [Externals] in
theorem set_eq (v w : Watched Database) : (set w : WatchM PUnit) v = .ok () w := rfl

omit [Externals] in
/-- **A session restores or merges**: when its body throws, the objects are as before, and otherwise
its record is merged. -/
theorem post_inSession {body : WatchM Unit} {d : DbM Unit} (h : Simulates body d)
    (hw : w.Recorded) (hroom : w.stack.length < w.maxSize) :
    Post (Watched.inSession body) w
      (fun _ w' => SameSessions w w' ∧ Runs d w.objects () w'.objects)
      (fun _ w' => SameSessions w w' ∧ w'.objects = w.objects ∧ Fails d w.objects) := by
  have hopened := start_eq hroom
  have hguarded := guarded_start hw hroom
  -- the two ends of the session, from wherever the body has got to
  have hinside : ∀ v, SameSessions (w.startUndoSession true) v → v.stack = w.objects :: w.stack ∧
      v.activeSessions = w.activeSessions + 1 ∧ v.disabled = false := by
    intro v hv
    have hstack := hv.stack
    have hactive := hv.activeSessions
    have hdisabled := hv.disabled
    rw [hopened] at hstack hactive hdisabled
    exact ⟨hstack, hactive, hdisabled⟩
  have hpost := h _ hguarded
  rw [post_iff] at hpost
  unfold Post Watched.inSession
  cases hb : body (w.startUndoSession true) with
  | ok a v =>
      obtain ⟨hsame, hr⟩ := hpost.1 a v hb
      obtain ⟨hstack, hactive, hdisabled⟩ := hinside v hsame
      have hmerge := Watched.merge_eq (hsame.recorded hguarded.recorded) (by omega) hstack
      simp only [hb, bind, EStateM.bind, get_eq, liftExcept, hmerge, set_eq]
      have hobjects : ∀ w' : Watched Database, w'.objects = v.objects →
          Runs d w.objects () w'.objects := by
        intro w' hw'
        rw [hw']
        rw [hopened] at hr
        exact hr
      cases hd : w.disabled with
      | true => exact ⟨⟨rfl, by simp [Watched.disable, hactive], hd.symm⟩, hobjects _ rfl⟩
      | false => exact ⟨⟨rfl, by simp [hactive], by simp [hdisabled, hd]⟩, hobjects _ rfl⟩
  | error e v =>
      obtain ⟨hsame, hfails⟩ := hpost.2 e v hb
      obtain ⟨hstack, hactive, hdisabled⟩ := hinside v hsame
      have hundo := Watched.undo_eq hdisabled (by omega) hstack
      simp only [hb, bind, EStateM.bind, Watched.destroy, hundo]
      rw [hopened] at hfails
      cases hd : w.disabled with
      | true => exact ⟨⟨rfl, by simp [Watched.disable, hactive], hd.symm⟩, rfl, hfails⟩
      | false => exact ⟨⟨rfl, by simp [hactive], by simp [hdisabled, hd]⟩, rfl, hfails⟩

end Sessions

/-! ## Executing a proposal -/

section Execution

variable {apply : Operation → WatchM Unit} {d : Operation → DbM Unit} {push : Nat → WatchM Unit}
  {pushed : Nat → DbM Unit} {halfway : Operation → Database → Database}

omit [Externals] in
/-- A proposal is executed wholly or not at all, whatever its operations have left behind when one
of them fails. -/
theorem restores_pushProposal (h : ∀ op, Simulates (apply op) (d op)) (id : Nat) :
    Restores (Watched.pushProposal apply id) (pushProposal d id) := by
  intro w hw
  unfold Watched.pushProposal pushProposal
  rw [post_bind, post_look]
  constructor
  · intro p s hp
    obtain ⟨hfind, rfl⟩ := Table.runs_get.mp hp
    rw [post_bind, post_modify]
    obtain ⟨hsame, hobjects, hroom⟩ := raiseMaxSize_spec w
    have hbody := (simulates_forM (l := p.proposedOps) h).bind
      (simulates_perform (fun s => s) (proposalIndex.remove id))
    refine (post_inSession hbody (hsame.recorded hw) hroom).mono ?_ ?_
    · rintro _ w' ⟨hsame', hr⟩
      rw [hobjects] at hr
      exact ⟨hsame.trans hsame', runs_bind_get.mpr ⟨p, hfind, hr⟩⟩
    · rintro e w' ⟨hsame', hrest, hfails⟩
      rw [hobjects] at hfails hrest
      exact ⟨hsame.trans hsame', hrest, fails_bind.mpr (Or.inr ⟨p, _, hp, hfails⟩)⟩
  · intro e he
    exact ⟨.refl w, rfl, fails_bind.mpr (Or.inl ⟨e, he⟩)⟩

omit [Externals] in
theorem simulates_update (h : ∀ id, Restores (push id) (pushed id)) (o : ProposalUpdateOperation) :
    Simulates (Watched.proposalUpdateEvaluator push o) (proposalUpdateEvaluator pushed o) := by
  intro w hw
  unfold Watched.proposalUpdateEvaluator proposalUpdateEvaluator
  rw [post_bind, post_look]
  refine ⟨fun p s hp => ?_, fun e he => ⟨.refl w, fails_bind.mpr (Or.inl ⟨e, he⟩)⟩⟩
  obtain ⟨hfind, rfl⟩ := Table.runs_get.mp hp
  rw [post_bind, post_look]
  refine ⟨fun _ s hchecks => ?_, fun e he => ⟨.refl w, fails_bind.mpr (Or.inr ⟨p, _, hp,
    fails_bind.mpr (Or.inl ⟨e, he⟩)⟩)⟩⟩
  obtain rfl := runs_checkApprovals hchecks
  rw [post_bind, post_perform]
  constructor
  · intro s hput
    obtain rfl := Table.runs_put.mp hput
    rw [post_bind, post_look]
    refine ⟨fun authorized t hauth => ?_, fun e he => by cases he⟩
    obtain ⟨rfl, rfl⟩ := runs_reads.mp hauth
    have hchange := hw.change (o.amendedState p w.objects)
    have hfinish : ∀ {s}, Runs (whenM (p.reviewPeriodTime.isNone &&
        (o.amendedState p w.objects).isAuthorizedToExecute (o.amend p))
          (do let _ ← attempt (pushed o.proposal))) (o.amendedState p w.objects) () s →
        Runs (proposalUpdateEvaluator pushed o) w.objects () s := by
      intro s hr
      exact runs_bind_get.mpr ⟨p, hfind, runs_bind.mpr ⟨(), _, hchecks,
        runs_bind_put.mpr (runs_bind_reads.mpr hr)⟩⟩
    split
    case isTrue hc =>
      rw [post_tryCatch]
      refine (h o.proposal _ (hchange.recorded hw.recorded)).mono ?_ ?_
      · rintro _ w' ⟨hsame, hr⟩
        refine ⟨hchange.trans hsame, hfinish (runs_whenM.mpr (Or.inl ⟨hc, ?_⟩))⟩
        exact runs_bind.mpr ⟨true, _, runs_attempt.mpr (Or.inl ⟨rfl, hr⟩), runs_pure.mpr ⟨rfl, rfl⟩⟩
      · rintro e w' ⟨hsame, hrest, hfails⟩
        refine ⟨hchange.trans hsame, hfinish (runs_whenM.mpr (Or.inl ⟨hc, ?_⟩))⟩
        rw [hrest]
        exact runs_bind.mpr ⟨false, _, runs_attempt.mpr (Or.inr ⟨rfl, rfl, hfails⟩),
          runs_pure.mpr ⟨rfl, rfl⟩⟩
    case isFalse hc =>
      exact ⟨hchange, hfinish (runs_whenM.mpr (Or.inr ⟨Bool.eq_false_iff.mpr hc, rfl⟩))⟩
  · intro e he
    cases he

/-- Only the update of a proposal makes use of `push`. -/
theorem evaluate_push {op : Operation} (hop : op.isProposalUpdate = false) (push push' : Nat → DbM Unit) :
    evaluate push op = evaluate push' op := by
  cases op <;> first | rfl | cases hop

theorem simulates_evaluate (h : ∀ id, Restores (push id) (pushed id)) (op : Operation) :
    Simulates (Watched.evaluate halfway push op) (evaluate pushed op) := by
  cases hop : op.isProposalUpdate with
  | true =>
      obtain ⟨o, rfl⟩ := Operation.eq_proposalUpdate hop
      exact simulates_update h o
  | false =>
      rw [evaluate_push hop pushed fun _ => throw .undefined]
      have hplain : Watched.evaluate halfway push op =
          Watched.perform (halfway op) (evaluate (fun _ => throw .undefined) op) := by
        cases op <;> first | rfl | cases hop
      rw [hplain]
      exact simulates_perform _ _

/-- **Sessions are invisible.** Inside a session an operation does what it does to the objects alone. -/
theorem simulates_applyOperation (n : ℕ) (op : Operation) :
    Simulates (Watched.applyOperation halfway n op) (applyOperation n op) := by
  induction n generalizing op with
  | zero =>
      refine simulates_evaluate (fun id w _ => ?_) op
      rw [post_throw]
      exact ⟨.refl w, rfl, _, rfl⟩
  | succ n ih => exact simulates_evaluate (fun id => restores_pushProposal ih id) op

/-- `push_proposal`, as `apply_operation` calls it, restores the state when it fails. -/
theorem restores_push (n id : ℕ) :
    Restores (Watched.pushProposal (Watched.applyOperation halfway n) id)
      (pushProposal (applyOperation n) id) :=
  restores_pushProposal (simulates_applyOperation n) id

end Execution

/-! ## What becomes of the stored proposals -/

section Stored

variable {s s' t : Database}

/-- Every proposal that is there has been there, and still proposes the same. -/
def Shrinks (s s' : Database) : Prop :=
  ∀ id p', s'.proposals.find? id = some p' → ∃ p, s.proposals.find? id = some p ∧
    p'.proposedOps = p.proposedOps

omit [Externals] in
theorem Shrinks.refl (s : Database) : Shrinks s s := fun _ p hp => ⟨p, hp, rfl⟩

omit [Externals] in
theorem Shrinks.trans (h : Shrinks s t) (h' : Shrinks t s') : Shrinks s s' := by
  intro id p' hp'
  obtain ⟨q, hq, hops⟩ := h' id p' hp'
  obtain ⟨p, hp, hops'⟩ := h id q hq
  exact ⟨p, hp, hops.trans hops'⟩

omit [Externals] in
theorem shrinks_of_eq (h : s'.proposals = s.proposals) : Shrinks s s' := by
  intro id p hp
  rw [h] at hp
  exact ⟨p, hp, rfl⟩

omit [Externals] in
theorem shrinks_remove (s : Database) (id : ℕ) :
    Shrinks s { s with proposals := s.proposals.remove id } := by
  intro id' p hp
  have hp : (s.proposals.remove id).find? id' = some p := hp
  rw [ObjectIndex.find?_remove] at hp
  split at hp
  · cases hp
  · exact ⟨p, hp, rfl⟩

omit [Externals] in
theorem shrinks_amend {o : ProposalUpdateOperation} {p : ProposalObject}
    (hp : s.proposals.find? o.proposal = some p) : Shrinks s (o.amendedState p s) := by
  intro id q hq
  have hq' : (s.proposals.update o.proposal fun _ => o.amend p).find? id = some q := hq
  rw [ObjectIndex.find?_update] at hq'
  split at hq'
  case isTrue he =>
    subst he
    rw [hp] at hq'
    obtain rfl := Option.some.inj hq'
    exact ⟨p, hp, rfl⟩
  case isFalse => exact ⟨q, hq', rfl⟩

theorem ProposalsValid.shrinks (h : ProposalsValid s) (hs : Shrinks s s') : ProposalsValid s' := by
  intro id p' hp' op hop
  obtain ⟨p, hp, hops⟩ := hs id p' hp'
  exact h id p hp op (hops ▸ hop)

/-- Operations that are applied in order only take proposals away, when each of them does so. -/
theorem forM_shrinks {apply : Operation → DbM Unit} {ops : List Operation}
    (happly : ∀ op ∈ ops, ∀ s s', ProposalsValid s → Runs (apply op) s () s' → Shrinks s s')
    (hs : ProposalsValid s) (h : Runs (ops.forM apply) s () s') : Shrinks s s' := by
  induction ops generalizing s with
  | nil =>
      obtain ⟨-, rfl⟩ := runs_pure.mp h
      exact .refl s'
  | cons op ops ih =>
      obtain ⟨⟨⟩, t, h1, h2⟩ := runs_bind.mp h
      have hst := happly op List.mem_cons_self s t hs h1
      exact hst.trans (ih (fun o ho => happly o (List.mem_cons_of_mem op ho)) (hs.shrinks hst) h2)

theorem pushProposal_shrinks {apply : Operation → DbM Unit}
    (happly : ∀ op s s', op.isProposalCreate = false → ProposalsValid s → Runs (apply op) s () s' →
      Shrinks s s') {id : ℕ} (hs : ProposalsValid s) (h : Runs (pushProposal apply id) s () s') :
    Shrinks s s' := by
  obtain ⟨p, t, hp, hops, rfl⟩ := runs_pushProposal h
  have hforM := forM_shrinks (fun op hop s s' => happly op s s' (hs id p hp op hop).2) hs hops
  exact hforM.trans (shrinks_remove t id)

/-- **No new proposals** but by an operation that creates one. -/
theorem applyOperation_shrinks (n : ℕ) {op : Operation} (hop : op.isProposalCreate = false)
    (hs : ProposalsValid s) (h : Runs (applyOperation n op) s () s') : Shrinks s s' := by
  have heval : ∀ push, (∀ id s s', ProposalsValid s → Runs (push id) s () s' → Shrinks s s') →
      ∀ op s s', op.isProposalCreate = false → ProposalsValid s → Runs (evaluate push op) s () s' →
      Shrinks s s' := by
    intro push hpush op s s' hop hs h
    cases hi : op.writes .pending with
    | true =>
        cases op <;> first | exact (Bool.false_ne_true hi).elim | skip
        case proposalCreate => cases hop
        case proposalDelete o =>
          obtain rfl := runs_proposalDeleteEvaluator h
          exact shrinks_remove s _
    | false =>
        cases hu : op.isProposalUpdate with
        | false => exact shrinks_of_eq (evaluate_same hu hi h)
        | true =>
            obtain ⟨o, rfl⟩ := Operation.eq_proposalUpdate hu
            obtain ⟨p, hp, ⟨rfl, -⟩ | ⟨-, hr⟩⟩ := runs_proposalUpdateEvaluator h
            · exact shrinks_amend hp
            · exact (shrinks_amend hp).trans (hpush o.proposal _ _ (hs.amend hp) hr)
  induction n generalizing op s s' with
  | zero => exact heval _ (fun _ _ _ _ hr => absurd hr runs_throw) op s s' hop hs h
  | succ n ih =>
      refine heval _ (fun id s s' hs hr => ?_) op s s' hop hs h
      exact pushProposal_shrinks (fun op s s' hop hs hr => ih hop hs hr) hs hr

/-- A proposal refers to older proposals only, which have smaller ids. -/
def ProposalsOlder (s : Database) : Prop :=
  ∀ id p, s.proposals.find? id = some p →
    ∀ op ∈ p.proposedOps, ∀ j, op.touchedProposal = some j → j < id

omit [Externals] in
theorem ProposalsOlder.shrinks (h : ProposalsOlder s) (hs : Shrinks s s') : ProposalsOlder s' := by
  intro id p' hp' op hop j hj
  obtain ⟨p, hp, hops⟩ := hs id p' hp'
  exact h id p hp op (hops ▸ hop) j hj

/-- A new proposal gets a number beyond everything it refers to. -/
theorem proposalCreate_older {ops : List Operation} {time : TimePointSec} {review : Option UInt32}
    (hs : ProposalsOlder s) (h : Runs (proposalCreateEvaluator ops time review) s () s') :
    ProposalsOlder s' := by
  simp only [proposalCreateEvaluator, runs_bind_require, runs_bind_headBlockTime, runs_bind_reads,
    runs_bind_ofExcept, runs_bind_create, runs_pure] at h
  obtain ⟨-, -, -, -, -, ⟨⟩, -, holder, req, -, -, approvers, -, -, -, rfl⟩ := h
  intro id p hp op hop j hj
  have hp : (s.proposals.create _).find? id = some p := hp
  rw [ObjectIndex.find?_create] at hp
  split at hp
  case isTrue hid =>
    obtain rfl := Option.some.inj hp
    rw [hid]
    exact of_decide_eq_true (List.all_eq_true.mp holder j (List.mem_filterMap.mpr ⟨op, hop, hj⟩))
  case isFalse => exact hs id p hp op hop j hj

section Lasting

variable {P : Database → Prop} (hshrinks : ∀ {s s'}, P s → Shrinks s s' → P s')
  (hcreate : ∀ {ops time review s s'}, P s →
    Runs (proposalCreateEvaluator ops time review) s () s' → P s')

include hshrinks hcreate

/-- What a new proposal meets and the loss of others leaves alone, an operation preserves. -/
theorem applyOperation_stored {n : ℕ} {op : Operation} (hs : ProposalsValid s) (hP : P s)
    (h : Runs (applyOperation n op) s () s') : P s' := by
  cases hop : op.isProposalCreate with
  | false => exact hshrinks hP (applyOperation_shrinks n hop hs h)
  | true =>
      cases op <;> first | exact (Bool.false_ne_true hop).elim | skip
      case proposalCreate ops time review =>
        cases n with
        | zero => exact hcreate hP h
        | succ n => exact hcreate hP h

/-- It then holds of the proposals of every reachable state. -/
theorem Reachable.stored (hempty : ∀ {s}, s.proposals = .empty → P s) (h : Reachable s) : P s := by
  induction h with
  | genesis h => exact hempty (Writes.proposals_eq h (by decide))
  | @move m s s' hs _ hm ih =>
      have hvalid : ProposalsValid s := hs.reachable.proposalsValid
      cases m with
      | operation op =>
          obtain ⟨-, -, hm⟩ := runs_bind_ofExcept.mp hm
          exact applyOperation_stored hshrinks hcreate hvalid ih hm
      | startBlock b =>
          have hm : Runs (BtcmChain.startBlock b) s () s' := hm
          exact hshrinks ih (shrinks_of_eq (Writes.proposals_eq hm (by decide)))
      | advance b =>
          have hm : Runs (advanceClock b) s () s' := hm
          exact hshrinks ih (shrinks_of_eq (Writes.proposals_eq hm (by decide)))
      | settle =>
          have hm : Runs settleBlock s () s' := hm
          exact hshrinks ih (shrinks_of_eq (Writes.proposals_eq hm (by decide)))
      | recover =>
          have hm : Runs accountRecoveryProcessing s () s' := hm
          exact hshrinks ih (shrinks_of_eq (Writes.proposals_eq hm (by decide)))
      | expire id =>
          obtain ⟨p, hp, hm⟩ := runs_bind_get.mp hm
          rcases runs_expireProposal hm with ⟨rfl, -⟩ | ⟨-, hr⟩
          · exact hshrinks ih (shrinks_remove s id)
          · exact hshrinks ih (pushProposal_shrinks
              (fun op s s' hop hs hr => applyOperation_shrinks _ hop hs hr) hvalid hr)

end Lasting

/-- **Nested updates refer to older proposals** in every reachable state. -/
theorem Reachable.proposalsOlder (h : Reachable s) : ProposalsOlder s :=
  h.stored (fun ho hs => ho.shrinks hs) proposalCreate_older fun he id p hp => by
    rw [he] at hp
    cases hp

end Stored

/-! ## Who calls `push_proposal`, and how deep -/

section Calls

variable {α β : Type} {w : Watched Database} {push push' : Nat → WatchM Unit}
  {halfway : Operation → Database → Database}

omit [Externals] in
theorem look_bind_congr {m : DbM α} {f g : α → WatchM β}
    (h : ∀ a s, Runs m w.objects a s → f a w = g a w) :
    (Watched.look m >>= f) w = (Watched.look m >>= g) w := by
  show EStateM.bind _ _ w = EStateM.bind _ _ w
  unfold EStateM.bind Watched.look
  cases hm : m w.objects with
  | error e => rfl
  | ok r => exact h r.1 r.2 hm

omit [Externals] in
theorem perform_bind_congr {m : DbM Unit} {halfway : Database → Database} {f g : Unit → WatchM β}
    (h : ∀ s, Runs m w.objects () s → f () (w.change s) = g () (w.change s)) :
    (Watched.perform halfway m >>= f) w = (Watched.perform halfway m >>= g) w := by
  show EStateM.bind _ _ w = EStateM.bind _ _ w
  unfold EStateM.bind Watched.perform
  cases hm : m w.objects with
  | error e => rfl
  | ok r => exact h r.2 hm

omit [Externals] in
theorem tryCatch_congr {m m' : WatchM α} {f : Exn → WatchM α} (h : m w = m' w) :
    tryCatch m f w = tryCatch m' f w := by
  show EStateM.tryCatch m f w = EStateM.tryCatch m' f w
  unfold EStateM.tryCatch
  rw [h]

omit [Externals] in
/-- What `push` does where it is called by an update decides what the update does. -/
theorem update_congr {o : ProposalUpdateOperation}
    (h : ∀ p, w.objects.proposals.find? o.proposal = some p →
      (o.amendedState p w.objects).isAuthorizedToExecute (o.amend p) = true →
      push o.proposal (w.change (o.amendedState p w.objects)) =
        push' o.proposal (w.change (o.amendedState p w.objects))) :
    Watched.proposalUpdateEvaluator push o w = Watched.proposalUpdateEvaluator push' o w := by
  unfold Watched.proposalUpdateEvaluator
  refine look_bind_congr fun p s hp => look_bind_congr fun _ s' _ => perform_bind_congr fun s'' hput => ?_
  obtain ⟨hfind, -⟩ := Table.runs_get.mp hp
  obtain rfl := Table.runs_put.mp hput
  refine look_bind_congr fun authorized t hauth => ?_
  obtain ⟨rfl, -⟩ := runs_reads.mp hauth
  split
  case isTrue hc => exact tryCatch_congr (h p hfind (Bool.and_eq_true_iff.mp hc).2)
  case isFalse => rfl

/-- **Only authorised proposals are pushed**: an operation does not depend on what pushing any
other proposal would do. -/
theorem evaluate_authorized
    (h : ∀ id (w : Watched Database) p, w.objects.proposals.find? id = some p →
      w.objects.isAuthorizedToExecute p = true → push id w = push' id w) (op : Operation) :
    Watched.evaluate halfway push op = Watched.evaluate halfway push' op := by
  cases hop : op.isProposalUpdate with
  | false => cases op <;> first | rfl | cases hop
  | true =>
      obtain ⟨o, rfl⟩ := Operation.eq_proposalUpdate hop
      funext w
      refine update_congr fun p hp hauth => h _ _ _ ?_ hauth
      show (w.objects.proposals.update o.proposal fun _ => o.amend p).find? o.proposal = _
      rw [ObjectIndex.find?_update, if_pos rfl, hp]
      rfl

omit [Externals] in
/-- The clearing of expired proposals only asks how those proposals are executed that are
authorised. -/
theorem clearExpired_authorized
    (h : ∀ id (w : Watched Database) p, w.objects.proposals.find? id = some p →
      w.objects.isAuthorizedToExecute p = true → push id w = push' id w) :
    Watched.clearExpiredProposals push = Watched.clearExpiredProposals push' := by
  have hround : ∀ (p : Entry ProposalObject) (w : Watched Database),
      w.objects.proposals.find? p.id = some p.val →
      Watched.expireProposal push p w = Watched.expireProposal push' p w := by
    intro p w hp
    unfold Watched.expireProposal
    refine look_bind_congr fun authorized s hauth => ?_
    obtain ⟨rfl, -⟩ := runs_reads.mp hauth
    split
    case isTrue hc =>
      have hpush : (tryCatch (do push p.id; pure true) fun _ => pure false : WatchM Bool) w =
          (tryCatch (do push' p.id; pure true) fun _ => pure false : WatchM Bool) w := by
        refine tryCatch_congr ?_
        show EStateM.bind _ _ w = EStateM.bind _ _ w
        unfold EStateM.bind
        rw [h p.id w p.val hp hc]
      show EStateM.bind _ _ w = EStateM.bind _ _ w
      unfold EStateM.bind
      rw [hpush]
    case isFalse => rfl
  have hloop : ∀ now n, Watched.expireDue push now n = Watched.expireDue push' now n := by
    intro now n
    induction n with
    | zero => rfl
    | succ n ih =>
        funext w
        unfold Watched.expireDue
        refine look_bind_congr fun next s hnext => ?_
        cases next with
        | none => rfl
        | some p =>
            obtain ⟨hfind, -, -⟩ := runs_due? hnext
            show EStateM.bind _ _ w = EStateM.bind _ _ w
            unfold EStateM.bind
            rw [hround p w hfind, ih]
  unfold Watched.clearExpiredProposals
  simp only [hloop]

omit [Externals] in
theorem inSession_congr {body body' : WatchM Unit}
    (h : body (w.startUndoSession true) = body' (w.startUndoSession true)) :
    Watched.inSession body w = Watched.inSession body' w := by
  unfold Watched.inSession
  simp only [bind, EStateM.bind, h]

/-- An operation that only updates older proposals does not get as deep as the guard. -/
theorem applyOperation_depth {n m : ℕ} {op : Operation}
    (h : ∀ o p, op = .proposalUpdate o → w.objects.proposals.find? o.proposal = some p →
      ∃ n' m', n = n' + 1 ∧ m = m' + 1 ∧
        Watched.pushProposal (Watched.applyOperation halfway n') o.proposal
            (w.change (o.amendedState p w.objects)) =
          Watched.pushProposal (Watched.applyOperation halfway m') o.proposal
            (w.change (o.amendedState p w.objects))) :
    Watched.applyOperation halfway n op w = Watched.applyOperation halfway m op w := by
  cases hop : op.isProposalUpdate with
  | false =>
      cases n <;> cases m <;> cases op <;> first | rfl | cases hop
  | true =>
      obtain ⟨o, rfl⟩ := Operation.eq_proposalUpdate hop
      have hsteps : ∀ k, ∃ push, Watched.applyOperation halfway k (.proposalUpdate o) =
          Watched.proposalUpdateEvaluator push o ∧
          ∀ k', k = k' + 1 → push = Watched.pushProposal (Watched.applyOperation halfway k') := by
        intro k
        cases k with
        | zero => exact ⟨fun _ => throw (.assert "Max proposal nesting depth exceeded!"), rfl, nofun⟩
        | succ k =>
            refine ⟨Watched.pushProposal (Watched.applyOperation halfway k), rfl, fun k' hk => ?_⟩
            cases hk
            rfl
      obtain ⟨push, hpush, hn⟩ := hsteps n
      obtain ⟨push', hpush', hm⟩ := hsteps m
      rw [hpush, hpush']
      refine update_congr fun p hp _ => ?_
      obtain ⟨n', m', hn', hm', heq⟩ := h o p rfl hp
      rw [hn n' hn', hm m' hm', heq]

/-- **Nested execution comes to an end** before the guard: from the number of the proposal on, the
depth that is left makes no difference. -/
theorem pushProposal_depth {n m id : ℕ} (hn : id ≤ n) (hm : id ≤ m) (hw : w.Recorded)
    (hvalid : ProposalsValid w.objects) (holder : ProposalsOlder w.objects) :
    Watched.pushProposal (Watched.applyOperation halfway n) id w =
      Watched.pushProposal (Watched.applyOperation halfway m) id w := by
  induction id using Nat.strong_induction_on generalizing n m w with
  | _ id ih =>
      have hforM : ∀ (ops : List Operation) (v : Watched Database), Guarded v →
          ProposalsValid v.objects → ProposalsOlder v.objects →
          (∀ op ∈ ops, op.isProposalCreate = false ∧ ∀ j, op.touchedProposal = some j → j < id) →
          ops.forM (Watched.applyOperation halfway n) v =
            ops.forM (Watched.applyOperation halfway m) v := by
        intro ops
        induction ops with
        | nil => exact fun _ _ _ _ _ => rfl
        | cons op ops ihops =>
            intro v hv hvalid holder hops
            obtain ⟨hflat, htouched⟩ := hops op List.mem_cons_self
            have hop : Watched.applyOperation halfway n op v = Watched.applyOperation halfway m op v := by
              refine applyOperation_depth fun o p ho hp => ?_
              subst ho
              -- an operation of a proposal executes older ones only, and the depth suffices
              have hlt : o.proposal < id := htouched o.proposal rfl
              refine ⟨n - 1, m - 1, by omega, by omega, ?_⟩
              exact ih o.proposal hlt (by omega) (by omega) ((hv.change _).recorded hv.recorded)
                (hvalid.amend hp) (holder.shrinks (shrinks_amend hp))
            have hsimulates : Simulates (Watched.applyOperation halfway m op) (applyOperation m op) :=
              simulates_applyOperation m op
            have hpost := hsimulates v hv
            rw [post_iff] at hpost
            show EStateM.bind _ _ v = EStateM.bind _ _ v
            unfold EStateM.bind
            rw [hop]
            cases hr : Watched.applyOperation halfway m op v with
            | error e u => rfl
            | ok a u =>
                obtain ⟨hsame, hrun⟩ := hpost.1 a u hr
                have hshrinks := applyOperation_shrinks m hflat hvalid hrun
                exact ihops u (hsame.guarded hv) (hvalid.shrinks hshrinks) (holder.shrinks hshrinks)
                  fun o ho => hops o (List.mem_cons_of_mem op ho)
      -- the session that is opened around the operations starts from the same objects
      unfold Watched.pushProposal
      refine look_bind_congr fun p s hp => ?_
      obtain ⟨hfind, -⟩ := Table.runs_get.mp hp
      show Watched.inSession _ w.raiseMaxSize = Watched.inSession _ w.raiseMaxSize
      obtain ⟨hsame, hobjects, hroom⟩ := raiseMaxSize_spec w
      have hopened := start_eq hroom
      refine inSession_congr ?_
      have hstart : (w.raiseMaxSize.startUndoSession true).objects = w.objects := by
        rw [hopened]
        exact hobjects
      show EStateM.bind _ _ _ = EStateM.bind _ _ _
      unfold EStateM.bind
      rw [hforM p.proposedOps _ (guarded_start (hsame.recorded hw) hroom) (hstart ▸ hvalid)
        (hstart ▸ holder) fun op hop => ⟨(hvalid id p hfind op hop).2, holder id p hfind op hop⟩]

end Calls

/-! ## Expiry -/

section Expiry

variable {s s' : Database} {w : Watched Database} {push : Nat → WatchM Unit}
  {halfway : Operation → Database → Database}

omit [Externals] in
/-- When no proposal is new and one of them is gone, there are fewer than before. -/
theorem size_lt_of_shrinks {id : ℕ} {p : ProposalObject} (hp : s.proposals.find? id = some p)
    (h : Shrinks s s') (hgone : s'.proposals.find? id = none) :
    s'.proposals.objs.size < s.proposals.objs.size := by
  have hsub : s'.proposals.objs.keys ⊆ (s.proposals.objs.erase id).keys := by
    intro k hk
    obtain ⟨⟨k, q⟩, hmem, rfl⟩ := List.mem_map.mp hk
    have hq : s'.proposals.find? k = some q := FlatMap.mem_entries_iff.mp hmem
    obtain ⟨r, hr, -⟩ := h k q hq
    refine List.mem_map.mpr ⟨(k, r), FlatMap.mem_entries_iff.mpr ?_, rfl⟩
    rw [FlatMap.find?_erase, if_neg]
    · exact hr
    · rintro rfl
      rw [hgone] at hq
      cases hq
  have hle := (List.subperm_of_subset s'.proposals.objs.nodup_keys hsub).length_le
  have herase := FlatMap.size_erase hp
  simp only [FlatMap.keys, List.length_map] at hle
  simp only [FlatMap.size] at herase ⊢
  omega

/-- An expiring proposal that is authorised and can be executed is executed. -/
theorem expireProposal_pushed {e : Entry ProposalObject} (ha : s.isAuthorizedToExecute e.val = true)
    (hr : Runs (pushProposal (applyOperation (BTCM_MAX_PROPOSAL_NESTING - 1)) e.id) s () s') :
    Runs (expireProposal e) s () s' := by
  rw [expireProposal, runs_bind_reads, if_pos ha]
  exact runs_bind.mpr ⟨true, s', runs_attempt.mpr (Or.inl ⟨rfl, hr⟩),
    runs_whenM.mpr (Or.inr ⟨rfl, rfl⟩)⟩

/-- Any other expiring proposal is just removed. -/
theorem expireProposal_removed {e : Entry ProposalObject}
    (h : s.isAuthorizedToExecute e.val = true →
      Fails (pushProposal (applyOperation (BTCM_MAX_PROPOSAL_NESTING - 1)) e.id) s) :
    Runs (expireProposal e) s () { s with proposals := s.proposals.remove e.id } := by
  have hremove : Runs (whenM (!false) (proposalIndex.remove e.id)) s ()
      { s with proposals := s.proposals.remove e.id } :=
    runs_whenM.mpr (Or.inl ⟨rfl, Table.runs_remove.mpr rfl⟩)
  rw [expireProposal, runs_bind_reads]
  split
  case isTrue ha =>
    exact runs_bind.mpr ⟨false, s, runs_attempt.mpr (Or.inr ⟨rfl, rfl, h ha⟩), hremove⟩
  case isFalse => exact runs_bind_pure.mpr hremove

/-- A round of the loop always goes through, whatever its proposal does. -/
theorem exists_expireProposal (e : Entry ProposalObject) (s : Database) :
    ∃ s', Runs (expireProposal e) s () s' := by
  by_cases hfails : s.isAuthorizedToExecute e.val = true →
      Fails (pushProposal (applyOperation (BTCM_MAX_PROPOSAL_NESTING - 1)) e.id) s
  · exact ⟨_, expireProposal_removed hfails⟩
  · obtain ⟨ha, hno⟩ := Classical.not_imp.mp hfails
    rcases runs_or_fails (pushProposal (applyOperation (BTCM_MAX_PROPOSAL_NESTING - 1)) e.id) s with
      ⟨⟨⟩, s', hr⟩ | hfails
    · exact ⟨s', expireProposal_pushed ha hr⟩
    · exact absurd hfails hno

/-- A round of the loop takes its proposal away, and perhaps others, but adds none. -/
theorem expireProposal_shrinks {e : Entry ProposalObject} (hs : ProposalsValid s)
    (h : Runs (expireProposal e) s () s') :
    Shrinks s s' ∧ s'.proposals.find? e.id = none := by
  rcases runs_expireProposal h with ⟨rfl, -⟩ | ⟨-, hr⟩
  · refine ⟨shrinks_remove s e.id, ?_⟩
    show (s.proposals.remove e.id).find? e.id = none
    rw [ObjectIndex.find?_remove, if_pos rfl]
  · refine ⟨pushProposal_shrinks (fun op s s' hop hs hr => applyOperation_shrinks _ hop hs hr) hs hr, ?_⟩
    obtain ⟨p, t, -, -, rfl⟩ := runs_pushProposal hr
    show (t.proposals.remove e.id).find? e.id = none
    rw [ObjectIndex.find?_remove, if_pos rfl]

/-- **The loop comes to an end**: a round for each proposal is enough. -/
theorem exists_clearExpiredProposals (hs : ProposalsValid s) :
    ∃ s', Runs clearExpiredProposals s () s' := by
  have hloop : ∀ (due : ProposalObject → Bool) n t, ProposalsValid t → t.proposals.objs.size ≤ n →
      ∃ s', Runs (drain .outOfFuel (proposalIndex.due? (·.expirationTime.toNat) due)
        (fun _ p => expireProposal p) n ()) t () s' := by
    intro due n
    induction n with
    | zero =>
        intro t ht hsize
        cases hnext : (proposalIndex.due? (·.expirationTime.toNat) due) t with
        | error e => cases hnext
        | ok r =>
            obtain ⟨next, u⟩ := r
            cases next with
            | none => exact ⟨u, runs_bind.mpr ⟨none, u, hnext, runs_pure.mpr ⟨rfl, rfl⟩⟩⟩
            | some e =>
                obtain ⟨hfind, -, -⟩ := runs_due? hnext
                have hmem : (e.id, e.val) ∈ t.proposals.objs.entries := FlatMap.mem_entries_iff.mpr hfind
                have hnil := List.eq_nil_of_length_eq_zero (Nat.le_zero.mp hsize)
                rw [hnil] at hmem
                exact absurd hmem List.not_mem_nil
    | succ n ih =>
        intro t ht hsize
        cases hnext : (proposalIndex.due? (·.expirationTime.toNat) due) t with
        | error e => cases hnext
        | ok r =>
            obtain ⟨next, u⟩ := r
            cases next with
            | none => exact ⟨u, runs_bind.mpr ⟨none, u, hnext, runs_pure.mpr ⟨rfl, rfl⟩⟩⟩
            | some e =>
                obtain ⟨hfind, -, rfl⟩ := runs_due? hnext
                obtain ⟨v, hv⟩ := exists_expireProposal e u
                obtain ⟨hshrinks, hgone⟩ := expireProposal_shrinks ht hv
                have hlt := size_lt_of_shrinks hfind hshrinks hgone
                obtain ⟨s', hr⟩ := ih v (ht.shrinks hshrinks) (by omega)
                exact ⟨s', runs_bind.mpr ⟨some e, u, hnext, runs_bind.mpr ⟨(), v, hv, hr⟩⟩⟩
  simp only [clearExpiredProposals, runs_bind_headBlockTime, runs_bind_reads]
  exact hloop _ _ s hs (le_refl _)

/-- No proposal that has expired is left behind the loop. -/
theorem clearExpiredProposals_clears (h : Runs clearExpiredProposals s () s') {id : ℕ}
    {p : ProposalObject} (hp : s'.proposals.find? id = some p) :
    ¬ p.expirationTime ≤ s.dgpo.time := by
  simp only [clearExpiredProposals, runs_bind_headBlockTime, runs_bind_reads] at h
  have hlate := due_exhausted (fun hle hdue => decide_eq_true (UInt32.le_trans hle (of_decide_eq_true hdue))) h hp
  exact of_decide_eq_false hlate

/-- A round inside the undo database is the same round. -/
theorem post_expireProposal (e : Entry ProposalObject) (hw : w.Recorded) :
    Post (Watched.expireProposal (Watched.pushProposal (Watched.applyOperation halfway
        (BTCM_MAX_PROPOSAL_NESTING - 1))) e) w
      (fun _ w' => w'.Recorded ∧ Runs (expireProposal e) w.objects () w'.objects)
      (fun _ _ => False) := by
  have hremove : ∀ v : Watched Database, v.Recorded → v.objects = w.objects →
      (w.objects.isAuthorizedToExecute e.val = true →
        Fails (pushProposal (applyOperation (BTCM_MAX_PROPOSAL_NESTING - 1)) e.id) w.objects) →
      Post (Watched.perform (fun s => s) (proposalIndex.remove e.id)) v
        (fun _ w' => w'.Recorded ∧ Runs (expireProposal e) w.objects () w'.objects)
        (fun _ _ => False) := by
    intro v hv hobjects hfails
    rw [post_perform]
    refine ⟨fun s hr => ?_, fun e he => by cases he⟩
    obtain rfl := Table.runs_remove.mp hr
    refine ⟨hv.change _, ?_⟩
    rw [hobjects]
    exact expireProposal_removed hfails
  unfold Watched.expireProposal
  rw [post_bind, post_look]
  refine ⟨fun authorized s hauth => ?_, fun e he => by cases he⟩
  obtain ⟨rfl, -⟩ := runs_reads.mp hauth
  split
  case isTrue ha =>
    rw [post_bind, post_tryCatch, post_bind]
    refine (restores_push _ e.id w hw).mono ?_ ?_
    · rintro _ w' ⟨hsame, hr⟩
      exact ⟨hsame.recorded hw, expireProposal_pushed ha hr⟩
    · rintro x w' ⟨hsame, hrest, hfails⟩
      exact hremove w' (hsame.recorded hw) hrest fun _ => hfails
  case isFalse ha => exact hremove w hw rfl fun ht => absurd ht ha

/-- The whole loop, with its sessions, does to the objects what it does without them. -/
theorem post_expireDue (now : TimePointSec) (n : ℕ) (hw : w.Recorded) :
    Post (Watched.expireDue (Watched.pushProposal (Watched.applyOperation halfway
        (BTCM_MAX_PROPOSAL_NESTING - 1))) now n) w
      (fun _ w' => w'.Recorded ∧ Runs (drain .outOfFuel (proposalIndex.due? (·.expirationTime.toNat)
        (·.expirationTime ≤ now)) (fun _ p => expireProposal p) n ()) w.objects () w'.objects)
      (fun _ _ => Fails (drain .outOfFuel (proposalIndex.due? (·.expirationTime.toNat)
        (·.expirationTime ≤ now)) (fun _ p => expireProposal p) n ()) w.objects) := by
  have hnone : ∀ {next : Option (Entry ProposalObject)} {s : Database},
      Runs (proposalIndex.due? (·.expirationTime.toNat) (·.expirationTime ≤ now)) w.objects next s →
      s = w.objects := fun hr => (runs_reads.mp hr).2
  induction n generalizing w with
  | zero =>
      unfold Watched.expireDue
      rw [post_bind, post_look]
      refine ⟨fun next s hnext => ?_, fun e he => by cases he⟩
      obtain rfl := hnone hnext
      cases next with
      | none => exact ⟨hw, runs_bind.mpr ⟨none, _, hnext, runs_pure.mpr ⟨rfl, rfl⟩⟩⟩
      | some e => exact fails_bind.mpr (Or.inr ⟨some e, _, hnext, _, rfl⟩)
  | succ n ih =>
      unfold Watched.expireDue
      rw [post_bind, post_look]
      refine ⟨fun next s hnext => ?_, fun e he => by cases he⟩
      obtain rfl := hnone hnext
      cases next with
      | none => exact ⟨hw, runs_bind.mpr ⟨none, _, hnext, runs_pure.mpr ⟨rfl, rfl⟩⟩⟩
      | some e =>
          simp only [Option.elim_some]
          rw [post_bind]
          refine (post_expireProposal e hw).mono ?_ fun _ _ hf => hf.elim
          rintro _ u ⟨hu, hround⟩
          refine (ih hu fun hr => (runs_reads.mp hr).2).mono ?_ ?_
          · rintro _ v ⟨hv, hr⟩
            exact ⟨hv, runs_bind.mpr ⟨some e, _, hnext, runs_bind.mpr ⟨(), _, hround, hr⟩⟩⟩
          · intro x v hfails
            exact fails_bind.mpr (Or.inr ⟨some e, _, hnext,
              fails_bind.mpr (Or.inr ⟨(), _, hround, hfails⟩)⟩)

/-- `clear_expired_proposals` inside the undo database returns, with the objects it returns with
on its own. -/
theorem post_clearExpiredProposals (hw : w.Recorded) (hs : ProposalsValid w.objects) :
    Post (Watched.clearExpiredProposals (Watched.pushProposal (Watched.applyOperation halfway
        (BTCM_MAX_PROPOSAL_NESTING - 1)))) w
      (fun _ w' => w'.Recorded ∧ Runs clearExpiredProposals w.objects () w'.objects)
      (fun _ _ => False) := by
  obtain ⟨s', hs'⟩ := exists_clearExpiredProposals hs
  have hs'' := hs'
  simp only [clearExpiredProposals, runs_bind_headBlockTime, runs_bind_reads] at hs''
  unfold Watched.clearExpiredProposals
  rw [post_bind, post_look]
  refine ⟨fun now s hnow => ?_, fun e he => by cases he⟩
  obtain ⟨rfl, -⟩ := runs_reads.mp hnow
  rw [post_bind, post_look]
  refine ⟨fun size s hsize => ?_, fun e he => by cases he⟩
  obtain ⟨rfl, -⟩ := runs_reads.mp hsize
  refine (post_expireDue _ _ hw).mono ?_ ?_
  · rintro _ w' ⟨hw', hr⟩
    simp only [clearExpiredProposals, runs_bind_headBlockTime, runs_bind_reads]
    exact ⟨hw', hr⟩
  · intro e w' hfails
    exact not_fails_of_runs hs'' hfails

end Expiry

/-! ## The execution of proposals -/

/-- **Proposal execution is all or nothing, authorised, and comes to an end.** -/
theorem proposal_execution (halfway : Operation → Database → Database) {w : Watched Database}
    (hw : w.Reached) (hr : Reachable w.objects) :
    -- all or nothing
    (∀ n id, Post (Watched.pushProposal (Watched.applyOperation halfway n) id) w
      (fun _ w' => SameSessions w w' ∧ ∃ p t, w.objects.proposals.find? id = some p ∧
        Runs (p.proposedOps.forM (applyOperation n)) w.objects () t ∧
        w'.objects = { t with proposals := t.proposals.remove id })
      (fun _ w' => SameSessions w w' ∧ w'.objects = w.objects)) ∧
    -- pushed only when authorised in the current state
    (∀ push push' : Nat → WatchM Unit,
      (∀ id (v : Watched Database) p, v.objects.proposals.find? id = some p →
        v.objects.isAuthorizedToExecute p = true → push id v = push' id v) →
      (∀ op, Watched.evaluate halfway push op = Watched.evaluate halfway push' op) ∧
        Watched.clearExpiredProposals push = Watched.clearExpiredProposals push') ∧
    -- nested updates refer to older proposals, so that any deeper nesting is the same
    (∀ id p, w.objects.proposals.find? id = some p → ∀ op ∈ p.proposedOps, ∀ j,
      op.touchedProposal = some j → j < id) ∧
    (∀ n m id, id ≤ n → id ≤ m →
      Watched.pushProposal (Watched.applyOperation halfway n) id w =
        Watched.pushProposal (Watched.applyOperation halfway m) id w) ∧
    -- no expired proposal survives
    Post (Watched.clearExpiredProposals (Watched.pushProposal (Watched.applyOperation halfway
        (BTCM_MAX_PROPOSAL_NESTING - 1)))) w
      (fun _ w' => ∀ id p, w'.objects.proposals.find? id = some p →
        ¬ p.expirationTime ≤ w.objects.dgpo.time)
      (fun _ _ => False) := by
  have hvalid := hr.proposalsValid
  have holder := hr.proposalsOlder
  refine ⟨fun n id => ?_, fun push push' h => ⟨evaluate_authorized h, clearExpired_authorized h⟩,
    holder, fun n m id hn hm => pushProposal_depth hn hm hw.recorded hvalid holder, ?_⟩
  · refine (restores_push n id w hw.recorded).mono ?_ fun e w' h => ⟨h.1, h.2.1⟩
    rintro _ w' ⟨hsame, hrun⟩
    exact ⟨hsame, runs_pushProposal hrun⟩
  · refine (post_clearExpiredProposals hw.recorded hvalid).mono ?_ fun _ _ h => h
    rintro _ w' ⟨-, hrun⟩ id p hp
    exact clearExpiredProposals_clears hrun hp

end Proposals

section Samples

open Sample

/-- `initminer` proposes to give away more BTCM than there is. -/
def generous : Operation :=
  .proposalCreate [.transfer "initminer" "initminer1" (btcm 5000000) ""] 1585423000 none

/-- With the undo database disabled, pushing it changes nothing for good. -/
theorem proposal_execution_generous :
    ∃ w : Watched Database, w.disabled = true ∧ (w.objects.proposals.find? 0).isSome ∧
      Post (Watched.pushProposal (Watched.applyOperation (fun _ s => s) 41) 0) w
        (fun _ w' => SameSessions w w' ∧ ∃ p t, w.objects.proposals.find? 0 = some p ∧
          Runs (p.proposedOps.forM (applyOperation 41)) w.objects () t ∧
          w'.objects = { t with proposals := t.proposals.remove 0 })
        (fun _ w' => SameSessions w w' ∧ w'.objects = w.objects) := by
  have hrun : leadsTo (replay richGenesis [firstBlock]) {} (fun s =>
      leadsTo (applyOperation BTCM_MAX_PROPOSAL_NESTING generous) s fun s' =>
        (s'.proposals.find? 0).isSome) = true := by
    decide +kernel
  obtain ⟨s, hs, hrun⟩ := leadsTo_iff.mp hrun
  obtain ⟨s', hop, hstored⟩ := leadsTo_iff.mp hrun
  have hreach : Reachable s' := (replay_reachable hs).operation (by decide) hop
  exact ⟨(Watched.mk s' [] 0 false 256).disable, rfl, hstored,
    (proposal_execution (fun _ s => s) (.disable (.init s' 256)) hreach).1 41 0⟩

end Samples

end BtcmChain
