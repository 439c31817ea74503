import BtcmChain.Evaluator.Asset

set_option autoImplicit false
set_option synthInstance.maxSize 10000000
set_option synthInstance.maxHeartbeats 200000

/-!
# Proposals and the application of operations

A proposal stores operations until the approvals it collects authorise them; the
update that completes the authorisation executes them at once, at the latest they are
tried when the proposal expires. A proposed operation may itself update another,
older proposal, so `applyOperation` recurses, with the source's nesting limit as the
measure. A proposal that fails to apply is rolled back and the update that triggered
it still succeeds.
-/

namespace BtcmChain

/-! ## Authorisation -/

/-- Who has the authority of an account or a content. -/
abbrev AuthorityGetter := String → Except Exn Authority

/-- The key part of `check_authority`: whether the threshold was reached, and the
weight so far. -/
def weighKeys (keys : List PublicKey) (threshold : UInt32) :
    List (PublicKey × UInt16) → UInt32 → Bool × UInt32
  | [], w => (false, w)
  | k :: ks, w =>
      if k.1 ∈ keys then
        if threshold ≤ w + k.2.toUInt32 then (true, w + k.2.toUInt32)
        else weighKeys keys threshold ks (w + k.2.toUInt32)
      else weighKeys keys threshold ks w

/-- The account part. `check` is the recursive check, absent at the depth limit; the
accounts found to approve are remembered. -/
def weighAccounts (get : AuthorityGetter)
    (check : Option (Authority → List String → Except Exn (Bool × List String)))
    (threshold : UInt32) :
    List (String × UInt16) → UInt32 → List String → Except Exn (Bool × List String)
  | [], w, approved => .ok (threshold ≤ w, approved)
  | a :: as, w, approved =>
      if a.1 ∈ approved then
        if threshold ≤ w + a.2.toUInt32 then .ok (true, approved)
        else weighAccounts get check threshold as (w + a.2.toUInt32) approved
      else
        match check with
        | none => weighAccounts get check threshold as w approved
        | some f => do
            let auth ← get a.1
            let r ← f auth approved
            if r.1 then
              if threshold ≤ w + a.2.toUInt32 then .ok (true, a.1 :: r.2)
              else weighAccounts get check threshold as (w + a.2.toUInt32) (a.1 :: r.2)
            else weighAccounts get check threshold as w r.2

/-- `sign_state::check_authority( authority, depth )`, by the depth that is left. -/
def checkAuthority (keys : List PublicKey) (get : AuthorityGetter) :
    Nat → Authority → List String → Except Exn (Bool × List String)
  | n, auth, approved =>
      let byKeys := weighKeys keys auth.weightThreshold auth.keyAuths.entries 0
      if byKeys.1 then .ok (true, approved)
      else
        match n with
        | 0 => weighAccounts get none auth.weightThreshold auth.accountAuths.entries byKeys.2 approved
        | n + 1 =>
            weighAccounts get (some (checkAuthority keys get n)) auth.weightThreshold
              auth.accountAuths.entries byKeys.2 approved

/-- Try authorities one after the other until one is satisfied, or throw. -/
def requireOneOf (keys : List PublicKey) (get : AuthorityGetter) (msg : String) :
    List (Except Exn Authority) → List String → Except Exn (List String)
  | [], _ => .error (.assert msg)
  | auth :: rest, approved => do
      let a ← auth
      let r ← checkAuthority keys get 2 a approved
      if r.1 then .ok r.2 else requireOneOf keys get msg rest r.2

/-- A set of names, in the order of a `flat_set`. -/
def nameSet (l : List String) : List String := l.dedup.insertionSort (· ≤ ·)

/-- `database::get_account( name ).active` and its siblings, as getters of `verify_authority`. -/
def Database.accountAuthority (s : Database) (part : AccountProfile → Authority) : AuthorityGetter :=
  fun name => ((s.accounts.findBy? (·.name = name)).map fun e => part e.2.toAccountProfile).elim
    (.error (.assert "Unable to find account '${acct}'. Did you forget to add a record for it?")) .ok

/-- `database::get_content( url ).manage_master` and its sibling, as getters of `verify_authority`.
-/
def Database.contentAuthority (s : Database) (part : ContentObject → Authority) : AuthorityGetter :=
  fun url => ((s.contents.findBy? (·.url = url)).map fun e => part e.2).elim
    (.error (.assert "itr != by_url_idx.end()")) .ok

/-- The authorities that a list of operations requires, sorted by their kinds. -/
structure Required where
  active : List String
  owner : List String
  basic : List String
  masterContent : List String
  compContent : List String
  other : List Authority

/-- Collect them. Active and owner authority cover the basic one; operations that
need a basic authority only cannot be combined with others. -/
def requiredOf (ops : List Operation) : Except Exn Required := do
  let active := nameSet (ops.flatMap Operation.requiredActive)
  let owner := nameSet (ops.flatMap Operation.requiredOwner)
  let basic := (nameSet (ops.flatMap Operation.requiredBasic)).filter
    fun n => n ∉ active ∧ n ∉ owner
  let masterContent := nameSet (ops.flatMap Operation.requiredMasterContent)
  let compContent := nameSet (ops.flatMap Operation.requiredCompContent)
  let other := ops.flatMap Operation.requiredOther
  fcAssert (basic.isEmpty || (active.isEmpty && owner.isEmpty && masterContent.isEmpty &&
    compContent.isEmpty && other.isEmpty)) "Cannot combine operations with basic approval and others!"
  return { active, owner, basic, masterContent, compContent, other }

/-- `verify_authority` of a proposal: the approvals collected so far against what its
operations require. -/
def Database.verifyAuthority (s : Database) (p : ProposalObject) : Except Exn Unit := do
  let req ← requiredOf p.proposedOps
  let getActive := s.accountAuthority AccountProfile.active
  let getOwner := s.accountAuthority AccountProfile.owner
  let getBasic := s.accountAuthority AccountProfile.basic
  let get := if req.basic.isEmpty then getActive else getBasic
  let keys := p.availableKeyApprovals
  let direct := "temp" :: (p.availableBasicApprovals ++ p.availableActiveApprovals ++
    p.availableOwnerApprovals)
  let check := requireOneOf keys get
  let a0 ← req.other.foldlM (fun ok auth => check "Missing Authority" [.ok auth] ok) direct
  let a1 ← req.basic.foldlM (fun ok n =>
    if n ∈ ok then .ok ok
    else check "Missing Basic Authority ${id}" [get n, getActive n, getOwner n] ok) a0
  let a2 ← req.active.foldlM (fun ok n =>
    if n ∈ ok then .ok ok else check "Missing Active Authority ${id}" [get n, getOwner n] ok) a1
  let a3 ← req.masterContent.foldlM (fun ok url =>
    check "Missing Content Authority for content ${con}"
      [s.contentAuthority ContentObject.manageMaster url] ok) a2
  let a4 ← req.compContent.foldlM (fun ok url =>
    check "Missing Content Authority for content ${con}"
      [s.contentAuthority ContentObject.manageComp url] ok) a3
  let _ ← req.owner.foldlM (fun ok n =>
    if n ∈ p.availableOwnerApprovals then .ok ok
    else check "Missing Owner Authority ${id}" [getOwner n] ok) a4

/-- `is_authorized_to_execute`: whether the approvals of the proposal pass `verify_authority`. -/
def Database.isAuthorizedToExecute (s : Database) (p : ProposalObject) : Bool :=
  (s.verifyAuthority p).toOption.isSome

/-! ## Creating, deleting -/

/-- `authority_collector`: the accounts with keys behind an authority, by the depth
that is left. -/
def Database.collectAuthority (s : Database) : Nat → Authority → Except Exn (List String)
  | n, auth =>
      auth.accountAuths.keys.foldlM (fun (dest : List String) name => do
        let parent ← s.accountAuthority AccountProfile.active name
        let own := if 0 < parent.keyAuths.size then [name] else []
        let deeper ← match n with
          | 0 => pure []
          | n + 1 => s.collectAuthority n parent
        return dest ++ own ++ deeper) []

/-- The accounts behind the content authorities that a proposal requires. -/
def Database.contentApprovers (s : Database) (req : Required) : Except Exn (List String) := do
  let master ← req.masterContent.mapM fun url => do
    let auth ← s.contentAuthority ContentObject.manageMaster url
    s.collectAuthority 2 auth
  let comp ← req.compContent.mapM fun url => do
    let auth ← s.contentAuthority ContentObject.manageComp url
    s.collectAuthority 2 auth
  return (master ++ comp).flatten

/-- Whether an operation is a `proposal_create_operation`, which no proposal may contain. -/
def Operation.isProposalCreate : Operation → Bool
  | .proposalCreate .. => true
  | _ => false

/-- Whether an operation is a `proposal_update_operation`, which may execute a proposal. -/
def Operation.isProposalUpdate : Operation → Bool
  | .proposalUpdate _ => true
  | _ => false

/-- The proposal that an operation updates or deletes, if it does. -/
def Operation.touchedProposal : Operation → Option Nat
  | .proposalUpdate o => some o.proposal
  | .proposalDelete o => some o.proposal
  | _ => none

/-- The object that a `proposal_create_operation` creates, with no approval so far. -/
def newProposal (ops : List Operation) (expirationTime : TimePointSec)
    (reviewPeriodTime : Option TimePointSec) (req : Required) (approvers : List String) :
    ProposalObject where
  expirationTime
  reviewPeriodTime
  proposedOps := ops
  requiredActiveApprovals := (nameSet (req.active ++ approvers)).filter (· ∉ req.owner)
  requiredOwnerApprovals := req.owner
  requiredBasicApprovals := req.basic
  requiredMasterContentApprovals := req.masterContent
  requiredCompContentApprovals := req.compContent
  canVeto := nameSet (req.active ++ req.owner ++ ops.flatMap Operation.requiredBasic)

/-- `proposal_create_evaluator`: the operations are put into a proposal, with what they require. -/
def proposalCreateEvaluator [Externals] (ops : List Operation) (expirationTime : TimePointSec)
    (reviewPeriodSeconds : Option UInt32) : DbM Unit := do
  require ((ops.filter Operation.isProposalUpdate).length ≤ 1)
    "At most one proposal update can be nested in a proposal!"
  let now ← headBlockTime
  let lifetime ← reads fun s => s.dgpo.maximumProposalLifetime
  require (now < expirationTime) "Proposal has already expired on creation."
  require (expirationTime ≤ now + lifetime) "Proposal expiration time is too far in the future."
  require (reviewPeriodSeconds.all fun r => decide ((r.toNat : ℤ) < secondsBetween expirationTime now))
    "Proposal review period must be less than its overall lifetime."
  require (ops.all fun op => !op.isProposalCreate) "Cannot propose a proposal"
  ofExcept (validateAll ops)
  let id ← reads fun s => s.proposals.nextId
  require ((ops.filterMap Operation.touchedProposal).all (· < id))
    "Cannot update/delete a proposal with a future id!"
  let req ← ofExcept (requiredOf ops)
  require req.other.isEmpty "Cannot propose operations that require other authority!"
  let collected ← reads fun s => s.contentApprovers req
  let approvers ← ofExcept collected
  let _ ← proposalIndex.create
    (newProposal ops expirationTime (reviewPeriodSeconds.map (now + ·)) req approvers)

/-- `proposal_delete_evaluator`: a proposal is removed by an account that can veto it. -/
def proposalDeleteEvaluator (o : ProposalDeleteOperation) : DbM Unit := do
  let p ← proposalIndex.get o.proposal
  require (o.vetoer ∈ p.canVeto) "Provided authority '${provided}' can not veto this proposal."
  proposalIndex.remove o.proposal

instance [Externals] (l : List Operation) (t : TimePointSec) (r : Option UInt32) :
    Writes (proposalCreateEvaluator l t r) [.pending] :=
  ⟨by unfold proposalCreateEvaluator; infer_instance⟩
instance (o : ProposalDeleteOperation) : Writes (proposalDeleteEvaluator o) [.pending] :=
  ⟨by unfold proposalDeleteEvaluator; infer_instance⟩

/-! ## Updating and executing -/

/-- The checks on the approvals an update adds and removes. -/
def checkApprovals (o : ProposalUpdateOperation) (p : ProposalObject) : DbM Unit := do
  let now ← headBlockTime
  require (!(p.reviewPeriodTime.any (now ≤ ·)) ||
      (o.activeApprovalsToAdd.isEmpty && o.ownerApprovalsToAdd.isEmpty))
    "This proposal is in its review period. No new approvals may be added."
  require (o.activeApprovalsToRemove.all (· ∈ p.availableActiveApprovals)) ""
  require (o.ownerApprovalsToRemove.all (· ∈ p.availableOwnerApprovals)) ""
  require (o.activeApprovalsToAdd.all (· ∉ p.availableActiveApprovals))
    "Already approved by active authority ${id}"
  require (o.activeApprovalsToAdd.all fun id =>
      decide (id ∈ p.requiredActiveApprovals) || decide (id ∈ p.requiredBasicApprovals))
    "Active approval from ${id} is not required"
  require (o.ownerApprovalsToAdd.all (· ∉ p.availableOwnerApprovals))
    "Already approved by owner authority ${id}"
  require (o.ownerApprovalsToAdd.all fun id =>
      decide (id ∈ p.requiredOwnerApprovals) || decide (id ∈ p.requiredActiveApprovals) ||
        decide (id ∈ p.requiredBasicApprovals))
    "Owner approval from ${id} is not required"

/-- The proposal with the approvals of an update: some are added, and others taken back. -/
def ProposalUpdateOperation.amend (o : ProposalUpdateOperation) (p : ProposalObject) :
    ProposalObject :=
  { p with
    availableActiveApprovals :=
      (p.availableActiveApprovals ++ o.activeApprovalsToAdd).filter (· ∉ o.activeApprovalsToRemove)
    availableOwnerApprovals :=
      (p.availableOwnerApprovals ++ o.ownerApprovalsToAdd).filter (· ∉ o.ownerApprovalsToRemove)
    availableKeyApprovals :=
      (p.availableKeyApprovals ++ o.keyApprovalsToAdd).filter (· ∉ o.keyApprovalsToRemove) }

instance (o : ProposalUpdateOperation) (p : ProposalObject) : Writes (checkApprovals o p) [] :=
  ⟨by unfold checkApprovals; infer_instance⟩

/-- `push_proposal`, given how operations are applied: all of the proposed operations
in order, then the proposal is gone. -/
def pushProposal (apply : Operation → DbM Unit) (id : Nat) : DbM Unit := do
  let p ← proposalIndex.get id
  p.proposedOps.forM apply
  proposalIndex.remove id

/-- `proposal_update_evaluator`, given how a proposal is executed once it is approved. -/
def proposalUpdateEvaluator (push : Nat → DbM Unit) (o : ProposalUpdateOperation) : DbM Unit := do
  let p ← proposalIndex.get o.proposal
  checkApprovals o p
  proposalIndex.put o.proposal (o.amend p)
  let authorized ← reads fun s => s.isAuthorizedToExecute (o.amend p)
  whenM (p.reviewPeriodTime.isNone && authorized) do
    let _ ← attempt (push o.proposal)

/-- The state in which the proposal of an update is pushed. -/
def ProposalUpdateOperation.amendedState (o : ProposalUpdateOperation) (p : ProposalObject)
    (s : Database) : Database :=
  { s with proposals := s.proposals.update o.proposal fun _ => o.amend p }

/-- Whether an update completes the authorisation of its proposal, so that it is executed at once.
-/
def ProposalUpdateOperation.completes (o : ProposalUpdateOperation) (p : ProposalObject)
    (s : Database) : Bool :=
  p.reviewPeriodTime.isNone && (o.amendedState p s).isAuthorizedToExecute (o.amend p)

/-! ## Inversion -/

section Inversion

variable {s s' : Database}

theorem runs_checkApprovals {o : ProposalUpdateOperation} {p : ProposalObject}
    (h : Runs (checkApprovals o p) s () s') : s' = s := by
  simp only [checkApprovals, runs_bind_headBlockTime, runs_bind_require, runs_require] at h
  exact h.2.2.2.2.2.2.2

/-- A created proposal stores the operations, which are valid and no proposals. -/
theorem runs_proposalCreateEvaluator [Externals] {ops : List Operation} {t : TimePointSec}
    {r : Option UInt32}
    (h : Runs (proposalCreateEvaluator ops t r) s () s') :
    ∃ p : ProposalObject, p.proposedOps = ops ∧ validateAll ops = .ok () ∧
      (∀ op ∈ ops, op.isProposalCreate = false) ∧
      s' = { s with proposals := s.proposals.create p } := by
  simp only [proposalCreateEvaluator, runs_bind_require, runs_bind_headBlockTime, runs_bind_reads,
    runs_bind_ofExcept, runs_bind_create, runs_pure] at h
  obtain ⟨-, -, -, -, hflat, ⟨⟩, hvalid, -, req, -, -, approvers, -, -, -, rfl⟩ := h
  refine ⟨_, rfl, hvalid, fun op ho => ?_, rfl⟩
  simpa using List.all_eq_true.mp hflat op ho

theorem runs_proposalDeleteEvaluator {o : ProposalDeleteOperation}
    (h : Runs (proposalDeleteEvaluator o) s () s') :
    s' = { s with proposals := s.proposals.remove o.proposal } := by
  simp only [proposalDeleteEvaluator, runs_bind_get, runs_bind_require, Table.runs_remove] at h
  obtain ⟨-, -, -, rfl⟩ := h
  rfl

/-- An update stores the approvals; then, if these suffice and the execution does not
fail, the proposal is executed. -/
theorem runs_proposalUpdateEvaluator {push : Nat → DbM Unit} {o : ProposalUpdateOperation}
    (h : Runs (proposalUpdateEvaluator push o) s () s') :
    ∃ p, s.proposals.find? o.proposal = some p ∧
      (s' = o.amendedState p s ∧
          (o.completes p s = true → ∃ e, push o.proposal (o.amendedState p s) = .error e) ∨
        o.completes p s = true ∧ Runs (push o.proposal) (o.amendedState p s) () s') := by
  simp only [proposalUpdateEvaluator, runs_bind_get] at h
  obtain ⟨p, hp, h⟩ := h
  rw [runs_bind] at h
  obtain ⟨_, t, hchk, h⟩ := h
  obtain rfl := runs_checkApprovals hchk
  refine ⟨p, hp, ?_⟩
  rw [runs_bind_put, runs_bind_reads, runs_whenM] at h
  rcases h with ⟨hc, h⟩ | ⟨hc, rfl⟩
  · simp only [runs_bind, runs_attempt, runs_pure] at h
    obtain ⟨-, v, ⟨-, h⟩ | ⟨-, rfl, he⟩, -, rfl⟩ := h
    · exact Or.inr ⟨hc, h⟩
    · exact Or.inl ⟨rfl, fun _ => he⟩
  · exact Or.inl ⟨rfl, fun hc' => absurd (hc.symm.trans hc') (by decide)⟩

theorem runs_pushProposal {apply : Operation → DbM Unit} {id : Nat}
    (h : Runs (pushProposal apply id) s () s') :
    ∃ p t, s.proposals.find? id = some p ∧ Runs (p.proposedOps.forM apply) s () t ∧
      s' = { t with proposals := t.proposals.remove id } := by
  simp only [pushProposal, runs_bind_get] at h
  obtain ⟨p, hp, h⟩ := h
  rw [runs_bind] at h
  obtain ⟨_, t, hops, h⟩ := h
  exact ⟨p, t, hp, hops, Table.runs_remove.mp h⟩

end Inversion

end BtcmChain
