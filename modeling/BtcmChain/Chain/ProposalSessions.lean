import BtcmChain.Chain.Block
import BtcmChain.Db.SnapshotLog
import BtcmChain.Lib.Attempt

set_option autoImplicit false
set_option synthInstance.maxSize 10000000
set_option synthInstance.maxHeartbeats 200000

/-!
# Proposals inside undo sessions

How `push_proposal` gets its all-or-nothing: it runs the operations in an undo session of its own,
for which it enables the undo database if need be. Programs here keep their changes when they
throw. An evaluator that throws may leave anything behind (`halfway`); it is the destructor of the
session that cleans up.

The sessions are the snapshots of `Db.SnapshotLog`. `Sound.SnapshotLog` shows that the undo database
keeps such snapshots wherever a session that is undone finds the keys of its old values free; that
the tables of the chain always leave them free is an assumption of this module.
-/

namespace BtcmChain

variable [Externals]

/-- Programs on a database with its undo sessions, where an exception leaves what was done. -/
abbrev WatchM := EStateM Exn (Watched Database)

namespace Watched

/-- A program that only looks at the objects: it changes neither them nor the sessions. -/
def look {α : Type} (m : DbM α) : WatchM α := fun w =>
  match m w.objects with
  | .ok (a, _) => .ok a w
  | .error e => .error e w

/-- A program that changes the objects; when it throws, something may have been changed. -/
def perform (halfway : Database → Database) (m : DbM Unit) : WatchM Unit := fun w =>
  match m w.objects with
  | .ok ((), s) => .ok () (w.change s)
  | .error e => .error e (w.change (halfway w.objects))

/-- A body between `start_undo_session( true )` and `merge`; when it throws, the session is
destroyed, which undoes it. -/
def inSession (body : WatchM Unit) : WatchM Unit := fun w =>
  let program : WatchM Unit := do
    body
    let w ← get
    let w ← liftExcept w.merge
    set w
  match program (w.startUndoSession true) with
  | .ok () w' => .ok () (if w.disabled then w'.disable else w')
  | .error e w' => .error e (w'.destroy w.disabled)

/-- Make room on the stack of records for one more session. -/
def raiseMaxSize (w : Watched Database) : Watched Database :=
  if w.maxSize ≤ w.stack.length then w.setMaxSize (w.stack.length + 1) else w

/-- `push_proposal`, given how operations are applied: the proposal goes, and its operations are
applied in a session. -/
def pushProposal (apply : Operation → WatchM Unit) (id : Nat) : WatchM Unit := do
  let p ← look (proposalIndex.get id)
  modify raiseMaxSize
  inSession do
    p.proposedOps.forM apply
    perform (fun s => s) (proposalIndex.remove id)

/-- `proposal_update_evaluator`, given how a proposal is executed once it is approved. -/
def proposalUpdateEvaluator (push : Nat → WatchM Unit) (o : ProposalUpdateOperation) : WatchM Unit := do
  let p ← look (proposalIndex.get o.proposal)
  look (checkApprovals o p)
  perform (fun s => s) (proposalIndex.put o.proposal (o.amend p))
  let authorized ← look (reads fun s => s.isAuthorizedToExecute (o.amend p))
  if p.reviewPeriodTime.isNone && authorized then
    tryCatch (push o.proposal) fun _ => pure ()

/-- `do_apply` of every operation. Only the update of a proposal executes another one. -/
def evaluate (halfway : Operation → Database → Database) (push : Nat → WatchM Unit) :
    Operation → WatchM Unit
  | .proposalUpdate o => proposalUpdateEvaluator push o
  | op => perform (halfway op) (BtcmChain.evaluate (fun _ => throw .undefined) op)

/-- `apply_operation`, by how many proposals may still be nested in it. -/
def applyOperation (halfway : Operation → Database → Database) : Nat → Operation → WatchM Unit
  | 0 => evaluate halfway fun _ => throw (.assert "Max proposal nesting depth exceeded!")
  | n + 1 => evaluate halfway (pushProposal (applyOperation halfway n))

/-- One round of `clear_expired_proposals`, given how a proposal is executed. -/
def expireProposal (push : Nat → WatchM Unit) (p : Entry ProposalObject) : WatchM Unit := do
  let authorized ← look (reads fun s => s.isAuthorizedToExecute p.val)
  let done ←
    if authorized then tryCatch (do push p.id; pure true) fun _ => pure false
    else pure false
  if !done then perform (fun s => s) (proposalIndex.remove p.id)

/-- The loop of `clear_expired_proposals`, in a number of rounds, each of which removes a proposal.
-/
def expireDue (push : Nat → WatchM Unit) (now : TimePointSec) : Nat → WatchM Unit
  | 0 => do
      let next ← look (proposalIndex.due? (·.expirationTime.toNat) (·.expirationTime ≤ now))
      next.elim (pure ()) fun _ => throw .outOfFuel
  | n + 1 => do
      let next ← look (proposalIndex.due? (·.expirationTime.toNat) (·.expirationTime ≤ now))
      next.elim (pure ()) fun p => do
        expireProposal push p
        expireDue push now n

/-- `clear_expired_proposals`, given how a proposal is executed that has its approvals in time. -/
def clearExpiredProposals (push : Nat → WatchM Unit) : WatchM Unit := do
  let now ← look headBlockTime
  let size ← look (reads fun s => s.proposals.objs.size)
  expireDue push now size

end Watched

end BtcmChain
