import BtcmChain.Chain.ForkDatabase
import BtcmChain.Lib.Attempt

set_option autoImplicit false

/-!
# Pushing and popping blocks

The node: the fork database, the state of the objects with what the undo database keeps
to go back, and the file of blocks. The undo database is taken at its word, which is an
assumption: a session can always be undone or popped, and leaves the state it started in,
so that its record of a session is that state, the innermost first. `Sound.Sessions` shows
this of the undo database wherever the indexes take the old values back (`Accepts`), and
`Sound.Undo` says exactly when they do: two objects that have exchanged a unique key are put
back in an order that may fail. That no block of the chain leaves its own tables in such a
state is assumed here and proved nowhere.

Of the objects only the id of the head block is looked at. What else a block does is a
parameter: `BlockCode.body` is everything in `_apply_block` behind the check of the parent,
with the maximal sizes it sets for the undo and for the fork database on the way, which
nobody takes back when the block fails.

Pending transactions are left out; `push_block` sets them aside and `pop_block` ends their
session. The oldest record, which a session for each of them may push out, is kept here. The
skip flags are those of the default argument, `skip_nothing`.
-/

namespace BtcmChain

/-! ## Applying a block -/

/-- What applying a block did, apart from the objects: new bounds for the two databases, and its
outcome. -/
structure BlockRun (ρ : Type) where
  undoSize : Option Nat := none
  forkSize : Option Nat := none
  outcome : Except Exn ρ

/-- The part of the source that applies a block to the objects, of which nothing is known here. -/
class BlockCode (β ρ : Type) where
  body : β → ρ → BlockRun ρ

/-- The objects of the chain: the id of the head block, and all the rest. -/
structure ChainState (ρ : Type) where
  headId : BlockId
  rest : ρ

variable {β ρ : Type} [ChainBlock β] [BlockCode β ρ]

/-- `apply_block`: `validate_block_header` asks for the head block as parent, and
`update_global_dynamic_data` makes the block the new head. -/
def ChainState.apply (b : β) (s : ChainState ρ) : BlockRun (ChainState ρ) :=
  if s.headId = previous b then
    let r := BlockCode.body b s.rest
    { r with outcome := r.outcome.map fun rest => ⟨blockId b, rest⟩ }
  else { outcome := .error (.assert "head_block_id() == next_block.previous") }

/-- The state after the blocks of a branch, in order. -/
def ChainState.replay (s : ChainState ρ) (bs : List β) : Except Exn (ChainState ρ) :=
  bs.foldlM (fun s b => (s.apply b).outcome) s

/-! ## The node -/

/-- A node: the objects with their undo records, the fork database and the block file. -/
structure Node (β ρ : Type) where
  fork : ForkDatabase β := {}
  state : ChainState ρ
  history : List (ChainState ρ) := []
  undoMaxSize : Nat := 10
  blockLog : FlatMap Nat β := .empty

namespace Node

/-- A computation on a node; an exception does not undo what was done before it. -/
abbrev Op (β ρ α : Type) := EStateM Exn (Node β ρ) α

/-- `head_block_num`: the number of the head block, as its id has it. -/
def headNum (n : Node β ρ) : Nat := n.state.headId.num

/-- `fetch_block_by_id`: from the fork database, or from the file, where a number has one
place. -/
def fetchBlockById (n : Node β ρ) (id : BlockId) : Option β :=
  ((n.fork.fetch? id).map Prod.snd).or
    ((n.blockLog.find? id.num).filter fun b => decide (blockId b = id))

/-- `pop_block`, with the fork items that the caller holds: the head block is undone, and the head
of the fork database moves back. -/
def popBlock (held : List Nat) : Op β ρ Unit := do
  let n ← get
  liftExcept (fcAssert (n.fetchBlockById n.state.headId).isSome "there are no blocks to pop")
  let fork ← liftExcept (n.fork.popBlock held)
  set { n with fork := fork }
  match n.history with
  | [] => throw (.assert "!_stack.empty()")
  | s :: rest => set { n with fork := fork, state := s, history := rest }

/-- Apply a block in a session of its own, store it and commit the session; a block that
fails is undone. The oldest records beyond the maximal size go when the session starts. -/
def applyInSession (b : β) : Op β ρ Unit := do
  let n ← get
  let kept := n.history.take n.undoMaxSize
  let r := n.state.apply b
  set { n with
    history := kept
    undoMaxSize := r.undoSize.getD n.undoMaxSize
    fork := r.forkSize.elim n.fork n.fork.setMaxSize }
  let s ← liftExcept r.outcome
  modifyThe (Node β ρ) fun m =>
    { m with state := s, history := n.state :: kept, blockLog := m.blockLog.set (blockNum b) b }

/-- Pop blocks until `target` is the head. Every pop takes a record of the undo history. -/
def popUntil (target : BlockId) (held : List Nat) : Nat → Op β ρ Unit
  | 0 => throw .outOfFuel
  | fuel + 1 => do
      let n ← get
      if n.state.headId ≠ target then do
        popBlock held
        popUntil target held fuel

/-- The loop of `popUntil` with as many rounds as it can take. -/
def popTo (target : BlockId) (held : List Nat) : Op β ρ Unit := do
  let n ← get
  popUntil target held (n.history.length + 1)

/-- What is done when a block of the new branch fails: the rest of the branch is dropped,
and the old branch comes back. `rest` starts with the block that failed. -/
def switchBack (target : BlockId) (held : List Nat) (rest second : List (Nat × β)) :
    Op β ρ Unit := do
  modifyThe (Node β ρ) fun n =>
    { n with fork := rest.foldl (fun f x => f.remove (blockId x.2)) n.fork }
  modifyThe (Node β ρ) fun n => { n with fork := (second.head?.elim n.fork fun x => n.fork.setHead x.1) }
  popTo target held
  second.reverse.forM fun x => applyInSession x.2

/-- Push the blocks of the new branch, the oldest first. -/
def applyBranch (target : BlockId) (held : List Nat) (second : List (Nat × β)) :
    List (Nat × β) → Op β ρ Unit
  | [] => pure ()
  | x :: rest => do
      tryCatch (applyInSession x.2) fun e => do
        switchBack target held (x :: rest) second
        throw e
      applyBranch target held second rest

/-- Switch to the branch `first`, away from `second`: pop down to their parent, and apply the branch
block by block. -/
def switchFork (first second : List (Nat × β)) : Op β ρ Unit := do
  let target := (second.getLast?.elim BlockId.zero fun x => previous x.2)
  let held := (first ++ second).map Prod.fst
  popTo target held
  applyBranch target held second first.reverse

/-- `push_block`; `true` if the node has switched to another fork. -/
def pushBlock (b : β) : Op β ρ Bool := do
  let n ← get
  let fork ← liftExcept (n.fork.pushBlock b)
  set { n with fork := fork }
  match fork.head? with
  | none => throw .undefined
  | some newHead =>
      if previous newHead.2 ≠ n.state.headId then
        if n.headNum < blockNum newHead.2 then do
          let branches ← liftExcept (fork.fetchBranchFrom (blockId newHead.2) n.state.headId)
          switchFork branches.1 branches.2
          return true
        else return false
      else do
        tryCatch (applyInSession b) fun e => do
          modifyThe (Node β ρ) fun m => { m with fork := m.fork.remove (blockId b) }
          throw e
        return false

/-! ## Runs -/

/-- A call of a node from outside: a block is pushed, or the head block popped. -/
inductive Call (β : Type) where
  | push (b : β)
  | pop

/-- Carry out a call of a node. -/
def exec : Call β → Op β ρ Unit
  | .push b => do
      let _ ← pushBlock b
      return ()
  | .pop => popBlock []

/-- A node that has just been opened: there is nothing to undo, and the fork database is
empty or starts with the head block. -/
def Opened (n : Node β ρ) : Prop :=
  n.history = [] ∧ (n.fork = {} ∨ ∃ b, n.fork = ForkDatabase.startBlock {} b ∧ blockId b = n.state.headId)

/-- What a run of calls that all meet `C` can lead to. -/
inductive RunIf (C : Node β ρ → Call β → Prop) (start : Node β ρ) : Node β ρ → Prop
  | start : RunIf C start start
  | step {n : Node β ρ} {c : Call β} : RunIf C start n → C n c → RunIf C start (after (exec c) n)

/-- What a node can come to, with whatever it is told. -/
def Reachable (n : Node β ρ) : Prop := ∃ start, Opened start ∧ RunIf (fun _ _ => True) start n

end Node

end BtcmChain
