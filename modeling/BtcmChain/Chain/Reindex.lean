import BtcmChain.Chain.BlockDatabase

set_option autoImplicit false

/-!
# Reindexing

What `database::open` does with the blocks that are stored and not yet in the objects: most are
applied without the undo database and with few checks, the last ones are pushed. The objects, the
undo and the fork database are whatever a `Replayer` works on; pushing a block stores it again.

`reindexFrom` is the loop over a range of numbers, with what is done for each block as its
parameter, and `Restart` is the state it works on: the database of blocks and the rest of the node.
A number without a block ends the loop, and the blocks from there on are removed (`cutoffBlocks`).
Up to the undo history from the end, blocks are applied, in two ranges; the block before the others
starts the fork database, and those are pushed.
-/

namespace BtcmChain

variable {β σ α : Type} [BlockFormat β]

/-! ## Cutting off blocks -/

namespace BlockDatabase

variable (β)

/-- The loop of `cutoff_blocks`, at most so many rounds: the last block goes while it is above the
bound. -/
def cutoffFrom (bound : Nat) : Nat → Option RawBlockId → Op Unit
  | _, none => return ()
  | 0, some _ => throw .outOfFuel
  | n + 1, some id =>
      if bound < id.num then do
        remove id
        let next ← lastId β
        cutoffFrom bound n next
      else return ()

/-- `cutoff_blocks`: no block above the bound stays. Every round removes the last block. -/
def cutoffBlocks (bound : Nat) : Op Unit := do
  let id ← lastId β
  let d ← get
  cutoffFrom β bound (d.blockNumToPos.bytes.length + 1) id

end BlockDatabase

/-! ## Ranges -/

/-- What blocks are applied to and pushed on, and what the fork database starts with. -/
structure Replayer (β σ : Type) where
  headBlockNum : σ → Nat
  applyBlock : β → EStateM Exn σ Unit
  pushBlock : β → EStateM Exn σ Unit
  startBlock : β → σ → σ
  setUndo : Bool → σ → σ

/-- A node at its start: the block database, and the rest of the node. -/
structure Restart (σ : Type) where
  log : BlockDatabase
  chain : σ

namespace Restart

/-- A computation at the start of a node; an exception does not undo what was done before it. -/
abbrev Op (σ α : Type) := EStateM Exn (Restart σ) α

/-- Use the block database, and leave the rest of the node alone. -/
def onLog (m : BlockDatabase.Op α) : Op σ α := focus log (fun d x => { x with log := d }) m

/-- Use the rest of the node, and leave the block database alone. -/
def onChain (m : EStateM Exn σ α) : Op σ α := focus chain (fun s x => { x with chain := s }) m

/-- The loop of `reindex_range`, so many rounds from `i`: where it finds a gap. -/
def reindexFrom (pushOrApply : β → Op σ Unit) : Nat → Nat → Op σ (Option Nat)
  | 0, _ => return none
  | n + 1, i => do
      match ← onLog (BlockDatabase.fetchByNumber i) with
      | none => do
          onLog (BlockDatabase.cutoffBlocks β i)
          return some i
      | some block => do
          pushOrApply block
          reindexFrom pushOrApply n (i + 1)

/-- `reindex_range`: the blocks of a range are handed over one after the other, up to the first gap.
-/
def reindexRange (startBlockNum lastBlockNum : Nat) (pushOrApply : β → Op σ Unit) : Op σ Nat := do
  let gap ← reindexFrom pushOrApply (lastBlockNum + 1 - startBlockNum) startBlockNum
  return gap.getD (lastBlockNum + 1)

/-- `apply_block`, as `reindex` calls it: the block database is not told. -/
def applyBlock (r : Replayer β σ) (block : β) : Op σ Unit := onChain (r.applyBlock block)

/-- `push_block`, which stores the block that it has applied. -/
def pushBlock (r : Replayer β σ) (block : β) : Op σ Unit := do
  onChain (r.pushBlock block)
  onLog (BlockDatabase.store (BlockFormat.id block) block)

/-- `_fork_db.start_block( *fetch_by_number( first - 1 ) )`, unless the first block is the first of
all. -/
def startFork (r : Replayer β σ) (first : Nat) : Op σ Unit := do
  if 1 < first then
    match ← onLog (BlockDatabase.fetchByNumber (first - 1)) with
    | some block => onChain (modifyThe σ (r.startBlock block))
    | none => throw .undefined

/-- The ranges `reindex` applies: up to twice the undo history from the end, then up to once. -/
def applyRanges (r : Replayer β σ) (undoBlocks lastBlockNum head : Nat) : Op σ Nat := do
  let first ← (if 2 * undoBlocks < lastBlockNum ∧ head + 1 < lastBlockNum - 2 * undoBlocks then
      reindexRange (head + 1) (lastBlockNum - 2 * undoBlocks) (applyBlock r)
    else return head + 1 : Op σ Nat)
  if undoBlocks < lastBlockNum ∧ first < lastBlockNum - undoBlocks then
    reindexRange first (lastBlockNum - undoBlocks) (applyBlock r)
  else return first

/-- `reindex`, where `undoBlocks` is `BTCM_MAX_UNDO_HISTORY`: the stored blocks behind the head are
brought back. -/
def reindex (r : Replayer β σ) (undoBlocks : Nat) : Op σ Unit := do
  match ← onLog (BlockDatabase.last β) with
  | none => return ()
  | some lastBlock => do
      let x ← get
      if (BlockFormat.id lastBlock).num ≤ r.headBlockNum x.chain then return ()
      else do
        onChain (modifyThe σ (r.setUndo false))
        let first ← applyRanges r undoBlocks (BlockFormat.id lastBlock).num (r.headBlockNum x.chain)
        startFork r first
        onChain (modifyThe σ (r.setUndo true))
        let _ ← reindexRange first (BlockFormat.id lastBlock).num (pushBlock r)
        return ()

end Restart

end BtcmChain
