import BtcmChain.Chain.BlockLog

set_option autoImplicit false

/-!
# Which blocks two nodes have in common

A node that wants blocks from a peer sends a synopsis of the blocks it has; the peer answers with
ids of its own blocks, from the last one on that it finds in the synopsis. This is the part of the
application that asks the chain.

Numbers of blocks are natural numbers; what the source computes in 32 bits stays far below. The one
exception is the number of the last block that cannot be undone. It is the head number less the size
of the undo database, and that size is a parameter `undoSize` wherever it is read: the database holds
a record for every block that can be undone and, while transactions are pending, one for their
session, so that there can be more records than blocks.
-/

namespace BtcmChain

/-- What is thrown while blocks are looked for: two exceptions the network knows, or another. -/
inductive SyncExn where
  | peerIsOnAnUnreachableFork
  | blockOlderThanUndoHistory
  | other (e : Exn)
  deriving DecidableEq, Repr

/-- An exception of the chain goes through to the caller as it is. -/
def onChainOf {α : Type} (x : Except Exn α) : Except SyncExn α := x.mapError .other

/-- `limit` of `get_block_ids`, for callers that do not give one. -/
def BLOCK_IDS_LIMIT : Nat := 2000

variable {β ρ : Type} [ChainBlock β]

namespace Node

/-! ## Giving ids -/

/-- The search through a synopsis, from its end, for a block of the chain. -/
def lastRecognised (n : Node β ρ) : List BlockId → Except Exn (Option BlockId)
  | [] => return none
  | id :: ids => do
      if id = BlockId.zero then return some id
      else if n.isKnownBlock id then do
        if ← n.isIncludedBlock id then return some id
        else n.lastRecognised ids
      else n.lastRecognised ids

/-- The loop that collects ids: so many rounds from `num`, with room for so many ids. -/
def collectIds (n : Node β ρ) : Nat → Nat → Nat → Except Exn (List BlockId)
  | 0, _, _ => return []
  | rounds + 1, num, room =>
      if room = 0 then return []
      else if 0 < num then do
        let id ← n.getBlockIdForNum num
        let rest ← n.collectIds rounds (num + 1) (room - 1)
        return id :: rest
      else n.collectIds rounds (num + 1) room

/-- The last block of a synopsis the ids may start with; an empty synopsis stands for no block. -/
def lastKnownBlockId (n : Node β ρ) (synopsis : List BlockId) : Except SyncExn BlockId :=
  if synopsis = [] ∨ synopsis = [BlockId.zero] then return BlockId.zero
  else do
    match ← onChainOf (n.lastRecognised synopsis.reverse) with
    | some id => return id
    | none => throw .peerIsOnAnUnreachableFork

/-- `get_block_ids`: the ids, and how many blocks are behind the last of them. -/
def getBlockIds (n : Node β ρ) (synopsis : List BlockId) (limit : Nat) :
    Except SyncExn (List BlockId × Nat) :=
  if n.headNum = 0 then return ([], 0)
  else do
    let lastKnown ← n.lastKnownBlockId synopsis
    let ids ← onChainOf (n.collectIds (n.headNum + 1 - lastKnown.num) lastKnown.num limit)
    return (ids, ids.getLast?.elim 0 fun id => n.headNum - id.num)

/-! ## Summing up a chain -/

/-- `last_non_undoable_block_num`: the head number less `_undo_db.size()`, a difference in 32 bits
that wraps where there are more records than blocks. -/
def lastNonUndoableBlockNum (n : Node β ρ) (undoSize : Nat) : Nat :=
  if undoSize ≤ n.headNum then n.headNum - undoSize else n.headNum + 2 ^ 32 - undoSize

/-- The blocks a synopsis is about: from `low` to `high`, those behind `nonForkHigh` from a
fork. -/
structure Span where
  low : Nat
  high : Nat
  nonForkHigh : Nat
  forkHistory : List BlockId := []

/-- The first half of `get_blockchain_synopsis`: what is to be summed up, if there is anything. -/
def span (n : Node β ρ) (undoSize : Nat) (referencePoint : BlockId) :
    Except SyncExn (Option Span) := do
  let low := n.lastNonUndoableBlockNum undoSize
  if referencePoint ≠ BlockId.zero then
    if ← onChainOf (n.isIncludedBlock referencePoint) then
      let num := referencePoint.num
      return some { low := min low num, high := num, nonForkHigh := num }
    else do
      let forkHistory ← onChainOf (n.getBlockIdsOnFork referencePoint)
      -- The last id is the block both chains have; the fork goes on from there.
      let nonForkHigh := (forkHistory.getLast?.getD BlockId.zero).num
      let forkHistory := forkHistory.dropLast.reverse
      if nonForkHigh < low then throw .blockOlderThanUndoHistory
      else return some { low, high := nonForkHigh + forkHistory.length, nonForkHigh, forkHistory }
  else if n.headNum = 0 then return none
  else return some { low, high := n.headNum, nonForkHigh := n.headNum }

/-- The id of the block with a number, from the chain or from the fork. -/
def Span.idAt (n : Node β ρ) (s : Span) (num : Nat) : Except Exn BlockId :=
  if num ≤ s.nonForkHigh then n.getBlockIdForNum num
  else
    match s.forkHistory[num - s.nonForkHigh - 1]? with
    | some id => return id
    | none => throw .undefined

/-- The second half: the loop over half of what is left, at most so many rounds. -/
def Span.synopsis (n : Node β ρ) (s : Span) (trueHigh : Nat) : Nat → Nat → Except Exn (List BlockId)
  | 0, _ => throw .outOfFuel
  | rounds + 1, low => do
      let id ← s.idAt n low
      let next := low + (trueHigh - low + 2) / 2
      if next ≤ s.high then do
        let rest ← s.synopsis n trueHigh rounds next
        return id :: rest
      else return [id]

/-- `get_blockchain_synopsis`: `count` blocks come behind the reference point. Every round goes
on, and none goes beyond the end. -/
def getBlockchainSynopsis (n : Node β ρ) (undoSize : Nat) (referencePoint : BlockId)
    (count : Nat) : Except SyncExn (List BlockId) := do
  match ← n.span undoSize referencePoint with
  | none => return []
  | some s => onChainOf (s.synopsis n (s.high + count) (s.high + 1) (max s.low 1))

end Node

end BtcmChain
