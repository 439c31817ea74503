import BtcmChain.Chain.PushBlock

set_option autoImplicit false

/-!
# Asking a node for its blocks

What the network asks about the chain: which block has a number, which are known, and which are on
the chain the node follows.

A number is looked up in the block database alone, which holds the block last written under it
(`getBlockIdForNum`); an id is known if the fork database has the block or the block database has
it under its number (`isKnownBlock`). `getBlockIdsOnFork` lists a branch from its head down to the
parent it shares with the chain of the node, and throws where the fork database has lost one of the
blocks between. `Net.Synopsis` builds on these queries what is sent to peers.
-/

namespace BtcmChain

variable {β ρ : Type} [ChainBlock β]

namespace Node

/-- `get_block_id_for_num`: the id of the block with this number in the block database, which has to
be there. -/
def getBlockIdForNum (n : Node β ρ) (num : Nat) : Except Exn BlockId :=
  match n.blockLog.find? num with
  | some b => .ok (blockId b)
  | none => .error (.assert "Block number ${block_num} not contained in block database")

/-- `is_known_block`: the block is in the fork database, or stored under its number. -/
def isKnownBlock (n : Node β ρ) (id : BlockId) : Bool :=
  (n.fork.fetch? id).isSome || (n.blockLog.find? id.num).any fun b => decide (blockId b = id)

/-- `is_included_block`: the block stored under its number is this one. -/
def isIncludedBlock (n : Node β ρ) (id : BlockId) : Except Exn Bool := do
  let inPreferredChain ← n.getBlockIdForNum id.num
  return decide (id = inPreferredChain)

/-- `get_block_ids_on_fork`: from the head of the fork down to the block both chains have. -/
def getBlockIdsOnFork (n : Node β ρ) (headOfFork : BlockId) : Except Exn (List BlockId) := do
  let branches ← n.fork.fetchBranchFrom n.state.headId headOfFork
  match branches.1.getLast? with
  | some x => return branches.2.map (fun y => blockId y.2) ++ [previous x.2]
  | none => throw .undefined

end Node

end BtcmChain
