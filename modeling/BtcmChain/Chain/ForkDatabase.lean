import BtcmChain.Fc.Safe
import BtcmChain.Lib.FlatMap
import Mathlib.Data.Prod.Lex

set_option autoImplicit false

/-!
# The fork database

The fork database keeps the blocks of all recent forks in an index by id, and a head
pointer of its own. An item points back to its parent with a weak pointer, which is good
only as long as somebody else keeps the parent: the index, the head pointer, or a local
variable of the caller. `items` is every item ever made, an address is a position in it,
and an item is alive while it is held.

Block numbers are natural numbers; the source's 32 bits last for four hundred years.
-/

namespace BtcmChain

/-! ## Blocks -/

/-- `block_id_type`: the id of a block starts with its number. -/
@[ext] structure BlockId where
  num : Nat
  digest : Nat
  deriving DecidableEq, Repr

namespace BlockId

/-- Ids of blocks in the order of their representation: by number first, then by digest. -/
def toPair (id : BlockId) : Nat ×ₗ Nat := toLex (id.num, id.digest)

theorem toPair_injective : Function.Injective toPair := by
  rintro ⟨i, n⟩ ⟨j, m⟩ h
  have h : (i, n) = (j, m) := h
  cases h
  rfl

instance : LinearOrder BlockId := LinearOrder.lift' toPair toPair_injective

/-- `block_id_type()`: the id that the first block names as its parent's. -/
def zero : BlockId := ⟨0, 0⟩

end BlockId

/-- What the fork database reads of a block; the hash tells blocks apart. -/
class ChainBlock (β : Type) where
  previous : β → BlockId
  digest : β → Nat
  digest_injective : Function.Injective digest

section Blocks

variable {β : Type} [ChainBlock β]

/-- The id of the block's parent, as its header has it. -/
def previous (b : β) : BlockId := ChainBlock.previous b

/-- `block_num`: the number of a block is one more than that of its parent. -/
def blockNum (b : β) : Nat := (previous b).num + 1

/-- `id` of a block: its number, and the hash of its header. -/
def blockId (b : β) : BlockId := ⟨blockNum b, ChainBlock.digest b⟩

theorem blockId_injective : Function.Injective (blockId : β → BlockId) :=
  fun _ _ h => ChainBlock.digest_injective (congrArg BlockId.digest h)

@[simp] theorem num_blockId (b : β) : (blockId b).num = blockNum b := rfl

theorem previous_ne_blockId (b : β) : previous b ≠ blockId b := by
  intro h
  have hnum : (previous b).num = (previous b).num + 1 := congrArg BlockId.num h
  omega

end Blocks

/-! ## The fork database -/

/-- `fork_item`. The flag `invalid` is left out: nothing ever sets it. -/
structure ForkItem (β : Type) where
  data : β
  prev : Option Nat := none

/-- `fork_database`. The unlinked index is left out: nothing is ever put there. -/
structure ForkDatabase (β : Type) where
  items : List (ForkItem β) := []
  index : FlatMap BlockId Nat := .empty
  head : Option Nat := none
  maxSize : Nat := 1024

namespace ForkDatabase

variable {β : Type}

/-- The block that an item of the fork database holds. -/
def data? (f : ForkDatabase β) (a : Nat) : Option β := f.items[a]?.map ForkItem.data

/-- The weak pointer of an item to the item of its parent. -/
def prev? (f : ForkDatabase β) (a : Nat) : Option Nat := f.items[a]?.bind ForkItem.prev

/-- Whether an item is held by the index, by the head pointer or by one of `held`. -/
def alive (f : ForkDatabase β) (held : List Nat) (a : Nat) : Bool :=
  f.index.entries.any (fun e => e.2 == a) || f.head == some a || held.contains a

/-- `prev.lock()`: the item of the parent, with its block, as long as something keeps it alive. -/
def lockPrev (f : ForkDatabase β) (held : List Nat) (a : Nat) : Option (Nat × β) := do
  let p ← f.prev? a
  let b ← f.data? p
  if f.alive held p then some (p, b) else none

/-- The head item of the fork database, with its block. -/
def head? (f : ForkDatabase β) : Option (Nat × β) := do
  let a ← f.head
  let b ← f.data? a
  return (a, b)

/-- The item that the index has under an id, with its block. -/
def fetch? (f : ForkDatabase β) (id : BlockId) : Option (Nat × β) := do
  let a ← f.index.find? id
  let b ← f.data? a
  return (a, b)

/-- Drop the items below a number from the index; whether they stay alive is another matter. -/
def prune (f : ForkDatabase β) (minNum : Nat) : ForkDatabase β :=
  { f with index := f.index.filterKeys fun id => decide (minNum ≤ id.num) }

/-- `set_head`: the given item becomes the head item. -/
def setHead (f : ForkDatabase β) (a : Nat) : ForkDatabase β := { f with head := some a }

/-- `remove`: the item goes from the index. The head pointer may still hold it. -/
def remove (f : ForkDatabase β) (id : BlockId) : ForkDatabase β :=
  { f with index := f.index.erase id }

/-- `pop_block`: the head goes back to the parent of the head item, which has to be there. -/
def popBlock (f : ForkDatabase β) (held : List Nat) : Except Exn (ForkDatabase β) :=
  match f.head with
  | none => .error (.assert "cannot pop an empty fork database")
  | some a =>
      match f.lockPrev held a with
      | none => .error (.assert "popping head block would leave fork DB empty")
      | some p => .ok { f with head := some p.1 }

variable [ChainBlock β]

/-- `set_max_size`: what is too far below the head goes from the index. -/
def setMaxSize (f : ForkDatabase β) (s : Nat) : ForkDatabase β :=
  match f.head? with
  | none => { f with maxSize := s }
  | some h => { f with maxSize := s }.prune (blockNum h.2 - s)

/-- `start_block`: the block becomes the head, and is put in the index, without a parent. -/
def startBlock (f : ForkDatabase β) (b : β) : ForkDatabase β :=
  { f with
    items := f.items ++ [{ data := b }]
    index := f.index.set (blockId b) f.items.length
    head := some f.items.length }

/-- The checks of `_push_block`, and the parent to link to. -/
def link (f : ForkDatabase β) (b : β) : Except Exn (Option Nat) :=
  match f.head? with
  | none => .ok none
  | some h => do
      fcAssert (blockNum h.2 - f.maxSize < blockNum b) "attempting to push a block that is too old"
      if previous b = BlockId.zero then return none
      else
        match f.index.find? (previous b) with
        | none => .error (.assert "block does not link to known chain")
        | some a => return some a

/-- `push_block`: an id that is already known is not inserted again, and the head moves only
to a higher block. -/
def pushBlock (f : ForkDatabase β) (b : β) : Except Exn (ForkDatabase β) := do
  let prev ← f.link b
  let pushed : ForkDatabase β :=
    { f with
      items := f.items ++ [{ data := b, prev }]
      index :=
        if (f.index.find? (blockId b)).isSome then f.index
        else f.index.set (blockId b) f.items.length }
  match f.head? with
  | none => return pushed.setHead f.items.length
  | some h =>
      if blockNum h.2 < blockNum b then
        return (pushed.setHead f.items.length).prune (blockNum b - f.maxSize)
      else return pushed

/-! ## Branches -/

/-- Follow the parents of an item as long as its number is above a bound; the items on the
way, and where it ends. -/
def descend (f : ForkDatabase β) (bound : Nat) :
    Nat → Nat × β → Except Exn (List (Nat × β) × (Nat × β))
  | 0, _ => .error .outOfFuel
  | fuel + 1, x =>
      if bound < blockNum x.2 then
        match f.lockPrev [] x.1 with
        | none => .error (.assert "first_branch")
        | some p => do
            let rest ← f.descend bound fuel p
            return (x :: rest.1, rest.2)
      else return ([], x)

/-- Follow the parents of two items until both have the same parent. -/
def meet (f : ForkDatabase β) :
    Nat → Nat × β → Nat × β → Except Exn (List (Nat × β) × List (Nat × β))
  | 0, _, _ => .error .outOfFuel
  | fuel + 1, x, y =>
      if previous x.2 ≠ previous y.2 then
        match f.lockPrev [] x.1, f.lockPrev [] y.1 with
        | some p, some q => do
            let rest ← f.meet fuel p q
            return (x :: rest.1, y :: rest.2)
        | _, _ => .error (.assert "first_branch")
      else return ([x], [y])

/-- `fetch_branch_from`. A parent is older than its child, so the number of items bounds
every walk. -/
def fetchBranchFrom (f : ForkDatabase β) (first second : BlockId) :
    Except Exn (List (Nat × β) × List (Nat × β)) :=
  match f.fetch? first, f.fetch? second with
  | some x, some y => do
      let up ← f.descend (blockNum y.2) (f.items.length + 1) x
      let down ← f.descend (blockNum up.2.2) (f.items.length + 1) y
      let both ← f.meet (f.items.length + 1) up.2 down.2
      return (up.1 ++ both.1, down.1 ++ both.2)
  | _, _ => .error (.assert "first_branch_itr != _index.get<block_id>().end()")

end ForkDatabase

end BtcmChain
