import BtcmChain.Fc.Raw
import BtcmChain.Lib.Attempt
import BtcmChain.Lib.LittleEndian
import BtcmChain.Lib.RandomAccess

set_option autoImplicit false

/-!
# The block database

Two files: `blocks`, to which packed blocks are appended, and `index`, which has an entry of 32
bytes for every block number. Storing another block under a number overwrites the entry, and a
block far ahead leaves a gap of zeros.

The streams throw when an operation on them fails, and refuse every further operation then. What is
packed into a block is left open, and the disk is never full.
-/

namespace BtcmChain

open RandomAccess

/-! ## Streams -/

/-- A binary `std::fstream` that is told to throw, with the bytes of its file and whether it has
failed. -/
structure FileStream where
  bytes : Bytes := []
  failed : Bool := false
  deriving DecidableEq

namespace FileStream

/-- A computation on a stream; when it throws, the stream stays as the computation left it. -/
abbrev Op (α : Type) := EStateM Exn FileStream α

/-- `std::ios_base::failure`, which a stream that was told to throws when something goes wrong. -/
def failure : Exn := .assert "basic_ios::clear"

/-- `seekg( 0, end )` and `tellg()`: how many bytes the file has. -/
def size : Op Nat := do
  let s ← get
  if s.failed then throw failure
  else return s.bytes.length

/-- `seekg( pos )` and `read`; a position has 63 bits. -/
def read (pos n : Nat) : Op { b : Bytes // b.length = n } := fun s =>
  if s.failed then .error failure s
  else if h : pos < 2 ^ 63 ∧ (n = 0 ∨ pos + n ≤ s.bytes.length) then
    .ok ⟨readAt s.bytes pos n, by
      obtain hzero | hfit := h.2
      · subst hzero
        rfl
      · exact length_readAt hfit⟩ s
  else .error failure { s with failed := true }

/-- `seekp( pos )` and `write`, which is refused where it would go beyond 63 bits. -/
def write (pos : Nat) (b : Bytes) : Op Unit := fun s =>
  if s.failed ∨ 2 ^ 63 ≤ pos + b.length then .error failure { s with failed := true }
  else .ok () { s with bytes := writeAt 0 s.bytes pos b }

/-- `fc::resize_file`, which cuts the file off and does not go through the stream. -/
def resize (n : Nat) : Op Unit :=
  modifyThe FileStream fun s => { s with bytes := s.bytes.take n }

end FileStream

/-! ## Blocks and their ids -/

/-- `block_id_type`, as it is stored: twenty bytes. -/
abbrev RawBlockId := { b : Bytes // b.length = 20 }

namespace RawBlockId

/-- `block_id_type()`: the id of zeros, which no block has. -/
def zero : RawBlockId := ⟨List.replicate 20 0, rfl⟩

/-- `num_from_id`: the number of a block is in the first four bytes of its id, the highest first. -/
def num (id : RawBlockId) : Nat := ofLeBytes (id.val.take 4).reverse

end RawBlockId

/-- What the block database needs of blocks: `id`, `pack_to_vector` and `unpack_from_vector`. -/
class BlockFormat (β : Type) where
  id : β → RawBlockId
  pack : β → Bytes
  unpack : Bytes → Except Exn β

/-- `index_entry`: where the block of a number is stored, how long it is, and which id it has. -/
structure IndexEntry where
  blockPos : UInt64 := 0
  blockSize : UInt32 := 0
  blockId : RawBlockId := RawBlockId.zero
  deriving DecidableEq

/-- `sizeof( index_entry )`: an entry takes 32 bytes in the file. -/
def INDEX_ENTRY_SIZE : Nat := 32

namespace IndexEntry

/-- An index entry as it lies in memory, field after field, with the lowest byte of each number
first. -/
def toBytes (e : IndexEntry) : Bytes :=
  leBytes 8 e.blockPos.toNat ++ leBytes 4 e.blockSize.toNat ++ e.blockId.val

/-- The index entry that some memory holds. -/
def ofBytes (b : { b : Bytes // b.length = INDEX_ENTRY_SIZE }) : IndexEntry where
  blockPos := .ofNat (ofLeBytes (b.val.take 8))
  blockSize := .ofNat (ofLeBytes ((b.val.drop 8).take 4))
  blockId := ⟨b.val.drop 12, by rw [List.length_drop, b.property]; rfl⟩

end IndexEntry

/-! ## The database -/

/-- `block_database`: the stream of the blocks, and that of the index entries. -/
structure BlockDatabase where
  blocks : FileStream := {}
  blockNumToPos : FileStream := {}
  deriving DecidableEq

namespace BlockDatabase

/-- A computation on the block database, which may throw. -/
abbrev Op (α : Type) := EStateM Exn BlockDatabase α

variable {α β : Type} [BlockFormat β]

/-- Use the stream `_blocks`, and leave the other one alone. -/
def onBlocks (m : FileStream.Op α) : Op α := focus blocks (fun x d => { d with blocks := x }) m

/-- Use the stream `_block_num_to_pos`, and leave the other one alone. -/
def onIndex (m : FileStream.Op α) : Op α :=
  focus blockNumToPos (fun x d => { d with blockNumToPos := x }) m

/-- Read the index entry of a number from where it stands in the file. -/
def readEntry (num : Nat) : Op IndexEntry := do
  let b ← onIndex (FileStream.read (INDEX_ENTRY_SIZE * num) INDEX_ENTRY_SIZE)
  return .ofBytes b

/-- Read the block of an entry, which must have the id the entry has. -/
def readBlock (e : IndexEntry) : Op β := do
  let data ← onBlocks (FileStream.read e.blockPos.toNat e.blockSize.toNat)
  let b : β ← liftExcept (BlockFormat.unpack data.val)
  liftExcept (fcAssert (BlockFormat.id b = e.blockId) "result.id() == e.block_id")
  return b

/-- `open`: the streams are new ones, on the files that are there, so neither of them has failed. -/
def open_ : Op Unit := modifyThe BlockDatabase fun d =>
  { blocks := { bytes := d.blocks.bytes }, blockNumToPos := { bytes := d.blockNumToPos.bytes } }

/-- `store`: the block is appended to the blocks, and the entry of its number written over what is
there. -/
def store (id : RawBlockId) (b : β) : Op Unit := do
  let id := if id = RawBlockId.zero then BlockFormat.id b else id
  let vec := BlockFormat.pack b
  let pos ← onBlocks FileStream.size
  let e : IndexEntry :=
    { blockPos := .ofNat pos, blockSize := .ofNat vec.length, blockId := id }
  onBlocks (FileStream.write pos vec)
  onIndex (FileStream.write (INDEX_ENTRY_SIZE * id.num) e.toBytes)

/-- `remove`: the entry of the block stays, with the size zero; the block itself is left where it
is. -/
def remove (id : RawBlockId) : Op Unit := do
  let size ← onIndex FileStream.size
  if size ≤ INDEX_ENTRY_SIZE * id.num then
    throw (.assert "Block ${id} not contained in block database")
  else do
    let e ← readEntry id.num
    if e.blockId = id then
      onIndex (FileStream.write (INDEX_ENTRY_SIZE * id.num) { e with blockSize := 0 }.toBytes)

/-- `contains`: whether the entry of the number has this id and a block. -/
def contains (id : RawBlockId) : Op Bool := do
  if id = RawBlockId.zero then return false
  else do
    let size ← onIndex FileStream.size
    if size < INDEX_ENTRY_SIZE * id.num + INDEX_ENTRY_SIZE then return false
    else do
      let e ← readEntry id.num
      return decide (e.blockId = id ∧ 0 < e.blockSize)

/-- `fetch_block_id`: the id that the entry of a number holds, which has to be there. -/
def fetchBlockId (blockNum : Nat) : Op RawBlockId := do
  let size ← onIndex FileStream.size
  if size ≤ INDEX_ENTRY_SIZE * blockNum then
    throw (.assert "Block number ${block_num} not contained in block database")
  else do
    let e ← readEntry blockNum
    liftExcept (fcAssert (e.blockId ≠ RawBlockId.zero)
      "Empty block_id in block_database (maybe corrupt on disk?)")
    return e.blockId

/-- `fetch_optional`: the block with this id, if it is stored; an exception on the way counts as no
block. -/
def fetchOptional (id : RawBlockId) : Op (Option β) :=
  tryCatch (do
    let size ← onIndex FileStream.size
    if size ≤ INDEX_ENTRY_SIZE * id.num then return none
    else do
      let e ← readEntry id.num
      if e.blockId ≠ id then return none
      else return some (← readBlock e)) fun _ => return none

/-- `fetch_by_number`: the block with this number, if it is stored; an exception on the way counts
as no block. -/
def fetchByNumber (blockNum : Nat) : Op (Option β) :=
  tryCatch (do
    let size ← onIndex FileStream.size
    if size ≤ INDEX_ENTRY_SIZE * blockNum then return none
    else do
      let e ← readEntry blockNum
      return some (← readBlock e)) fun _ => return none

variable (β)

/-- Whether `last_index_entry` accepts an entry: it has a block, which ends before the end of the
file as far as 64 bits tell, and can be read. -/
def accepts (blocksSize : Nat) (e : IndexEntry) : Op Bool :=
  if 0 < e.blockSize ∧ (e.blockPos + e.blockSize.toUInt64).toNat ≤ blocksSize then
    tryCatch (do
      let _ : β ← readBlock e
      return true) fun _ => return false
  else return false

/-- The loop of `last_index_entry`, from the end of so many entries. -/
def lastEntryBelow (blocksSize : Nat) : Nat → Op (Option IndexEntry)
  | 0 => return none
  | n + 1 => do
      let e ← readEntry n
      if ← accepts β blocksSize e then return some e
      else do
        onIndex (FileStream.resize (INDEX_ENTRY_SIZE * n))
        lastEntryBelow blocksSize n

/-- `last_index_entry`: entries without a block are cut off on the way. -/
def lastIndexEntry : Op (Option IndexEntry) :=
  tryCatch (do
    let size ← onIndex FileStream.size
    if size < INDEX_ENTRY_SIZE then return none
    else do
      let blocksSize ← onBlocks FileStream.size
      lastEntryBelow β blocksSize (size / INDEX_ENTRY_SIZE)) fun _ => return none

/-- `last`: the last block that is stored, found over the last entry that has one. -/
def last : Op (Option β) := do
  match ← lastIndexEntry β with
  | some e => fetchByNumber e.blockId.num
  | none => return none

/-- `last_id`: the id of the last block that is stored. -/
def lastId : Op (Option RawBlockId) := do
  let e ← lastIndexEntry β
  return e.map IndexEntry.blockId

variable {β}

/-! ## Calls -/

/-- A call of the block database from outside. -/
inductive Call (β : Type) where
  | reopen
  | store (id : RawBlockId) (b : β)
  | remove (id : RawBlockId)
  | contains (id : RawBlockId)
  | fetchBlockId (blockNum : Nat)
  | fetchOptional (id : RawBlockId)
  | fetchByNumber (blockNum : Nat)
  | last
  | lastId

/-- What a call of the block database returns or throws. -/
inductive Answer (β : Type) where
  | done
  | flag (found : Bool)
  | id (id : RawBlockId)
  | maybeId (id : Option RawBlockId)
  | maybeBlock (b : Option β)
  | thrown (e : Exn)
  deriving DecidableEq

/-- Carry out a computation for its answer; when it throws, that is the answer. -/
def answer (f : α → Answer β) (m : Op α) (d : BlockDatabase) : Answer β × BlockDatabase :=
  match m d with
  | .ok a d' => (f a, d')
  | .error e d' => (.thrown e, d')

/-- Carry out a call of the block database. -/
def exec : Call β → BlockDatabase → Answer β × BlockDatabase
  | .reopen => answer (fun _ => .done) open_
  | .store id b => answer (fun _ => .done) (store id b)
  | .remove id => answer (fun _ => .done) (remove id)
  | .contains id => answer .flag (contains id)
  | .fetchBlockId n => answer .id (fetchBlockId n)
  | .fetchOptional id => answer .maybeBlock (fetchOptional id)
  | .fetchByNumber n => answer .maybeBlock (fetchByNumber n)
  | .last => answer .maybeBlock (last β)
  | .lastId => answer .maybeId (lastId β)

end BlockDatabase

end BtcmChain
