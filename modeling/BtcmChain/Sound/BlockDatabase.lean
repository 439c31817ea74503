import BtcmChain.Chain.BlockDatabase
import BtcmChain.Lib.Archive
import BtcmChain.Lib.Simulation

set_option autoImplicit false

/-!
# The block database is an archive

Whatever is stored, removed and asked for in whatever order, the two files answer as an archive of
blocks by number does. After a crash, `last_index_entry` finds the last block that is whole.

The index file has an entry for each number, and a removed block leaves its id there without a
size; so an entry may be empty, filled or struck out, which is what a place of `Lib.Archive` may
be. The simulation (`answers_as_archive`) is over every run of calls, each of which keeps to blocks
under their own numbers. Opening the files after a crash is the second part: `last_index_entry`
goes back to the last entry that its block confirms (`lastId_recovers`), unless the position of an
entry wraps around and the failed seek spoils all further reads (`lastId_forgets`).
-/

namespace BtcmChain

open RandomAccess

/-- What packing and unpacking blocks is relied on for: a packed block is read back, an empty
buffer holds no block, the size fits 32 bits, and blocks are numbered from one. -/
class LawfulBlockFormat (β : Type) [BlockFormat β] : Prop where
  unpack_pack : ∀ b : β, BlockFormat.unpack (BlockFormat.pack b) = .ok b
  unpack_nil : ∃ e, BlockFormat.unpack (β := β) [] = .error e
  length_pack_lt : ∀ b : β, (BlockFormat.pack b).length < 2 ^ 32
  num_pos : ∀ b : β, 0 < (BlockFormat.id b).num

/-! ## Entries -/

namespace RawBlockId

theorem num_lt (id : RawBlockId) : id.num < 2 ^ 32 := by
  have hlt := ofLeBytes_lt (id.val.take 4).reverse
  rw [List.length_reverse, List.length_take, id.property] at hlt
  exact hlt

@[simp] theorem num_zero : zero.num = 0 := by decide

theorem ne_zero_of_num {id : RawBlockId} (h : 0 < id.num) : id ≠ zero := by
  intro hz
  rw [hz, num_zero] at h
  omega

end RawBlockId

namespace IndexEntry

theorem length_toBytes (e : IndexEntry) : e.toBytes.length = INDEX_ENTRY_SIZE := by
  rw [toBytes, List.length_append, List.length_append, length_leBytes, length_leBytes,
    e.blockId.property]
  rfl

/-- An index entry is read back from the bytes it was written as. -/
theorem ofBytes_toBytes (e : IndexEntry) : ofBytes ⟨e.toBytes, e.length_toBytes⟩ = e := by
  obtain ⟨pos, size, id⟩ := e
  have hpos : (leBytes 8 pos.toNat ++ leBytes 4 size.toNat ++ id.val).take 8 =
      leBytes 8 pos.toNat := by
    rw [List.append_assoc]
    exact List.take_left' (length_leBytes _ _)
  have hrest : (leBytes 8 pos.toNat ++ leBytes 4 size.toNat ++ id.val).drop 8 =
      leBytes 4 size.toNat ++ id.val := by
    rw [List.append_assoc]
    exact List.drop_left' (length_leBytes _ _)
  have hsize : (leBytes 4 size.toNat ++ id.val).take 4 = leBytes 4 size.toNat :=
    List.take_left' (length_leBytes _ _)
  have hid : (leBytes 8 pos.toNat ++ leBytes 4 size.toNat ++ id.val).drop 12 = id.val :=
    List.drop_left' (by rw [List.length_append, length_leBytes, length_leBytes])
  simp only [ofBytes, toBytes, hpos, hrest, hsize, hid,
    ofLeBytes_leBytes_of_lt (n := 8) pos.toNat_lt, ofLeBytes_leBytes_of_lt (n := 4) size.toNat_lt,
    UInt64.ofNat_toNat, UInt32.ofNat_toNat]

theorem toBytes_empty : ({} : IndexEntry).toBytes = List.replicate INDEX_ENTRY_SIZE 0 := by decide

end IndexEntry

namespace BlockDatabase

variable {α β : Type} [BlockFormat β] {d d' : BlockDatabase} {e : IndexEntry} {b : β} {n m : Nat}

/-! ## What the files hold -/

/-- How many entries the index has, which is more than the number of the last block. -/
def count (d : BlockDatabase) : Nat := d.blockNumToPos.bytes.length / INDEX_ENTRY_SIZE

/-- The entry at a place; behind the end there are none. -/
def entryAt (d : BlockDatabase) (n : Nat) : IndexEntry :=
  if h : (record INDEX_ENTRY_SIZE d.blockNumToPos.bytes n).length = INDEX_ENTRY_SIZE then
    .ofBytes ⟨_, h⟩
  else {}

/-- The block of an entry, if it has one that is whole. -/
def blockAt (β : Type) [BlockFormat β] (d : BlockDatabase) (e : IndexEntry) : Option β :=
  if 0 < e.blockSize ∧ e.blockPos.toNat + e.blockSize.toNat ≤ d.blocks.bytes.length then
    match BlockFormat.unpack (readAt d.blocks.bytes e.blockPos.toNat e.blockSize.toNat) with
    | .ok b => if BlockFormat.id b = e.blockId then some b else none
    | .error _ => none
  else none

/-- The archive that the two files stand for: an entry in use is a label, and a block that can be
read its document. -/
def contents (β : Type) [BlockFormat β] (d : BlockDatabase) : Archive RawBlockId β where
  size := d.count
  slot n :=
    if n < d.count ∧ d.entryAt n ≠ {} then
      some ((d.entryAt n).blockId, d.blockAt β (d.entryAt n))
    else none
  unused _ hn := if_neg fun h => Nat.not_lt.mpr hn h.1

/-- What an entry in use says about its block: the number is that of the entry, and the bytes are in
the file. -/
structure Filed (β : Type) [BlockFormat β] (d : BlockDatabase) (n : Nat) (e : IndexEntry) :
    Prop where
  num : e.blockId.num = n
  pos : 0 < n
  fits : e.blockPos.toNat + e.blockSize.toNat ≤ d.blocks.bytes.length
  whole : 0 < e.blockSize → (d.blockAt β e).isSome

/-- The streams are good, the index consists of entries, and each is unused or in order. -/
structure Sound (β : Type) [BlockFormat β] (d : BlockDatabase) : Prop where
  blocksGood : d.blocks.failed = false
  indexGood : d.blockNumToPos.failed = false
  blocksLength : d.blocks.bytes.length < 2 ^ 63
  indexLength : d.blockNumToPos.bytes.length = INDEX_ENTRY_SIZE * d.count
  countLe : d.count ≤ 2 ^ 32
  entries : ∀ n, n < d.count → d.entryAt n ≠ {} → Filed β d n (d.entryAt n)

/-! ## Reading -/

theorem lt_length_of_lt_count (h : n < d.count) :
    INDEX_ENTRY_SIZE * n + INDEX_ENTRY_SIZE ≤ d.blockNumToPos.bytes.length := by
  unfold count INDEX_ENTRY_SIZE at *
  omega

theorem length_record (h : n < d.count) :
    (record INDEX_ENTRY_SIZE d.blockNumToPos.bytes n).length = INDEX_ENTRY_SIZE :=
  length_readAt (lt_length_of_lt_count h)

theorem entryAt_of_record (h : record INDEX_ENTRY_SIZE d.blockNumToPos.bytes n = e.toBytes) :
    d.entryAt n = e := by
  have hlength : (record INDEX_ENTRY_SIZE d.blockNumToPos.bytes n).length = INDEX_ENTRY_SIZE := by
    rw [h, e.length_toBytes]
  rw [entryAt, dif_pos hlength]
  simp only [h, IndexEntry.ofBytes_toBytes]

theorem size_eq {s : FileStream} (h : s.failed = false) :
    FileStream.size s = .ok s.bytes.length s := by
  show (if s.failed then _ else _ : FileStream.Op Nat) s = _
  rw [h]
  rfl

theorem indexSize_eq (h : d.blockNumToPos.failed = false) :
    onIndex FileStream.size d = .ok d.blockNumToPos.bytes.length d :=
  focus_eq_of_ok (size_eq h)

theorem readEntry_eq (hgood : d.blockNumToPos.failed = false) (hn : n < d.count)
    (hle : n < 2 ^ 32) : readEntry n d = .ok (d.entryAt n) d := by
  have hpos : INDEX_ENTRY_SIZE * n < 2 ^ 63 := by
    unfold INDEX_ENTRY_SIZE
    omega
  have hread : onIndex (FileStream.read (INDEX_ENTRY_SIZE * n) INDEX_ENTRY_SIZE) d =
      .ok ⟨_, length_record hn⟩ d := by
    refine focus_eq_of_ok ?_
    rw [FileStream.read, hgood, if_neg (by decide),
      dif_pos ⟨hpos, Or.inr (lt_length_of_lt_count hn)⟩]
    rfl
  rw [readEntry, bind_eq_of_ok hread, entryAt, dif_pos (length_record hn)]
  rfl

/-- The bytes of an entry are read where the file has them. -/
theorem readData_eq (hgood : d.blocks.failed = false) (hlength : d.blocks.bytes.length < 2 ^ 63)
    (hfits : e.blockPos.toNat + e.blockSize.toNat ≤ d.blocks.bytes.length) :
    onBlocks (FileStream.read e.blockPos.toNat e.blockSize.toNat) d =
      .ok ⟨readAt d.blocks.bytes e.blockPos.toNat e.blockSize.toNat, length_readAt hfits⟩ d := by
  refine focus_eq_of_ok ?_
  rw [FileStream.read, hgood, if_neg (by decide), dif_pos ⟨by omega, Or.inr hfits⟩]

/-- A block that is whole in the file is read by its entry. -/
theorem readBlock_eq_ok (hgood : d.blocks.failed = false)
    (hlength : d.blocks.bytes.length < 2 ^ 63) (h : d.blockAt β e = some b) :
    readBlock e d = .ok b d := by
  rw [blockAt] at h
  split at h
  · next hfits =>
    split at h
    · next b' hunpack =>
      split at h
      · next hid =>
        cases h
        rw [readBlock, bind_eq_of_ok (readData_eq hgood hlength hfits.2)]
        simp [hunpack, liftExcept, bind, EStateM.bind, fcAssert, hid, pure, EStateM.pure]
      · cases h
    · cases h
  · cases h

/-- One that is not is refused, if the entry is within the file. -/
theorem readBlock_eq_error [LawfulBlockFormat β] (hgood : d.blocks.failed = false)
    (hlength : d.blocks.bytes.length < 2 ^ 63)
    (hfits : e.blockPos.toNat + e.blockSize.toNat ≤ d.blocks.bytes.length)
    (h : d.blockAt β e = none) : ∃ x, readBlock (β := β) e d = .error x d := by
  have hdata := readData_eq hgood hlength hfits
  rw [readBlock, bind_eq_of_ok hdata]
  cases hunpack : BlockFormat.unpack (β := β)
      (readAt d.blocks.bytes e.blockPos.toNat e.blockSize.toNat) with
  | error x => exact ⟨x, rfl⟩
  | ok b =>
      by_cases hsize : 0 < e.blockSize
      · rw [blockAt, if_pos ⟨hsize, hfits⟩, hunpack] at h
        have hid : BlockFormat.id b ≠ e.blockId := by
          intro hid
          simp [hid] at h
        refine ⟨.assert "result.id() == e.block_id", ?_⟩
        simp [liftExcept, bind, EStateM.bind, fcAssert, hid]
      · -- Without a size there is nothing to unpack.
        have hzero : e.blockSize.toNat = 0 := by
          rw [UInt32.lt_iff_toNat_lt] at hsize
          exact Nat.eq_zero_of_not_pos hsize
        obtain ⟨x, hx⟩ := LawfulBlockFormat.unpack_nil (β := β)
        rw [hzero, readAt, List.take_zero, hx] at hunpack
        cases hunpack

/-! ## Looking for the last block -/

theorem document_contents (hn : n < d.count) :
    (contents β d).document n = d.blockAt β (d.entryAt n) := by
  by_cases h : d.entryAt n = {}
  · have hslot : (contents β d).slot n = none := if_neg fun hne => hne.2 h
    rw [Archive.document, hslot, h, blockAt, if_neg]
    · rfl
    · exact fun hpos => absurd hpos.1 (by decide)
  · have hslot : (contents β d).slot n = _ := if_pos ⟨hn, h⟩
    rw [Archive.document, hslot]
    rfl

theorem slot_contents (hn : n < d.count) (hne : d.entryAt n ≠ {}) : (contents β d).slot n =
    some ((d.entryAt n).blockId, d.blockAt β (d.entryAt n)) :=
  if_pos ⟨hn, hne⟩

theorem slot_contents_empty (he : d.entryAt n = {}) : (contents β d).slot n = none :=
  if_neg fun h => h.2 he

theorem label_contents (hn : n < d.count) (hne : d.entryAt n ≠ {}) :
    (contents β d).label n = some (d.entryAt n).blockId := by
  rw [Archive.label, slot_contents hn hne]
  rfl

theorem label_contents_empty (he : d.entryAt n = {}) : (contents β d).label n = none := by
  rw [Archive.label, slot_contents_empty he]
  rfl

/-- An entry bears an id other than zero when the archive has it as a label. -/
theorem blockId_eq_iff {id : RawBlockId} (hn : n < d.count) (hid : id ≠ RawBlockId.zero) :
    (d.entryAt n).blockId = id ↔ (contents β d).label n = some id := by
  by_cases he : d.entryAt n = {}
  · rw [he, label_contents_empty he]
    constructor
    · intro hzero
      exact absurd hzero.symm hid
    · intro hnone
      cases hnone
  · rw [label_contents hn he, Option.some.injEq]

/-- The database whose index lacks the entries from `m` on. -/
def trim (d : BlockDatabase) (m : Nat) : BlockDatabase :=
  { d with blockNumToPos :=
    { d.blockNumToPos with bytes := d.blockNumToPos.bytes.take (INDEX_ENTRY_SIZE * m) } }

theorem count_trim (h : m ≤ d.count) : (d.trim m).count = m := by
  have hlength : (d.trim m).blockNumToPos.bytes.length = INDEX_ENTRY_SIZE * m := by
    show (d.blockNumToPos.bytes.take _).length = _
    rw [List.length_take, Nat.min_eq_left]
    unfold count INDEX_ENTRY_SIZE at *
    omega
  rw [count, hlength]
  exact Nat.mul_div_cancel_left m (by decide)

theorem entryAt_trim (h : n < m) : (d.trim m).entryAt n = d.entryAt n := by
  have hrecord : record INDEX_ENTRY_SIZE (d.trim m).blockNumToPos.bytes n =
      record INDEX_ENTRY_SIZE d.blockNumToPos.bytes n := record_take h
  unfold entryAt
  simp only [hrecord]

theorem contents_trim (h : m ≤ d.count) : contents β (d.trim m) = (contents β d).cut m := by
  ext1
  · show (d.trim m).count = min d.count m
    rw [count_trim h, Nat.min_eq_right h]
  · funext n
    show (if n < (d.trim m).count ∧ (d.trim m).entryAt n ≠ {} then _ else none) =
      if n < m then (if n < d.count ∧ d.entryAt n ≠ {} then _ else none) else none
    rw [count_trim h]
    by_cases hn : n < m
    · have hd : n < d.count := by omega
      simp only [entryAt_trim hn, hn, hd, true_and, if_true]
      rfl
    · rw [if_neg hn, if_neg fun hne => hn hne.1]

/-- What looking for the last block leaves: nothing but entries at the end of the index is gone. -/
structure Settled (β : Type) [BlockFormat β] (d d' : BlockDatabase) : Prop where
  contents : contents β d' = (contents β d).settle
  blocks : d'.blocks = d.blocks
  failed : d'.blockNumToPos.failed = d.blockNumToPos.failed
  countLe : d'.count ≤ d.count
  entryAt : ∀ n, n < d'.count → d'.entryAt n = d.entryAt n
  length : d.blockNumToPos.bytes.length = INDEX_ENTRY_SIZE * d.count →
    d'.blockNumToPos.bytes.length = INDEX_ENTRY_SIZE * d'.count

theorem Settled.refl (h : (BlockDatabase.contents β d).settle = BlockDatabase.contents β d) :
    Settled β d d :=
  ⟨h.symm, rfl, rfl, le_rfl, fun _ _ => rfl, id⟩

theorem Settled.of_trim (h : Settled β (d.trim n) d') (hn : n < d.count)
    (hcount : d.count = n + 1) (hnone : (BlockDatabase.contents β d).document n = none) :
    Settled β d d' where
  contents := by
    rw [h.contents, contents_trim (by omega), Archive.settle_cut hcount hnone]
  blocks := h.blocks
  failed := h.failed
  countLe := by
    have hle := h.countLe
    rw [count_trim (by omega)] at hle
    omega
  entryAt m hm := by
    have hle := h.countLe
    rw [count_trim (by omega)] at hle
    rw [h.entryAt m hm, entryAt_trim (by omega)]
  length _ := by
    refine h.length ?_
    rw [count_trim (by omega)]
    show (d.blockNumToPos.bytes.take _).length = _
    rw [List.length_take, Nat.min_eq_left]
    have hle := lt_length_of_lt_count hn
    omega

/-- No entry of the index goes beyond 64 bits, so that no position wraps around. -/
def Unwrapped (d : BlockDatabase) : Prop :=
  ∀ n, n < d.count → (d.entryAt n).blockPos.toNat + (d.entryAt n).blockSize.toNat < 2 ^ 64

theorem accepts_eq [LawfulBlockFormat β] (hgood : d.blocks.failed = false)
    (hlength : d.blocks.bytes.length < 2 ^ 63)
    (hwrap : e.blockPos.toNat + e.blockSize.toNat < 2 ^ 64) :
    accepts β d.blocks.bytes.length e d = .ok (d.blockAt β e).isSome d := by
  have hsum : (e.blockPos + e.blockSize.toUInt64).toNat = e.blockPos.toNat + e.blockSize.toNat := by
    rw [UInt64.toNat_add, UInt32.toNat_toUInt64, Nat.mod_eq_of_lt hwrap]
  unfold accepts
  rw [hsum]
  by_cases hcond : 0 < e.blockSize ∧ e.blockPos.toNat + e.blockSize.toNat ≤ d.blocks.bytes.length
  · rw [if_pos hcond]
    cases hblock : d.blockAt β e with
    | some b =>
        refine tryCatch_eq_of_ok ?_
        rw [bind_eq_of_ok (readBlock_eq_ok hgood hlength hblock)]
        rfl
    | none =>
        obtain ⟨x, hx⟩ := readBlock_eq_error (β := β) hgood hlength hcond.2 hblock
        rw [tryCatch_eq_of_error (bind_eq_of_error hx)]
        rfl
  · have hblock : d.blockAt β e = none := if_neg hcond
    rw [if_neg hcond, hblock]
    rfl

theorem lastEntryBelow_eq [LawfulBlockFormat β] (hblocks : d.blocks.failed = false)
    (hindex : d.blockNumToPos.failed = false) (hlength : d.blocks.bytes.length < 2 ^ 63)
    (hle : d.count ≤ 2 ^ 32) (hwrap : d.Unwrapped) :
    ∃ d', lastEntryBelow β d.blocks.bytes.length d.count d =
      .ok ((contents β d).top.map d.entryAt) d' ∧ Settled β d d' := by
  generalize hcount : d.count = n at hle
  induction n generalizing d with
  | zero =>
      have htop : (contents β d).top = none := by
        show Archive.topBelow _ d.count = none
        rw [hcount]
        rfl
      rw [htop]
      exact ⟨d, rfl, .refl (Archive.settle_of_size_zero hcount)⟩
  | succ n ih =>
      have hn : n < d.count := by omega
      rw [lastEntryBelow, bind_eq_of_ok (readEntry_eq hindex hn (by omega)),
        bind_eq_of_ok (accepts_eq hblocks hlength (hwrap n hn))]
      have hdocument : (contents β d).document n = d.blockAt β (d.entryAt n) := document_contents hn
      cases hblock : d.blockAt β (d.entryAt n) with
      | some b =>
          have hsome : ((contents β d).document n).isSome := by
            rw [hdocument, hblock]
            rfl
          rw [Archive.top_of_document hcount hsome]
          exact ⟨d, rfl, .refl (Archive.settle_of_document hcount hsome)⟩
      | none =>
          -- the last entry has no block: it is trimmed, and the search goes on below it
          rw [hblock] at hdocument
          have hresize : onIndex (FileStream.resize (INDEX_ENTRY_SIZE * n)) d =
              .ok () (d.trim n) := rfl
          have htrim : contents β (d.trim n) = (contents β d).cut n := contents_trim (by omega)
          have hcountTrim : (d.trim n).count = n := count_trim (by omega)
          obtain ⟨d', hrun, hsettled⟩ := ih (d := d.trim n) hblocks hindex hlength
            (fun m hm => by
              rw [hcountTrim] at hm
              rw [entryAt_trim hm]
              exact hwrap m (by omega)) hcountTrim (by omega)
          refine ⟨d', ?_, hsettled.of_trim hn hcount hdocument⟩
          have hentries : (contents β (d.trim n)).top.map (d.trim n).entryAt =
              (contents β d).top.map d.entryAt := by
            rw [htrim, Archive.top_cut hcount hdocument]
            cases htop : (contents β d).top with
            | none => rfl
            | some m =>
                have hm := Archive.top_lt hcount hdocument htop
                exact congrArg some (entryAt_trim hm)
          rw [hentries] at hrun
          show (onIndex (FileStream.resize (INDEX_ENTRY_SIZE * n)) >>= fun _ =>
            lastEntryBelow β d.blocks.bytes.length n) d = _
          rw [bind_eq_of_ok hresize]
          exact hrun

/-- `last_index_entry` finds the last block that is whole, whatever is in the files. -/
theorem lastIndexEntry_eq [LawfulBlockFormat β] (hblocks : d.blocks.failed = false)
    (hindex : d.blockNumToPos.failed = false) (hlength : d.blocks.bytes.length < 2 ^ 63)
    (hle : d.count ≤ 2 ^ 32) (hwrap : d.Unwrapped) :
    ∃ d', lastIndexEntry β d = .ok ((contents β d).top.map d.entryAt) d' ∧ Settled β d d' := by
  by_cases hsmall : d.blockNumToPos.bytes.length < INDEX_ENTRY_SIZE
  · have hcount : d.count = 0 := Nat.div_eq_of_lt hsmall
    have htop : (contents β d).top = none := by
      show Archive.topBelow _ d.count = none
      rw [hcount]
      rfl
    refine ⟨d, ?_, .refl (Archive.settle_of_size_zero hcount)⟩
    refine tryCatch_eq_of_ok ?_
    rw [bind_eq_of_ok (indexSize_eq hindex), if_pos hsmall, htop]
    rfl
  · obtain ⟨d', hrun, hsettled⟩ := lastEntryBelow_eq (β := β) hblocks hindex hlength hle hwrap
    refine ⟨d', tryCatch_eq_of_ok ?_, hsettled⟩
    have hsize : onBlocks FileStream.size d = .ok d.blocks.bytes.length d :=
      focus_eq_of_ok (size_eq hblocks)
    rw [bind_eq_of_ok (indexSize_eq hindex), if_neg hsmall, bind_eq_of_ok hsize]
    exact hrun

/-! ## Writing -/

/-- The database with another entry for the number `n`. -/
def setEntry (d : BlockDatabase) (n : Nat) (e : IndexEntry) : BlockDatabase :=
  { d with blockNumToPos := { d.blockNumToPos with
    bytes := writeAt 0 d.blockNumToPos.bytes (INDEX_ENTRY_SIZE * n) e.toBytes } }

/-- The database with more at the end of the file of blocks. -/
def append (d : BlockDatabase) (v : Bytes) : BlockDatabase :=
  { d with blocks := { d.blocks with bytes := d.blocks.bytes ++ v } }

theorem length_setEntry (h : d.blockNumToPos.bytes.length = INDEX_ENTRY_SIZE * d.count) :
    (d.setEntry n e).blockNumToPos.bytes.length = INDEX_ENTRY_SIZE * max d.count (n + 1) :=
  length_writeAt_record h e.length_toBytes

theorem count_setEntry (h : d.blockNumToPos.bytes.length = INDEX_ENTRY_SIZE * d.count) :
    (d.setEntry n e).count = max d.count (n + 1) := by
  rw [count, length_setEntry h]
  exact Nat.mul_div_cancel_left _ (by decide)

theorem entryAt_setEntry (h : d.blockNumToPos.bytes.length = INDEX_ENTRY_SIZE * d.count)
    (hm : m < max d.count (n + 1)) : (d.setEntry n e).entryAt m =
      if m = n then e else if m < d.count then d.entryAt m else {} := by
  have hrecord := record_writeAt (z := 0) h e.length_toBytes hm
  by_cases hmn : m = n
  · rw [if_pos hmn] at hrecord ⊢
    exact entryAt_of_record hrecord
  rw [if_neg hmn] at hrecord ⊢
  by_cases hlt : m < d.count
  · rw [if_pos hlt] at hrecord ⊢
    unfold entryAt
    simp only [setEntry, hrecord]
  · rw [if_neg hlt] at hrecord ⊢
    refine entryAt_of_record ?_
    rw [IndexEntry.toBytes_empty]
    exact hrecord

theorem write_eq {s : FileStream} {pos : Nat} {v : Bytes} (h : s.failed = false)
    (hroom : pos + v.length < 2 ^ 63) :
    FileStream.write pos v s = .ok () { s with bytes := writeAt 0 s.bytes pos v } := by
  rw [FileStream.write, if_neg]
  rw [h]
  simp only [Bool.false_eq_true, false_or]
  omega

theorem writeEntry_eq (hgood : d.blockNumToPos.failed = false) (hn : n < 2 ^ 32) :
    onIndex (FileStream.write (INDEX_ENTRY_SIZE * n) e.toBytes) d = .ok () (d.setEntry n e) := by
  refine focus_eq_of_ok (write_eq hgood ?_)
  rw [e.length_toBytes]
  unfold INDEX_ENTRY_SIZE
  omega

theorem writeBlock_eq {v : Bytes} (hgood : d.blocks.failed = false)
    (hroom : d.blocks.bytes.length + v.length < 2 ^ 63) :
    onBlocks (FileStream.write d.blocks.bytes.length v) d = .ok () (d.append v) := by
  refine focus_eq_of_ok ?_
  rw [write_eq hgood hroom, writeAt_length]

/-- A block that is whole stays so when other blocks are appended behind it. -/
theorem blockAt_append {v : Bytes}
    (h : e.blockPos.toNat + e.blockSize.toNat ≤ d.blocks.bytes.length) :
    (d.append v).blockAt β e = d.blockAt β e := by
  have hread : readAt (d.blocks.bytes ++ v) e.blockPos.toNat e.blockSize.toNat =
      readAt d.blocks.bytes e.blockPos.toNat e.blockSize.toNat := readAt_append_left h
  have hlength : (d.append v).blocks.bytes.length = d.blocks.bytes.length + v.length :=
    List.length_append
  simp only [blockAt, hlength]
  simp only [append, hread, h, and_true, show e.blockPos.toNat + e.blockSize.toNat ≤
    d.blocks.bytes.length + v.length by omega]

theorem Filed.append {v : Bytes} (h : Filed β d n e) : Filed β (d.append v) n e where
  num := h.num
  pos := h.pos
  fits := by
    have hlength : (d.append v).blocks.bytes.length = d.blocks.bytes.length + v.length :=
      List.length_append
    have hfits := h.fits
    omega
  whole hsize := by
    rw [blockAt_append h.fits]
    exact h.whole hsize

/-- The entry of a block that was appended is filed under the number of the block. -/
theorem filed_appended [LawfulBlockFormat β]
    (hlength : d.blocks.bytes.length + (BlockFormat.pack b).length < 2 ^ 63)
    (he : e = { blockPos := .ofNat d.blocks.bytes.length
                blockSize := .ofNat (BlockFormat.pack b).length
                blockId := BlockFormat.id b }) :
    (d.append (BlockFormat.pack b)).blockAt β e = some b ∧
      Filed β (d.append (BlockFormat.pack b)) (BlockFormat.id b).num e := by
  have hpos : e.blockPos.toNat = d.blocks.bytes.length := by
    rw [he]
    exact UInt64.toNat_ofNat_of_lt' (by unfold UInt64.size; omega)
  have hsize : e.blockSize.toNat = (BlockFormat.pack b).length := by
    rw [he]
    exact UInt32.toNat_ofNat_of_lt' (LawfulBlockFormat.length_pack_lt b)
  have hend : (d.append (BlockFormat.pack b)).blocks.bytes.length =
      d.blocks.bytes.length + (BlockFormat.pack b).length := List.length_append
  -- An empty buffer holds no block.
  have hne : 0 < e.blockSize := by
    rw [UInt32.lt_iff_toNat_lt, hsize]
    by_contra hzero
    have hnil : BlockFormat.pack b = [] := List.eq_nil_of_length_eq_zero (Nat.eq_zero_of_not_pos hzero)
    have hback := LawfulBlockFormat.unpack_pack b
    obtain ⟨x, hx⟩ := LawfulBlockFormat.unpack_nil (β := β)
    rw [hnil, hx] at hback
    cases hback
  have hread : readAt (d.append (BlockFormat.pack b)).blocks.bytes e.blockPos.toNat
      e.blockSize.toNat = BlockFormat.pack b := by
    rw [hpos, hsize]
    exact readAt_append_right
  have hblock : (d.append (BlockFormat.pack b)).blockAt β e = some b := by
    rw [blockAt, if_pos ⟨hne, by omega⟩, hread, LawfulBlockFormat.unpack_pack]
    simp [he]
  refine ⟨hblock, ?_, LawfulBlockFormat.num_pos b, by omega, fun _ => by rw [hblock]; rfl⟩
  rw [he]

theorem Filed.ne_empty (h : Filed β d n e) : e ≠ {} := by
  intro he
  have hnum := h.num
  have hpos := h.pos
  rw [he, RawBlockId.num_zero] at hnum
  omega

theorem Sound.append {v : Bytes} (h : Sound β d)
    (hv : d.blocks.bytes.length + v.length < 2 ^ 63) : Sound β (d.append v) where
  blocksGood := h.blocksGood
  indexGood := h.indexGood
  blocksLength := by
    show (d.blocks.bytes ++ v).length < 2 ^ 63
    rw [List.length_append]
    exact hv
  indexLength := h.indexLength
  countLe := h.countLe
  entries n hn hne := (h.entries n hn hne).append

theorem contents_append {v : Bytes} (h : Sound β d) :
    contents β (d.append v) = contents β d := by
  ext1
  · rfl
  · funext n
    show (if n < d.count ∧ d.entryAt n ≠ {} then some (_, blockAt β (d.append v) (d.entryAt n))
      else none) = if n < d.count ∧ d.entryAt n ≠ {} then _ else none
    split
    · next hn =>
      rw [blockAt_append (h.entries n hn.1 hn.2).fits]
      rfl
    · rfl

theorem Sound.setEntry (h : Sound β d) (hn : n < 2 ^ 32) (he : e ≠ {} → Filed β d n e) :
    Sound β (d.setEntry n e) where
  blocksGood := h.blocksGood
  indexGood := h.indexGood
  blocksLength := h.blocksLength
  indexLength := by rw [count_setEntry h.indexLength, length_setEntry h.indexLength]
  countLe := by
    have hle := h.countLe
    rw [count_setEntry h.indexLength]
    omega
  entries m hm := by
    rw [count_setEntry h.indexLength] at hm
    rw [entryAt_setEntry h.indexLength hm]
    split
    · next hmn =>
      intro hne
      have hnew := he hne
      rw [hmn]
      exact ⟨hnew.num, hnew.pos, hnew.fits, hnew.whole⟩
    · split
      · next hlt =>
        intro hne
        have hold := h.entries m hlt hne
        exact ⟨hold.num, hold.pos, hold.fits, hold.whole⟩
      · exact fun hne => absurd rfl hne

/-- What writing an entry does to the archive: one place has a new label, and the document that the
entry finds. -/
theorem slot_setEntry (h : Sound β d) : (contents β (d.setEntry n e)).slot =
    Function.update (contents β d).slot n
      (if e ≠ {} then some (e.blockId, d.blockAt β e) else none) := by
  have hcount := count_setEntry (n := n) (e := e) h.indexLength
  funext m
  show (if m < (d.setEntry n e).count ∧ (d.setEntry n e).entryAt m ≠ {} then
    some (((d.setEntry n e).entryAt m).blockId, d.blockAt β ((d.setEntry n e).entryAt m))
    else none) = _
  by_cases hm : m < max d.count (n + 1)
  · rw [hcount, entryAt_setEntry h.indexLength hm]
    by_cases hmn : m = n
    · simp only [hmn, if_true, Function.update_self, true_and, show n < max d.count (n + 1) by omega]
    · rw [if_neg hmn, Function.update_of_ne hmn]
      show _ = if m < d.count ∧ d.entryAt m ≠ {} then _ else none
      by_cases hlt : m < d.count
      · simp only [hlt, hm, if_true]
      · rw [if_neg hlt, if_neg fun hne => hne.2 rfl, if_neg fun hne => hlt hne.1]
  · have hmn : m ≠ n := by omega
    rw [if_neg fun hne => hm (hcount ▸ hne.1), Function.update_of_ne hmn]
    exact ((contents β d).unused m (by show d.count ≤ m; omega)).symm

/-! ## What the calls do -/

theorem Sound.readEntry_eq (h : Sound β d) (hn : n < d.count) :
    readEntry n d = .ok (d.entryAt n) d :=
  BlockDatabase.readEntry_eq h.indexGood hn (by have := h.countLe; omega)

/-- Every entry in the index is within the file of blocks. -/
theorem Sound.fits (h : Sound β d) (hn : n < d.count) :
    (d.entryAt n).blockPos.toNat + (d.entryAt n).blockSize.toNat ≤ d.blocks.bytes.length := by
  by_cases hempty : d.entryAt n = {}
  · rw [hempty]
    exact Nat.zero_le _
  · exact (h.entries n hn hempty).fits

theorem Sound.length_le_iff (h : Sound β d) :
    d.blockNumToPos.bytes.length ≤ INDEX_ENTRY_SIZE * n ↔ d.count ≤ n := by
  rw [h.indexLength]
  unfold INDEX_ENTRY_SIZE
  omega

theorem document_eq_none_of_size (h : d.count ≤ n) : (contents β d).document n = none := by
  rw [Archive.document, (contents β d).unused n h]
  rfl

theorem label_eq_none_of_size (h : d.count ≤ n) : (contents β d).label n = none := by
  rw [Archive.label, (contents β d).unused n h]
  rfl

/-- Nothing is filed under the id zero, since blocks are numbered from one on. -/
theorem Sound.entryAt_zero (h : Sound β d) (hn : 0 < d.count) : d.entryAt 0 = {} := by
  by_contra hne
  exact absurd (h.entries 0 hn hne).pos (by decide)

theorem Sound.num_of_label {id : RawBlockId} (h : Sound β d)
    (hlabel : (contents β d).label n = some id) : id.num = n ∧ 0 < n := by
  have hn : n < d.count := Archive.lt_size_of_label hlabel
  by_cases he : d.entryAt n = {}
  · rw [label_contents_empty he] at hlabel
    cases hlabel
  · rw [label_contents hn he, Option.some.injEq] at hlabel
    rw [← hlabel]
    exact ⟨(h.entries n hn he).num, (h.entries n hn he).pos⟩

theorem Sound.label_ne_zero (h : Sound β d) : (contents β d).label n ≠ some RawBlockId.zero := by
  intro hlabel
  obtain ⟨hnum, hpos⟩ := h.num_of_label hlabel
  rw [RawBlockId.num_zero] at hnum
  omega

/-- Where a block stands, it is filed under its own number and id. -/
theorem Sound.slot_of_document (h : Sound β d)
    (hb : (contents β d).document n = some b) :
    (BlockFormat.id b).num = n ∧ (contents β d).slot n = some (BlockFormat.id b, some b) := by
  have hn : n < d.count := Archive.lt_size_of_document hb
  have hne : d.entryAt n ≠ {} := by
    intro he
    rw [Archive.document, slot_contents_empty he] at hb
    cases hb
  have hslot := slot_contents (β := β) hn hne
  rw [document_contents hn] at hb
  have hid : BlockFormat.id b = (d.entryAt n).blockId := by
    rw [blockAt] at hb
    split at hb
    · split at hb
      · split at hb
        · next hid =>
          cases hb
          exact hid
        · cases hb
      · cases hb
    · cases hb
  rw [hslot, hb, hid]
  exact ⟨(h.entries n hn hne).num, rfl⟩

theorem contains_eq {id : RawBlockId} (h : Sound β d) : contains id d =
    .ok (decide ((contents β d).label id.num = some id ∧ ((contents β d).document id.num).isSome))
      d := by
  unfold contains
  by_cases hid : id = RawBlockId.zero
  · have hlabel : (contents β d).label id.num ≠ some id := by
      rw [hid]
      exact h.label_ne_zero
    rw [if_pos hid, decide_eq_false fun hfound => hlabel hfound.1]
    rfl
  rw [if_neg hid, bind_eq_of_ok (indexSize_eq h.indexGood)]
  by_cases hn : d.count ≤ id.num
  · have hsize : d.blockNumToPos.bytes.length < INDEX_ENTRY_SIZE * id.num + INDEX_ENTRY_SIZE := by
      rw [h.indexLength]
      unfold INDEX_ENTRY_SIZE
      omega
    have hnone : (contents β d).label id.num = none := label_eq_none_of_size hn
    rw [if_pos hsize, hnone, decide_eq_false fun hfound => nomatch hfound.1]
    rfl
  have hlt : id.num < d.count := Nat.not_le.mp hn
  have hiff : ((d.entryAt id.num).blockId = id ∧ 0 < (d.entryAt id.num).blockSize) ↔
      ((contents β d).label id.num = some id ∧ ((contents β d).document id.num).isSome) := by
    rw [blockId_eq_iff (β := β) hlt hid, document_contents hlt]
    refine and_congr_right fun hlabel => ?_
    have hne : d.entryAt id.num ≠ {} := by
      intro he
      rw [label_contents_empty he] at hlabel
      cases hlabel
    constructor
    · exact (h.entries _ hlt hne).whole
    · intro hsome
      by_contra hzero
      rw [blockAt, if_neg fun hpos => hzero hpos.1] at hsome
      cases hsome
  rw [if_neg (Nat.not_lt.mpr (lt_length_of_lt_count hlt)), bind_eq_of_ok (h.readEntry_eq hlt),
    ← decide_eq_decide.mpr hiff]
  rfl

theorem fetchBlockId_eq (h : Sound β d) : fetchBlockId n d =
    match (contents β d).label n with
    | some id => .ok id d
    | none => .error (.assert (if d.count ≤ n then
        "Block number ${block_num} not contained in block database"
        else "Empty block_id in block_database (maybe corrupt on disk?)")) d := by
  unfold fetchBlockId
  rw [bind_eq_of_ok (indexSize_eq h.indexGood)]
  by_cases hn : d.count ≤ n
  · rw [if_pos (h.length_le_iff.mpr hn), label_eq_none_of_size hn, if_pos hn]
    rfl
  have hlt : n < d.count := Nat.not_le.mp hn
  rw [if_neg fun hle => hn (h.length_le_iff.mp hle), bind_eq_of_ok (h.readEntry_eq hlt), if_neg hn]
  by_cases he : d.entryAt n = {}
  · rw [he, label_contents_empty he]
    rfl
  · have hne : (d.entryAt n).blockId ≠ RawBlockId.zero := by
      refine RawBlockId.ne_zero_of_num ?_
      rw [(h.entries n hlt he).num]
      exact (h.entries n hlt he).pos
    rw [label_contents hlt he]
    simp [liftExcept, bind, EStateM.bind, fcAssert, hne, pure, EStateM.pure]

theorem remove_eq_error {id : RawBlockId} (h : Sound β d) (hn : d.count ≤ id.num) :
    remove id d = .error (.assert "Block ${id} not contained in block database") d := by
  unfold remove
  rw [bind_eq_of_ok (indexSize_eq h.indexGood), if_pos (h.length_le_iff.mpr hn)]
  rfl

/-- Removing a block strikes it out of the archive, and keeps the files sound. -/
theorem contents_removed {id : RawBlockId} (h : Sound β d) (hn : id.num < d.count) :
    Sound β (d.setEntry id.num { d.entryAt id.num with blockSize := 0 }) ∧
      contents β (d.setEntry id.num { d.entryAt id.num with blockSize := 0 }) =
        (contents β d).strike id.num := by
  have hsize : (contents β (d.setEntry id.num { d.entryAt id.num with blockSize := 0 })).size =
      d.count := by
    show count _ = _
    rw [count_setEntry h.indexLength]
    omega
  by_cases he : d.entryAt id.num = {}
  · have hempty : { d.entryAt id.num with blockSize := 0 } = ({} : IndexEntry) := by rw [he]
    rw [hempty] at hsize ⊢
    refine ⟨h.setEntry id.num_lt fun hne => absurd rfl hne, ?_⟩
    ext1
    · exact hsize
    · rw [slot_setEntry h, if_neg (not_not_intro rfl)]
      show _ = Function.update _ _ _
      rw [slot_contents_empty he]
      rfl
  · have hfiled := h.entries id.num hn he
    have hremoved : Filed β d id.num { d.entryAt id.num with blockSize := 0 } :=
      ⟨hfiled.num, hfiled.pos, (Nat.le_add_right _ _).trans hfiled.fits,
        fun hpos => absurd hpos (UInt32.lt_irrefl 0)⟩
    refine ⟨h.setEntry id.num_lt fun _ => hremoved, ?_⟩
    ext1
    · exact hsize
    · rw [slot_setEntry h, if_pos hremoved.ne_empty, blockAt,
        if_neg fun hpos => UInt32.lt_irrefl 0 hpos.1]
      show _ = Function.update _ _ _
      rw [slot_contents hn he]
      rfl

theorem remove_eq_ok {id : RawBlockId} (h : Sound β d) (hn : id.num < d.count) :
    ∃ d', remove id d = .ok () d' ∧ Sound β d' ∧ d'.blocks = d.blocks ∧ contents β d' =
      if (contents β d).label id.num = some id then (contents β d).strike id.num
      else contents β d := by
  have hrun : remove id d = (if (d.entryAt id.num).blockId = id then
      onIndex (FileStream.write (INDEX_ENTRY_SIZE * id.num)
        { d.entryAt id.num with blockSize := 0 }.toBytes)
      else pure () : Op Unit) d := by
    unfold remove
    rw [bind_eq_of_ok (indexSize_eq h.indexGood),
      if_neg fun hle => Nat.not_le.mpr hn (h.length_le_iff.mp hle),
      bind_eq_of_ok (h.readEntry_eq hn)]
  rw [hrun]
  by_cases hid : (d.entryAt id.num).blockId = id
  · obtain ⟨hsound, hcontents⟩ := contents_removed h hn
    rw [if_pos hid]
    refine ⟨_, writeEntry_eq h.indexGood id.num_lt, hsound, rfl, ?_⟩
    rw [hcontents]
    split
    · rfl
    · next hlabel =>
      -- What is struck out where the id is zero has not been there.
      have hempty : d.entryAt id.num = {} := by
        by_contra he
        exact hlabel (by rw [label_contents hn he, hid])
      ext1
      · rfl
      · show Function.update _ _ _ = _
        rw [slot_contents_empty hempty]
        exact Function.update_eq_self_iff.mpr (slot_contents_empty hempty).symm
  · have hlabel : (contents β d).label id.num ≠ some id := by
      intro hlabel
      have he : d.entryAt id.num ≠ {} := by
        intro he
        rw [label_contents_empty he] at hlabel
        cases hlabel
      rw [label_contents hn he, Option.some.injEq] at hlabel
      exact hid hlabel
    rw [if_neg hid, if_neg hlabel]
    exact ⟨d, rfl, h, rfl, rfl⟩

theorem blockAt_congr (h : d'.blocks = d.blocks) : d'.blockAt β e = d.blockAt β e := by
  rw [blockAt, blockAt, h]

theorem Settled.sound (h : Settled β d d') (hd : Sound β d) : Sound β d' where
  blocksGood := by rw [h.blocks, hd.blocksGood]
  indexGood := by rw [h.failed, hd.indexGood]
  blocksLength := by
    rw [h.blocks]
    exact hd.blocksLength
  indexLength := h.length hd.indexLength
  countLe := h.countLe.trans hd.countLe
  entries n hn := by
    rw [h.entryAt n hn]
    intro hne
    have hold := hd.entries n (hn.trans_le h.countLe) hne
    refine ⟨hold.num, hold.pos, ?_, fun hsize => ?_⟩
    · rw [h.blocks]
      exact hold.fits
    · rw [blockAt_congr h.blocks]
      exact hold.whole hsize

theorem Sound.unwrapped (h : Sound β d) : d.Unwrapped := by
  intro n hn
  have hfits := h.fits hn
  have hlength := h.blocksLength
  omega

/-- The entry of the last block bears its label, which is the id of the block. -/
theorem label_top (htop : (contents β d).top = some m) :
    (contents β d).label m = some (d.entryAt m).blockId := by
  obtain ⟨hsome, _⟩ := Archive.top_eq_some.mp htop
  obtain ⟨b, hb⟩ := Option.isSome_iff_exists.mp hsome
  refine label_contents (Archive.lt_size_of_document hb) ?_
  intro he
  rw [Archive.document, slot_contents_empty he] at hb
  cases hb

theorem answer_ok {γ : Type} {f : α → Answer γ} {m : Op α} {x : α} (h : m d = .ok x d') :
    answer f m d = (f x, d') := by
  rw [answer, h]

theorem answer_error {γ : Type} {f : α → Answer γ} {m : Op α} {x : Exn} (h : m d = .error x d') :
    answer f m d = (.thrown x, d') := by
  rw [answer, h]

variable [LawfulBlockFormat β]

/-- The block of an entry, for those who catch what reading it throws. -/
theorem Sound.catchBlock_eq {m : Op (Option β)} (h : Sound β d) (hn : n < d.count)
    (hm : m d = (do return some (← readBlock (d.entryAt n)) : Op (Option β)) d) :
    tryCatch m (fun _ => return none) d = .ok ((contents β d).document n) d := by
  rw [document_contents hn]
  cases hblock : d.blockAt β (d.entryAt n) with
  | some b =>
      rw [bind_eq_of_ok (readBlock_eq_ok h.blocksGood h.blocksLength hblock)] at hm
      exact tryCatch_eq_of_ok hm
  | none =>
      obtain ⟨x, hx⟩ := readBlock_eq_error h.blocksGood h.blocksLength (h.fits hn) hblock
      rw [bind_eq_of_error hx] at hm
      exact (tryCatch_eq_of_error hm).trans rfl

/-- `fetch_by_number` finds the document of the archive at this number, and nothing where there is
none. -/
theorem fetchByNumber_eq (h : Sound β d) :
    fetchByNumber n d = .ok ((contents β d).document n) d := by
  by_cases hn : d.count ≤ n
  · have hnone : (contents β d).document n = none := by
      rw [Archive.document, (contents β d).unused n hn]
      rfl
    rw [hnone]
    refine tryCatch_eq_of_ok ?_
    rw [bind_eq_of_ok (indexSize_eq h.indexGood), if_pos (h.length_le_iff.mpr hn)]
    rfl
  · have hsize : ¬ d.blockNumToPos.bytes.length ≤ INDEX_ENTRY_SIZE * n :=
      fun hle => hn (h.length_le_iff.mp hle)
    have hlt : n < d.count := Nat.not_le.mp hn
    refine h.catchBlock_eq hlt ?_
    rw [bind_eq_of_ok (indexSize_eq h.indexGood), if_neg hsize,
      bind_eq_of_ok (h.readEntry_eq hlt)]

theorem fetchOptional_eq {id : RawBlockId} (h : Sound β d) : fetchOptional id d =
    .ok (if (contents β d).label id.num = some id then (contents β d).document id.num else none)
      d := by
  by_cases hn : d.count ≤ id.num
  · rw [document_eq_none_of_size hn, ite_self]
    refine tryCatch_eq_of_ok ?_
    rw [bind_eq_of_ok (indexSize_eq h.indexGood), if_pos (h.length_le_iff.mpr hn)]
    rfl
  have hsize : ¬ d.blockNumToPos.bytes.length ≤ INDEX_ENTRY_SIZE * id.num :=
    fun hle => hn (h.length_le_iff.mp hle)
  have hlt : id.num < d.count := Nat.not_le.mp hn
  by_cases hid : id = RawBlockId.zero
  · -- The entry of number zero is empty, and there is no block to read.
    rw [if_neg (by rw [hid]; exact h.label_ne_zero)]
    have hempty : d.entryAt id.num = {} := by
      rw [hid, RawBlockId.num_zero] at hlt ⊢
      exact h.entryAt_zero hlt
    have hnone : (contents β d).document id.num = none := by
      rw [Archive.document, slot_contents_empty hempty]
      rfl
    rw [← hnone]
    refine h.catchBlock_eq hlt ?_
    rw [bind_eq_of_ok (indexSize_eq h.indexGood), if_neg hsize,
      bind_eq_of_ok (h.readEntry_eq hlt), if_neg (by rw [hempty, hid]; decide)]
  · by_cases heq : (d.entryAt id.num).blockId = id
    · rw [if_pos ((blockId_eq_iff hlt hid).mp heq)]
      refine h.catchBlock_eq hlt ?_
      rw [bind_eq_of_ok (indexSize_eq h.indexGood), if_neg hsize,
        bind_eq_of_ok (h.readEntry_eq hlt), if_neg (not_not_intro heq)]
    · rw [if_neg fun hlabel => heq ((blockId_eq_iff hlt hid).mpr hlabel)]
      refine tryCatch_eq_of_ok ?_
      rw [bind_eq_of_ok (indexSize_eq h.indexGood), if_neg hsize,
        bind_eq_of_ok (h.readEntry_eq hlt), if_pos heq]
      rfl

theorem store_eq {id : RawBlockId} (h : Sound β d)
    (hid : id = BlockFormat.id b ∨ id = RawBlockId.zero)
    (hroom : d.blocks.bytes.length + (BlockFormat.pack b).length < 2 ^ 63) :
    ∃ d', store id b d = .ok () d' ∧ Sound β d' ∧
      contents β d' = (contents β d).put (BlockFormat.id b).num (BlockFormat.id b) b ∧
      d'.blocks.bytes.length = d.blocks.bytes.length + (BlockFormat.pack b).length := by
  have hsame : (if id = RawBlockId.zero then BlockFormat.id b else id) = BlockFormat.id b := by
    obtain hid | hid := hid
    · rw [hid, ite_self]
    · rw [if_pos hid]
  generalize he : ({ blockPos := .ofNat d.blocks.bytes.length
                     blockSize := .ofNat (BlockFormat.pack b).length
                     blockId := BlockFormat.id b } : IndexEntry) = e
  obtain ⟨hblock, hfiled⟩ := filed_appended hroom he.symm
  have hsound := h.append (v := BlockFormat.pack b) hroom
  refine ⟨(d.append (BlockFormat.pack b)).setEntry (BlockFormat.id b).num e, ?_,
    hsound.setEntry (BlockFormat.id b).num_lt fun _ => hfiled, ?_, List.length_append⟩
  · have hsize : onBlocks FileStream.size d = .ok d.blocks.bytes.length d :=
      focus_eq_of_ok (size_eq h.blocksGood)
    unfold store
    simp only [hsame]
    rw [bind_eq_of_ok hsize, bind_eq_of_ok (writeBlock_eq h.blocksGood hroom), he]
    exact writeEntry_eq hsound.indexGood (BlockFormat.id b).num_lt
  · ext1
    · exact count_setEntry hsound.indexLength
    · rw [slot_setEntry hsound, if_pos hfiled.ne_empty, hblock, contents_append h, ← he]
      rfl

theorem Sound.lastIndexEntry_eq (h : Sound β d) : ∃ d', lastIndexEntry β d =
    .ok ((contents β d).top.map d.entryAt) d' ∧ Settled β d d' :=
  BlockDatabase.lastIndexEntry_eq h.blocksGood h.indexGood h.blocksLength h.countLe h.unwrapped

theorem lastId_eq (h : Sound β d) : ∃ d', lastId β d =
    .ok ((contents β d).top.bind (contents β d).label) d' ∧ Settled β d d' := by
  obtain ⟨d', hrun, hsettled⟩ := h.lastIndexEntry_eq
  refine ⟨d', ?_, hsettled⟩
  rw [lastId, bind_eq_of_ok hrun]
  cases htop : (contents β d).top with
  | none => rfl
  | some m =>
      rw [Option.bind_some, label_top htop]
      rfl

theorem last_eq (h : Sound β d) : ∃ d', last β d = .ok (contents β d).last d' ∧ Settled β d d' := by
  obtain ⟨d', hrun, hsettled⟩ := h.lastIndexEntry_eq
  refine ⟨d', ?_, hsettled⟩
  rw [last, bind_eq_of_ok hrun, Archive.last]
  cases htop : (contents β d).top with
  | none => rfl
  | some m =>
      obtain ⟨hnum, _⟩ := h.num_of_label (label_top htop)
      show fetchByNumber (d.entryAt m).blockId.num d' = .ok ((contents β d).document m) d'
      rw [fetchByNumber_eq (hsettled.sound h), hsettled.contents, Archive.document_settle, hnum]

/-! ## A small format -/

namespace FileSample

/-- Blocks that consist of their id and a single byte. -/
structure Leaf where
  id : RawBlockId
  byte : UInt8
  numbered : 0 < id.num
  deriving DecidableEq

instance : BlockFormat Leaf where
  id := Leaf.id
  pack b := b.byte :: b.id.val
  unpack
    | [] => .error rangeError
    | b :: rest =>
        if h : ∃ hl : rest.length = 20, 0 < RawBlockId.num ⟨rest, hl⟩ then
          .ok ⟨⟨rest, h.choose⟩, b, h.choose_spec⟩
        else .error rangeError

instance : LawfulBlockFormat Leaf where
  unpack_pack b := dif_pos ⟨b.id.property, b.numbered⟩
  unpack_nil := ⟨rangeError, rfl⟩
  length_pack_lt b := by
    show (b.byte :: b.id.val).length < 2 ^ 32
    rw [List.length_cons, b.id.property]
    decide
  num_pos := Leaf.numbered

/-- Block number one, which is the first of its chain. -/
def first : Leaf := ⟨⟨[0, 0, 0, 1, 5, 0, 0, 0, 0, 0, 0, 0, 0, 0, 0, 0, 0, 0, 0, 0], rfl⟩, 7, by decide⟩

/-- Block number three, without a block number two before it. -/
def third : Leaf := ⟨⟨[0, 0, 0, 3, 6, 0, 0, 0, 0, 0, 0, 0, 0, 0, 0, 0, 0, 0, 0, 0], rfl⟩, 8, by decide⟩

end FileSample

/-! ## Runs of calls -/

/-- What an archive answers to a call, and how it goes on. -/
def specify : Call β → Archive RawBlockId β → Answer β × Archive RawBlockId β
  | .reopen, a => (.done, a)
  | .store _ b, a => (.done, a.put (BlockFormat.id b).num (BlockFormat.id b) b)
  | .remove id, a =>
      if a.size ≤ id.num then
        (.thrown (.assert "Block ${id} not contained in block database"), a)
      else (.done, if a.label id.num = some id then a.strike id.num else a)
  | .contains id, a => (.flag (a.label id.num = some id ∧ (a.document id.num).isSome), a)
  | .fetchBlockId n, a =>
      (match a.label n with
      | some id => .id id
      | none => .thrown (.assert (if a.size ≤ n then
          "Block number ${block_num} not contained in block database"
          else "Empty block_id in block_database (maybe corrupt on disk?)")), a)
  | .fetchOptional id, a =>
      (.maybeBlock (if a.label id.num = some id then a.document id.num else none), a)
  | .fetchByNumber n, a => (.maybeBlock (a.document n), a)
  | .last, a => (.maybeBlock a.last, a.settle)
  | .lastId, a => (.maybeId (a.top.bind a.label), a.settle)

/-- A block is stored under its own id, or under none. -/
def Call.Own : Call β → Prop
  | .store id b => id = BlockFormat.id b ∨ id = RawBlockId.zero
  | _ => True

instance : DecidablePred (Call.Own (β := β))
  | .store id b => inferInstanceAs (Decidable (id = BlockFormat.id b ∨ id = RawBlockId.zero))
  | .reopen | .remove _ | .contains _ | .fetchBlockId _ | .fetchOptional _ | .fetchByNumber _
  | .last | .lastId => .isTrue trivial

/-- The bytes a call adds to the file of blocks. -/
def Call.size : Call β → Nat
  | .store _ b => (BlockFormat.pack b).length
  | _ => 0

omit [LawfulBlockFormat β] in
theorem sound_empty : Sound β {} where
  blocksGood := rfl
  indexGood := rfl
  blocksLength := by decide
  indexLength := rfl
  countLe := by decide
  entries n hn := absurd hn (Nat.not_lt_zero n)

/-- **Step**: a call is answered as the archive answers it, and leaves what that leaves. -/
theorem exec_eq {c : Call β} (h : Sound β d) (hown : c.Own)
    (hroom : d.blocks.bytes.length + c.size < 2 ^ 63) :
    (exec c d).1 = (specify c (contents β d)).1 ∧ Sound β (exec c d).2 ∧
      contents β (exec c d).2 = (specify c (contents β d)).2 ∧
      (exec c d).2.blocks.bytes.length = d.blocks.bytes.length + c.size := by
  cases c with
  | reopen =>
      have hopen : d = { blocks := { bytes := d.blocks.bytes },
                         blockNumToPos := { bytes := d.blockNumToPos.bytes } } := by
        obtain ⟨⟨b, fb⟩, ⟨i, fi⟩⟩ := d
        have hb : fb = false := h.blocksGood
        have hi : fi = false := h.indexGood
        rw [hb, hi]
      have hrun : open_ d = .ok () d := congrArg (EStateM.Result.ok ()) hopen.symm
      rw [exec, answer_ok hrun]
      exact ⟨rfl, h, rfl, rfl⟩
  | store id b =>
      obtain ⟨d', hrun, hsound, hcontents, hlength⟩ := store_eq h hown hroom
      rw [exec, answer_ok hrun]
      exact ⟨rfl, hsound, hcontents, hlength⟩
  | remove id =>
      by_cases hn : d.count ≤ id.num
      · have hspec : specify (.remove id) (contents β d) = _ := if_pos hn
        rw [exec, answer_error (remove_eq_error h hn), hspec]
        exact ⟨rfl, h, rfl, rfl⟩
      · have hspec : specify (.remove id) (contents β d) = _ := if_neg hn
        obtain ⟨d', hrun, hsound, hblocks, hcontents⟩ := remove_eq_ok h (Nat.not_le.mp hn)
        rw [exec, answer_ok hrun, hspec]
        exact ⟨rfl, hsound, hcontents, by rw [hblocks]; rfl⟩
  | contains id =>
      rw [exec, answer_ok (contains_eq h)]
      exact ⟨rfl, h, rfl, rfl⟩
  | fetchBlockId n =>
      have hrun := fetchBlockId_eq (n := n) h
      show (answer _ _ d).1 = (match (contents β d).label n with | some id => _ | none => _) ∧ _
      cases hlabel : (contents β d).label n with
      | some id =>
          rw [hlabel] at hrun
          rw [exec, answer_ok hrun]
          exact ⟨rfl, h, rfl, rfl⟩
      | none =>
          rw [hlabel] at hrun
          rw [exec, answer_error hrun]
          exact ⟨rfl, h, rfl, rfl⟩
  | fetchOptional id =>
      rw [exec, answer_ok (fetchOptional_eq h)]
      exact ⟨rfl, h, rfl, rfl⟩
  | fetchByNumber n =>
      rw [exec, answer_ok (fetchByNumber_eq h)]
      exact ⟨rfl, h, rfl, rfl⟩
  | last =>
      obtain ⟨d', hrun, hsettled⟩ := last_eq h
      rw [exec, answer_ok hrun]
      exact ⟨rfl, hsettled.sound h, hsettled.contents, by rw [hsettled.blocks]; rfl⟩
  | lastId =>
      obtain ⟨d', hrun, hsettled⟩ := lastId_eq h
      rw [exec, answer_ok hrun]
      exact ⟨rfl, hsettled.sound h, hsettled.contents, by rw [hsettled.blocks]; rfl⟩

/-- **The block database is an archive**: started without files, it answers every run of calls
just as an archive of the blocks by number does. -/
theorem answers_as_archive (cs : List (Call β)) (hown : ∀ c ∈ cs, c.Own)
    (hroom : (cs.map Call.size).sum < 2 ^ 63) :
    (transcript exec cs {}).1 = (transcript specify cs Archive.empty).1 := by
  refine (transcript_simulates (R := fun cs d a => Sound β d ∧ contents β d = a ∧
    (∀ c ∈ cs, c.Own) ∧ d.blocks.bytes.length + (cs.map Call.size).sum < 2 ^ 63) ?_
    ⟨sound_empty, ?_, hown, ?_⟩).1
  · intro c cs d a ⟨hsound, hcontents, hown, hroom⟩
    rw [List.map_cons, List.sum_cons] at hroom
    subst hcontents
    obtain ⟨hanswer, hsound', hcontents', hlength⟩ :=
      exec_eq hsound (hown c List.mem_cons_self) (by omega)
    exact ⟨hanswer, hsound', hcontents', fun x hx => hown x (List.mem_cons_of_mem c hx), by omega⟩
  · ext1
    · rfl
    · funext n
      exact (contents β {}).unused n (Nat.zero_le n)
  · rw [show ({} : BlockDatabase).blocks.bytes.length = 0 from rfl, Nat.zero_add]
    exact hroom

open FileSample in
/-- Block three is gone after it was removed; who asks for the last block loses its place. -/
theorem answers_as_archive_removed :
    (transcript exec [.store first.id first, .store RawBlockId.zero third, .contains third.id,
      .remove third.id, .fetchBlockId 3, .last, .fetchBlockId 3] {}).1 =
      [.done, .done, .flag true, .done, .id third.id, .maybeBlock (some first),
        .thrown (.assert "Block number ${block_num} not contained in block database")] :=
  (answers_as_archive _ (by decide +kernel) (by decide +kernel)).trans (by decide +kernel)

/-! ## After a crash -/

/-- **Recovery**: whatever a crash has left in the two files, `last_id` finds the last block that is
whole, and gives up the entries behind it and nothing else, if no entry goes beyond 64 bits. -/
theorem lastId_recovers (hblocks : d.blocks.failed = false)
    (hindex : d.blockNumToPos.failed = false) (hlength : d.blocks.bytes.length < 2 ^ 63)
    (hle : d.count ≤ 2 ^ 32) (hwrap : d.Unwrapped) :
    ∃ d', lastId β d = .ok ((contents β d).top.bind (contents β d).label) d' ∧
      contents β d' = (contents β d).settle ∧ d'.blocks = d.blocks ∧
      d'.blockNumToPos.failed = false := by
  obtain ⟨d', hrun, hsettled⟩ := lastIndexEntry_eq (β := β) hblocks hindex hlength hle hwrap
  refine ⟨d', ?_, hsettled.contents, hsettled.blocks, by rw [hsettled.failed, hindex]⟩
  rw [lastId, bind_eq_of_ok hrun]
  cases htop : (contents β d).top with
  | none => rfl
  | some m =>
      rw [Option.bind_some, label_top htop]
      rfl

/-- The files after block three was written half: its entry is there, but not all of the block. -/
def FileSample.torn : BlockDatabase where
  blocks := { bytes := BlockFormat.pack FileSample.first ++ [8, 0, 0] }
  blockNumToPos :=
    { bytes := ({} : IndexEntry).toBytes ++
        IndexEntry.toBytes { blockSize := 21, blockId := FileSample.first.id } ++
        ({} : IndexEntry).toBytes ++
        IndexEntry.toBytes { blockPos := 21, blockSize := 21, blockId := FileSample.third.id } }

open FileSample in
theorem lastId_recovers_torn : ∃ d', lastId Leaf torn = .ok (some first.id) d' ∧ d'.count = 2 := by
  have hwrap : torn.Unwrapped := by
    unfold Unwrapped
    decide +kernel
  obtain ⟨d', hrun, hcontents, _, _⟩ := lastId_recovers (β := Leaf) (d := torn) rfl rfl
    (by decide +kernel) (by decide +kernel) hwrap
  refine ⟨d', hrun.trans ?_, ?_⟩
  · have hlabel : (contents Leaf torn).top.bind (contents Leaf torn).label = some first.id := by
      decide +kernel
    rw [hlabel]
  · have hsize : (contents Leaf torn).settle.size = 2 := by decide +kernel
    rw [← hcontents] at hsize
    exact hsize

omit [LawfulBlockFormat β] in
/-- A stream that has failed yields no block any more, whatever entry is asked for. -/
theorem accepts_eq_of_failed {blocksSize : Nat} (h : d.blocks.failed = true) :
    accepts β blocksSize e d = .ok false d := by
  have hread : onBlocks (FileStream.read e.blockPos.toNat e.blockSize.toNat) d =
      .error FileStream.failure d := by
    refine focus_eq_of_error ?_
    rw [FileStream.read, h, if_pos rfl]
  unfold accepts
  split
  · refine (tryCatch_eq_of_error (e := FileStream.failure) ?_).trans rfl
    exact bind_eq_of_error (bind_eq_of_error hread)
  · rfl

omit [LawfulBlockFormat β] in
theorem lastEntryBelow_eq_of_failed (blocksSize : Nat) (hblocks : d.blocks.failed = true)
    (hindex : d.blockNumToPos.failed = false) (hn : d.count = n) (hle : n ≤ 2 ^ 32) :
    ∃ d', lastEntryBelow β blocksSize n d = .ok none d' ∧ d'.blocks = d.blocks ∧ d'.count = 0 := by
  induction n generalizing d with
  | zero => exact ⟨d, rfl, rfl, hn⟩
  | succ n ih =>
      obtain ⟨d', hrun, hsame, hcount⟩ := ih (d := d.trim n) hblocks hindex
        (count_trim (by omega)) (by omega)
      refine ⟨d', ?_, hsame, hcount⟩
      rw [lastEntryBelow, bind_eq_of_ok (readEntry_eq hindex (by omega) (by omega)),
        bind_eq_of_ok (accepts_eq_of_failed hblocks)]
      have hresize : onIndex (FileStream.resize (INDEX_ENTRY_SIZE * n)) d = .ok () (d.trim n) := rfl
      show (onIndex (FileStream.resize (INDEX_ENTRY_SIZE * n)) >>= fun _ =>
        lastEntryBelow β blocksSize n) d = _
      rw [bind_eq_of_ok hresize]
      exact hrun

omit [LawfulBlockFormat β] in
/-- An entry that goes beyond 64 bits, and passes for one that does not, breaks the stream. -/
theorem accepts_eq_of_wrapped {blocksSize : Nat} (hgood : d.blocks.failed = false)
    (hpos : 0 < e.blockSize) (hwrap : 2 ^ 64 ≤ e.blockPos.toNat + e.blockSize.toNat)
    (hle : e.blockPos.toNat + e.blockSize.toNat - 2 ^ 64 ≤ blocksSize) :
    accepts β blocksSize e d = .ok false { d with blocks := { d.blocks with failed := true } } := by
  have hsizeLt := e.blockSize.toNat_lt
  have hposLt := e.blockPos.toNat_lt
  have hsum : (e.blockPos + e.blockSize.toUInt64).toNat ≤ blocksSize := by
    rw [UInt64.toNat_add, UInt32.toNat_toUInt64, Nat.mod_eq_sub_mod hwrap,
      Nat.mod_eq_of_lt (by omega)]
    exact hle
  have hread : onBlocks (FileStream.read e.blockPos.toNat e.blockSize.toNat) d =
      .error FileStream.failure { d with blocks := { d.blocks with failed := true } } := by
    refine focus_eq_of_error ?_
    rw [FileStream.read, hgood, if_neg (by decide), dif_neg fun hfits => by have := hfits.1; omega]
  unfold accepts
  rw [if_pos ⟨hpos, hsum⟩]
  refine (tryCatch_eq_of_error (e := FileStream.failure) ?_).trans rfl
  exact bind_eq_of_error (bind_eq_of_error hread)

omit [LawfulBlockFormat β] in
/-- **Without that bound recovery loses everything**: if the last entry goes beyond 64 bits and the
sum wraps to a position in the file, `last_id` finds no block and empties the index, whole blocks or
not. -/
theorem lastId_forgets (hblocks : d.blocks.failed = false)
    (hindex : d.blockNumToPos.failed = false) (hn : d.count = n + 1) (hle : d.count ≤ 2 ^ 32)
    (hpos : 0 < (d.entryAt n).blockSize)
    (hwrap : 2 ^ 64 ≤ (d.entryAt n).blockPos.toNat + (d.entryAt n).blockSize.toNat)
    (hfits : (d.entryAt n).blockPos.toNat + (d.entryAt n).blockSize.toNat - 2 ^ 64 ≤
      d.blocks.bytes.length) :
    ∃ d', lastId β d = .ok none d' ∧ d'.count = 0 ∧ d'.blocks.bytes = d.blocks.bytes := by
  let broken : BlockDatabase := { d with blocks := { d.blocks with failed := true } }
  obtain ⟨d', hrun, hsame, hcount⟩ := lastEntryBelow_eq_of_failed (β := β) (n := n)
    d.blocks.bytes.length (d := broken.trim n) rfl hindex
    (count_trim (by show n ≤ d.count; omega)) (by omega)
  refine ⟨d', ?_, hcount, by rw [hsame]; rfl⟩
  have hsize : onBlocks FileStream.size d = .ok d.blocks.bytes.length d :=
    focus_eq_of_ok (size_eq hblocks)
  have hbig : ¬ d.blockNumToPos.bytes.length < INDEX_ENTRY_SIZE := by
    unfold count INDEX_ENTRY_SIZE at *
    omega
  have hbelow : lastEntryBelow β d.blocks.bytes.length (n + 1) d = .ok none d' := by
    rw [lastEntryBelow, bind_eq_of_ok (readEntry_eq hindex (by omega) (by omega)),
      bind_eq_of_ok (accepts_eq_of_wrapped hblocks hpos hwrap hfits)]
    have hresize : onIndex (FileStream.resize (INDEX_ENTRY_SIZE * n)) broken =
        .ok () (broken.trim n) := rfl
    show (onIndex (FileStream.resize (INDEX_ENTRY_SIZE * n)) >>= fun _ =>
      lastEntryBelow β d.blocks.bytes.length n) broken = _
    rw [bind_eq_of_ok hresize]
    exact hrun
  have hlast : lastIndexEntry β d = .ok none d' := by
    refine tryCatch_eq_of_ok ?_
    rw [bind_eq_of_ok (indexSize_eq hindex), if_neg hbig, bind_eq_of_ok hsize]
    have hdiv : d.blockNumToPos.bytes.length / INDEX_ENTRY_SIZE = n + 1 := hn
    rw [hdiv]
    exact hbelow
  rw [lastId, bind_eq_of_ok hlast]
  rfl

/-- The same files with an entry that reaches around to the beginning. -/
def FileSample.wrapped : BlockDatabase where
  blocks := torn.blocks
  blockNumToPos :=
    { bytes := ({} : IndexEntry).toBytes ++
        IndexEntry.toBytes { blockSize := 21, blockId := FileSample.first.id } ++
        ({} : IndexEntry).toBytes ++
        IndexEntry.toBytes
          { blockPos := .ofNat (2 ^ 64 - 16), blockSize := 21, blockId := FileSample.third.id } }

open FileSample in
/-- Block one was whole, and yet the search behind a wrapped entry does not find it. -/
theorem lastId_forgets_first : (contents Leaf wrapped).document 1 = some first ∧
    ∃ d', lastId Leaf wrapped = .ok none d' ∧ d'.count = 0 ∧
      d'.blocks.bytes = wrapped.blocks.bytes :=
  ⟨by decide +kernel, lastId_forgets (n := 3) rfl rfl (by decide +kernel) (by decide +kernel)
    (by decide +kernel) (by decide +kernel) (by decide +kernel)⟩

end BlockDatabase

end BtcmChain
