import BtcmChain.Chain.PushBlock
import BtcmChain.Chain.Run

set_option autoImplicit false
set_option synthInstance.maxSize 10000000
set_option synthInstance.maxHeartbeats 200000

/-!
# Transactions, checkpoints and skip flags

What `_apply_block` does around the operations: a transaction says on which block it builds
and when it expires, its id is kept until then so that it is not applied twice, and the id of
each block is kept in one of 65536 summaries. Which of the checks are made is decided by the
skip flags; `apply_block` replaces them up to the last checkpoint.

The objects of `Chain.Database` are one part of the state here, and its programs run on that
part (`onDb`). Hashes and recovered keys come from a parameter, and so does the verdict on the
signatures of a transaction; `Sound.SignedTransactions` makes it the verifier of `Chain.SignState`.
Block sizes, bandwidth and the versions witnesses report stay left out: they are checked under all
flags alike.
-/

namespace BtcmChain

/-! ## Transactions and blocks -/

/-- `transaction_id_type`, the hash that stands for a transaction. -/
abbrev TransactionId := Nat

/-- `struct transaction`: a reference block, an expiration time and operations. -/
structure Transaction where
  refBlockNum : UInt16 := 0
  refBlockPrefix : UInt32 := 0
  expiration : TimePointSec
  operations : List Operation := []

/-- `struct signed_transaction`: a transaction with the signatures it was sent with. -/
structure SignedTransaction extends Transaction where
  signatures : List Nat := []

/-- `signed_block`, less the id of its parent: producer, time, transactions, and what the header
says of them. -/
structure BlockContents where
  witness : String
  timestamp : TimePointSec
  transactionMerkleRoot : Nat := 0
  witnessSignature : Nat := 0
  transactions : List SignedTransaction := []

/-- What `Chain.Block` is told of a block: producer, time, and the operations of its transactions.
-/
def BlockContents.signed (b : BlockContents) : SignedBlock where
  witness := b.witness
  timestamp := b.timestamp
  transactions := b.transactions.map fun t => t.operations

/-- Hashing, and what is recovered from signatures; it is not part of the model how. -/
class Cryptography where
  /-- `transaction::id`: the hash of a transaction, without its signatures. -/
  transactionId : Transaction → TransactionId
  /-- `calculate_merkle_root` of the transactions of a block. -/
  merkleRoot : List SignedTransaction → Nat
  /-- `validate_signee`: whether the block is signed with this key. -/
  validateSignee : BlockContents → PublicKey → Bool
  /-- `verify_authority`, with the authorities that it looks up in the state. -/
  verifyAuthority : SignedTransaction → Database → Except Exn Unit

/-- `transaction::id`, which the duplicate check goes by. -/
def Transaction.id [Cryptography] (t : Transaction) : TransactionId := Cryptography.transactionId t

/-! ## Words of an id -/

/-- `fc::endian_reverse_u32`: the four bytes of a number in the other order. -/
def endianReverse (x : UInt32) : UInt32 :=
  UInt32.ofNat (x.toNat % 256 * 2 ^ 24 + x.toNat / 2 ^ 8 % 256 * 2 ^ 16 +
    x.toNat / 2 ^ 16 % 256 * 2 ^ 8 + x.toNat / 2 ^ 24)

theorem toNat_endianReverse (x : UInt32) : (endianReverse x).toNat =
    x.toNat % 256 * 2 ^ 24 + x.toNat / 2 ^ 8 % 256 * 2 ^ 16 +
      x.toNat / 2 ^ 16 % 256 * 2 ^ 8 + x.toNat / 2 ^ 24 := by
  have hx := x.toNat_lt
  rw [endianReverse, UInt32.toNat_ofNat']
  omega

@[simp] theorem endianReverse_endianReverse (x : UInt32) : endianReverse (endianReverse x) = x := by
  have hx := x.toNat_lt
  -- the bytes of a number, the highest first
  have hbytes : ∀ n a b c d : ℕ, a < 256 → b < 256 → c < 256 → d < 256 →
      n = a * 2 ^ 24 + b * 2 ^ 16 + c * 2 ^ 8 + d →
      n % 256 = d ∧ n / 2 ^ 8 % 256 = c ∧ n / 2 ^ 16 % 256 = b ∧ n / 2 ^ 24 = a := by
    omega
  obtain ⟨h0, h1, h2, h3⟩ := hbytes _ _ _ _ _ (by omega) (by omega) (by omega) (by omega)
    (toNat_endianReverse x)
  rw [← UInt32.toNat_inj, toNat_endianReverse, h0, h1, h2, h3]
  omega

/-- `_hash[0]` of a block id: the block number, with its bytes reversed. -/
def BlockId.hash0 (id : BlockId) : UInt32 := endianReverse (UInt32.ofNat id.num)

/-- `_hash[1]` of a block id: the first word of the hash proper. -/
def BlockId.hash1 (id : BlockId) : UInt32 := UInt32.ofNat id.digest

/-- `num_from_id`: the block number that an id says. -/
def BlockId.numFromId (id : BlockId) : UInt32 := endianReverse id.hash0

/-- `set_reference_block`: the transaction refers to this block, by its number and a word of its
hash. -/
def Transaction.setReferenceBlock (t : Transaction) (referenceBlock : BlockId) : Transaction :=
  { t with
    refBlockNum := (endianReverse referenceBlock.hash0).toUInt16
    refBlockPrefix := referenceBlock.hash1 }

/-! ## Skip flags -/

/-- `validation_steps`: which of the checks of blocks and transactions are left out. -/
structure SkipFlags where
  witnessSignature : Bool := false
  transactionSignatures : Bool := false
  transactionDupeCheck : Bool := false
  forkDb : Bool := false
  blockSizeCheck : Bool := false
  taposCheck : Bool := false
  authorityCheck : Bool := false
  merkleCheck : Bool := false
  undoHistoryCheck : Bool := false
  witnessScheduleCheck : Bool := false
  validate : Bool := false
  validateInvariants : Bool := false

/-- `skip_nothing`: all checks are made, as for blocks that come from the network. -/
def skipNothing : SkipFlags := {}

/-- The flags of blocks up to the last checkpoint, which are trusted to be right. -/
def checkpointFlags : SkipFlags where
  witnessSignature := true
  transactionSignatures := true
  transactionDupeCheck := true
  forkDb := true
  blockSizeCheck := true
  taposCheck := true
  authorityCheck := true
  merkleCheck := true
  undoHistoryCheck := true
  witnessScheduleCheck := true
  validate := true
  validateInvariants := true

/-! ## The state -/

/-- `transaction_object`: a transaction that is kept until it expires, with its id. -/
structure TransactionObject where
  trx : SignedTransaction
  trxId : TransactionId

/-- The objects of `Chain.Database`, the transactions that may not come again, and the block
summaries, of which there is one for each 16-bit number from genesis on. -/
structure Objects where
  db : Database
  transactions : ObjectIndex TransactionObject := .empty
  blockSummaries : UInt16 → BlockId := fun _ => BlockId.zero

/-- Programs over all objects, those of the chain and those about transactions and blocks. -/
abbrev ObjectsM := StateT Objects (Except Exn)

/-- Run a program on the objects of `Chain.Database`, and leave the others alone. -/
def onDb {α : Type} (m : DbM α) : ObjectsM α := fun s =>
  (m s.db).map fun r => (r.1, { s with db := r.2 })

theorem runs_onDb {α : Type} {m : DbM α} {s s' : Objects} {a : α} :
    Runs (onDb m) s a s' ↔ ∃ d, Runs m s.db a d ∧ s' = { s with db := d } := by
  simp only [Runs, onDb]
  cases m s.db with
  | error e => simp [Except.map]
  | ok r =>
      obtain ⟨b, d⟩ := r
      simp only [Except.map, Except.ok.injEq, Prod.mk.injEq]
      constructor
      · rintro ⟨rfl, rfl⟩
        exact ⟨d, ⟨rfl, rfl⟩, rfl⟩
      · rintro ⟨d, ⟨rfl, rfl⟩, rfl⟩
        exact ⟨rfl, rfl⟩

/-! ## Transactions -/

section Apply

variable [Externals] [Cryptography]

/-- The block a transaction builds on is on this chain, as far as can be told. -/
def checkTapos (t : Transaction) : ObjectsM Unit := do
  let summary ← reads fun s => s.blockSummaries t.refBlockNum
  ofExcept (fcAssert (t.refBlockPrefix = summary.hash1)
    "trx.ref_block_prefix == tapos_block_summary.block_id._hash[1]")

/-- TaPoS and expiration, from the second block on. The time is that of the head block. -/
def checkTime (skip : SkipFlags) (t : Transaction) : ObjectsM Unit := do
  let head ← reads fun s => s.db.dgpo.headBlockNumber
  whenM (0 < head) do
    whenM (!skip.taposCheck) (checkTapos t)
    let now ← reads fun s => s.db.dgpo.time
    ofExcept (fcAssert (t.expiration.toNat ≤ now.toNat + 3600)
      "trx.expiration <= now + fc::seconds(BTCM_MAX_TIME_UNTIL_EXPIRATION)")
    ofExcept (fcAssert (now < t.expiration) "now < trx.expiration")
    ofExcept (fcAssert (now ≤ t.expiration) "now <= trx.expiration")

/-- Whether an id is among those of the transactions kept. -/
def Objects.knows (s : Objects) (id : TransactionId) : Bool :=
  s.transactions.any fun o => o.trxId = id

/-- `create<transaction_object>`: the transaction is kept; the index by id is unique, so it throws
on a second one. -/
def createTransactionObject (t : SignedTransaction) : ObjectsM Unit := fun s =>
  if s.knows t.id then .error (.assert "Could not create object!")
  else .ok ((), { s with transactions := s.transactions.create ⟨t, t.id⟩ })

/-- `_apply_transaction`, less the bandwidth: the checks, the record of the transaction, and its
operations. -/
def applySignedTransaction (skip : SkipFlags) (t : SignedTransaction) : ObjectsM Unit := do
  whenM (!skip.validate) (ofExcept do
    fcAssert (!t.operations.isEmpty) "A transaction must have at least one operation"
    validateAll t.operations)
  let known ← reads fun s => s.knows t.id
  ofExcept (fcAssert (skip.transactionDupeCheck || !known)
    "trx_idx.indices().get<by_trx_id>().find(trx_id) == trx_idx.indices().get<by_trx_id>().end()")
  let authorized ← reads fun s => Cryptography.verifyAuthority t s.db
  whenM (!(skip.transactionSignatures || skip.authorityCheck)) (ofExcept authorized)
  checkTime skip t.toTransaction
  whenM (!skip.transactionDupeCheck) (createTransactionObject t)
  onDb (t.operations.forM (applyOperation BTCM_MAX_PROPOSAL_NESTING))

/-! ## Blocks -/

/-- `validate_block_header`, behind the check of the parent: the time, the signature and the
producer. -/
def validateBlockHeader (skip : SkipFlags) (b : BlockContents) : DbM Unit := do
  let now ← headBlockTime
  require (now < b.timestamp) "head_block_time() < next_block.timestamp"
  let witness ← getWitness b.witness
  whenM (!skip.witnessSignature) (require (Cryptography.validateSignee b witness.val.signingKey)
    "next_block.validate_signee( witness.signing_key )")
  whenM (!skip.witnessScheduleCheck) do
    let slot ← reads fun s => s.slotAtTime b.timestamp
    require (0 < slot) "slot_num > 0"
    let scheduled ← getScheduledWitness slot
    require (witness.val.owner = scheduled) "Witness produced block at wrong time"

/-- `updateGlobalDynamicData` under skip flags, which may allow more blocks to be undone. -/
def updateGlobalDynamicDataUnder (skip : SkipFlags) (producer : String) (timestamp : TimePointSec) :
    DbM Unit := do
  let slot ← reads fun s => s.slotAtTime timestamp
  require (slot ≠ 0) "missed_blocks != 0"
  (List.range (slot.toNat - 1)).forM fun i => missSlot producer (i + 1)
  let head ← reads fun s => s.dgpo.headBlockNumber
  setClock (head + 1) timestamp
  modifyParams fun p => { p with currentAslot := p.currentAslot + slot.toUInt64 }
  whenM (!skip.undoHistoryCheck) do
    let reversible ← reads fun s => s.dgpo.headBlockNumber - s.dgpo.lastIrreversibleBlockNum
    require (reversible < BTCM_MAX_UNDO_HISTORY)
      "Please add a checkpoint if you would like to continue applying blocks beyond this point."

/-- `create_block_summary`: the id of the block is put at the place of its number, of which there
are 65536. -/
def createBlockSummary (id : BlockId) : ObjectsM Unit := fun s =>
  .ok ((), { s with
    blockSummaries := Function.update s.blockSummaries (id.numFromId &&& 0xffff).toUInt16 id })

/-- The loop of `clear_expired_transactions`, at most so many rounds, each of which removes a
transaction. -/
def clearExpired (now : TimePointSec) : Nat → ObjectIndex TransactionObject →
    ObjectIndex TransactionObject
  | 0, ix => ix
  | n + 1, ix =>
      match firstBy (·.trx.expiration.toNat) ix.entries with
      | none => ix
      | some e => if e.val.trx.expiration < now then clearExpired now n (ix.remove e.id) else ix

/-- `clear_expired_transactions`: transactions that have expired are no longer kept. -/
def clearExpiredTransactions : ObjectsM Unit := fun s =>
  .ok ((), { s with
    transactions := clearExpired s.db.dgpo.time s.transactions.entries.length s.transactions })

/-- `_apply_block`, behind the check of the parent: the root, the header, the transactions and the
rest. -/
def applyContents (skip : SkipFlags) (id : BlockId) (b : BlockContents) : ObjectsM Unit := do
  ofExcept (fcAssert (skip.merkleCheck ||
    b.transactionMerkleRoot = Cryptography.merkleRoot b.transactions) "mysterious place...")
  onDb do
    validateBlockHeader skip b
    modifyParams fun p => { p with currentWitness := b.witness }
  b.transactions.forM (applySignedTransaction skip)
  onDb do
    updateGlobalDynamicDataUnder skip b.witness b.timestamp
    updateSigningWitness b.witness b.timestamp
    updateLastIrreversibleBlock
  createBlockSummary id
  clearExpiredTransactions
  onDb do
    clearExpiredProposals
    settleBlock
    accountRecoveryProcessing

end Apply

/-! ## The chain -/

/-- What is in a block of the chain, besides its id and that of its parent. -/
class HasContents (β : Type) where
  contents : β → BlockContents

section Chain

variable {β : Type} [ChainBlock β] [HasContents β]

/-- The flags `apply_block` applies a block with: those it was given, unless the last checkpoint
is still ahead. -/
def checkpointed (checkpoints : FlatMap Nat BlockId) (skip : SkipFlags) (b : β) :
    Except Exn SkipFlags :=
  match checkpoints.entries.getLast? with
  | none => .ok skip
  | some last =>
      if last.2 = BlockId.zero then .ok skip
      else do
        (checkpoints.find? (blockNum b)).elim (.ok ()) fun id =>
          fcAssert (blockId b = id) "Block did not match checkpoint"
        return if blockNum b ≤ last.1 then checkpointFlags else skip

variable [Externals] [Cryptography]

/-- `apply_block`, where `flags` says with which flags, or that a checkpoint is missed. -/
def applyBlockUnder (flags : β → Except Exn SkipFlags) (b : β) (s : ChainState Objects) :
    Except Exn (ChainState Objects) := do
  let skip ← flags b
  if s.headId = previous b then do
    let r ← applyContents skip (blockId b) (HasContents.contents b) s.rest
    return ⟨blockId b, r.2⟩
  else .error (.assert "head_block_id() == next_block.previous")

/-- The objects before the first block, over the state that genesis has made. -/
def ChainState.start (d : Database) : ChainState Objects := ⟨.zero, { db := d }⟩

/-- `bs` is a chain of blocks on genesis, and this is the state behind it. -/
inductive Chained (flags : β → Except Exn SkipFlags) (g : GenesisState) :
    List β → ChainState Objects → Prop
  | start {d : Database} : Runs (initGenesis g) {} () d → Chained flags g [] (.start d)
  | block {bs : List β} {b : β} {s t : ChainState Objects} : Chained flags g bs s →
      applyBlockUnder flags b s = .ok t → Chained flags g (bs ++ [b]) t

end Chain

/-- How a node applies blocks: with which flags, and what it sets the maximal sizes of the undo
and of the fork database to on the way. -/
class BlockPolicy (β : Type) where
  flags : β → Except Exn SkipFlags
  undoSize : β → Objects → Option Nat
  forkSize : β → Objects → Option Nat

section Node

variable {β : Type} [ChainBlock β] [HasContents β] [Externals] [Cryptography] [BlockPolicy β]

instance : BlockCode β Objects where
  body b s :=
    { undoSize := BlockPolicy.undoSize b s
      forkSize := BlockPolicy.forkSize b s
      outcome := do
        let skip ← BlockPolicy.flags b
        let r ← applyContents skip (blockId b) (HasContents.contents b) s
        return r.2 }

theorem apply_ok_iff {b : β} {s t : ChainState Objects} :
    (s.apply b).outcome = .ok t ↔ applyBlockUnder BlockPolicy.flags b s = .ok t := by
  unfold ChainState.apply applyBlockUnder
  split
  case isTrue =>
    show (fun rest => ChainState.mk (blockId b) rest) <$> (do
      let skip ← BlockPolicy.flags b
      let r ← applyContents skip (blockId b) (HasContents.contents b) s.rest
      return r.2 : Except Exn Objects) = _ ↔ _
    simp only [except_map_ok, except_bind_ok, except_pure_ok]
    constructor
    · rintro ⟨rest, ⟨skip, hskip, r, hr, rfl⟩, rfl⟩
      exact ⟨skip, hskip, r, hr, rfl⟩
    · rintro ⟨skip, hskip, r, hr, rfl⟩
      exact ⟨r.2, ⟨skip, hskip, r, hr, rfl⟩, rfl⟩
  case isFalse =>
    simp only [except_bind_ok]
    constructor
    · intro h
      cases h
    · rintro ⟨skip, -, h⟩
      cases h

end Node

/-! ## Inversion -/

section Inversion

variable [Externals] [Cryptography] {s s' : Objects}

/-- A transaction is applied: what was checked, and what has changed. -/
theorem runs_applySignedTransaction {skip : SkipFlags} {t : SignedTransaction} :
    Runs (applySignedTransaction skip t) s () s' ↔
      (skip.validate = false → t.operations ≠ [] ∧ validateAll t.operations = .ok ()) ∧
      (skip.transactionDupeCheck = false → s.knows t.id = false) ∧
      ((skip.transactionSignatures || skip.authorityCheck) = false →
        Cryptography.verifyAuthority t s.db = .ok ()) ∧
      (0 < s.db.dgpo.headBlockNumber →
        (skip.taposCheck = false → t.refBlockPrefix = (s.blockSummaries t.refBlockNum).hash1) ∧
        t.expiration.toNat ≤ s.db.dgpo.time.toNat + 3600 ∧ s.db.dgpo.time < t.expiration) ∧
      ∃ d, Runs (t.operations.forM (applyOperation BTCM_MAX_PROPOSAL_NESTING)) s.db () d ∧
        s' = { s with
          db := d
          transactions := if skip.transactionDupeCheck then s.transactions
            else s.transactions.create ⟨t, t.id⟩ } := by
  -- the check of the times and of the reference block changes nothing
  have htime {u : Objects} : Runs (checkTime skip t.toTransaction) s () u ↔ u = s ∧
      (0 < s.db.dgpo.headBlockNumber →
        (skip.taposCheck = false → t.refBlockPrefix = (s.blockSummaries t.refBlockNum).hash1) ∧
        t.expiration.toNat ≤ s.db.dgpo.time.toNat + 3600 ∧ s.db.dgpo.time < t.expiration) := by
    simp only [checkTime, runs_bind_reads, runs_whenM, decide_eq_true_eq, decide_eq_false_iff_not]
    constructor
    · rintro (⟨hhead, h⟩ | ⟨hhead, rfl⟩)
      · obtain ⟨_, v, htapos, h⟩ := runs_bind.mp h
        simp only [checkTapos, runs_whenM, runs_bind_reads, runs_ofExcept, fcAssert_ok,
          Bool.not_eq_true', Bool.not_eq_false', decide_eq_true_eq] at htapos
        simp only [runs_bind_reads, runs_bind_ofExcept, runs_ofExcept, fcAssert_ok,
          decide_eq_true_eq] at h
        obtain ⟨_, hsoon, _, hlater, -, rfl⟩ := h
        rcases htapos with ⟨hskip, hprefix, rfl⟩ | ⟨hskip, rfl⟩
        · exact ⟨rfl, fun _ => ⟨fun _ => hprefix, hsoon, hlater⟩⟩
        · exact ⟨rfl, fun _ => ⟨fun h => absurd (hskip.symm.trans h) (by decide), hsoon, hlater⟩⟩
      · exact ⟨rfl, fun h => absurd h hhead⟩
    · rintro ⟨rfl, h⟩
      by_cases hhead : 0 < u.db.dgpo.headBlockNumber
      · obtain ⟨htapos, hsoon, hlater⟩ := h hhead
        refine Or.inl ⟨hhead, runs_bind.mpr ⟨(), u, ?_, ?_⟩⟩
        · cases hskip : skip.taposCheck with
          | true => exact runs_whenM.mpr (Or.inr ⟨rfl, rfl⟩)
          | false =>
              refine runs_whenM.mpr (Or.inl ⟨rfl, ?_⟩)
              simp only [checkTapos, runs_bind_reads, runs_ofExcept, fcAssert_ok, decide_eq_true_eq]
              exact ⟨htapos hskip, trivial⟩
        · simp only [runs_bind_reads, runs_bind_ofExcept, runs_ofExcept, fcAssert_ok,
            decide_eq_true_eq]
          exact ⟨(), hsoon, (), hlater, UInt32.le_of_lt hlater, trivial⟩
      · exact Or.inr ⟨hhead, rfl⟩
  -- the id was checked before, so noting it does not fail
  have hcreate {u v : Objects} (hu : skip.transactionDupeCheck = false → u.knows t.id = false) :
      Runs (whenM (!skip.transactionDupeCheck) (createTransactionObject t)) u () v ↔
        v = { u with transactions := if skip.transactionDupeCheck then u.transactions
            else u.transactions.create ⟨t, t.id⟩ } := by
    cases hskip : skip.transactionDupeCheck with
    | true => simp [whenM, runs_pure]
    | false => simp [whenM, createTransactionObject, Runs, hu hskip, eq_comm]
  simp only [applySignedTransaction, runs_bind_whenM_ofExcept, runs_bind_reads, runs_bind_ofExcept,
    Bool.not_eq_true', fcAssert_ok, except_bind_ok]
  constructor
  · rintro ⟨hvalid, _, hknown, hauth, h⟩
    obtain ⟨_, u, hu, hrest⟩ := runs_bind.mp h
    obtain ⟨rfl, hchecked⟩ := htime.mp hu
    have hnew : skip.transactionDupeCheck = false → u.knows t.id = false := by
      intro hskip
      simpa [hskip] using hknown
    obtain ⟨_, v, hv, hops⟩ := runs_bind.mp hrest
    obtain rfl := (hcreate hnew).mp hv
    obtain ⟨d, hd, rfl⟩ := runs_onDb.mp hops
    refine ⟨fun hskip => ?_, hnew, hauth, hchecked, d, hd, rfl⟩
    obtain ⟨_, hne, hall⟩ := hvalid hskip
    exact ⟨by simpa using hne, hall⟩
  · rintro ⟨hvalid, hnew, hauth, hchecked, d, hd, rfl⟩
    refine ⟨fun hskip => ⟨(), by simpa using (hvalid hskip).1, (hvalid hskip).2⟩, (), ?_, hauth, ?_⟩
    · cases hskip : skip.transactionDupeCheck with
      | true => rfl
      | false => simp [hnew hskip]
    · refine runs_bind.mpr ⟨(), s, htime.mpr ⟨rfl, hchecked⟩, ?_⟩
      refine runs_bind.mpr ⟨(), _, (hcreate hnew).mpr rfl, ?_⟩
      exact runs_onDb.mpr ⟨d, hd, rfl⟩

end Inversion

end BtcmChain
