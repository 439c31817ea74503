import BtcmChain.Sound.Duplicates

set_option autoImplicit false
set_option synthInstance.maxSize 10000000
set_option synthInstance.maxHeartbeats 200000

/-!
# A node with checkpoints next to one without

A check that is skipped changes nothing but that a block may be rejected. The one flag that
leaves a trace is `skip_transaction_dupe_check`: no ids are kept up to the last checkpoint. So
the node with checkpoints lacks the first records of the other one and has all of the later
ones (`Mirrors`), and until a transaction comes again that only the other one remembers, the two
accept the same blocks.
-/

namespace BtcmChain

/-! ## Skipping -/

section Skipping

variable [Cryptography] {d d' : Database} {skip : SkipFlags} {b : BlockContents}

/-- The header of a block passes with fewer checks too, and to the same effect. -/
theorem header_skip (h : Runs (do
      validateBlockHeader skipNothing b
      modifyParams fun p => { p with currentWitness := b.witness }) d () d') :
    Runs (do
      validateBlockHeader skip b
      modifyParams fun p => { p with currentWitness := b.witness }) d () d' := by
  obtain ⟨_, t, h1, h2⟩ := runs_bind.mp h
  refine runs_bind.mpr ⟨(), t, ?_, h2⟩
  simp only [validateBlockHeader, runs_bind_headBlockTime, runs_bind_require, getWitness,
    runs_bind_getBy] at h1 ⊢
  obtain ⟨hlater, w, hw, h1⟩ := h1
  obtain ⟨_, t1, hsigned, hturn⟩ := runs_bind.mp h1
  have hsame : t1 = d := by
    simp only [whenM, skipNothing, Bool.not_false, if_true, runs_require] at hsigned
    exact hsigned.2
  have hstill : t = t1 := by
    simp only [whenM, skipNothing, Bool.not_false, if_true, runs_bind_reads,
      runs_bind_require] at hturn
    obtain ⟨scheduled, t2, hsched, hturn⟩ := runs_bind.mp hturn.2
    have ht2 : t2 = t1 := Respects.rel (R := Fixing id) hsched
    exact (runs_require.mp hturn).2.trans ht2
  refine ⟨hlater, w, hw, runs_bind.mpr ⟨(), t1, ?_, ?_⟩⟩
  · cases hs : skip.witnessSignature with
    | true => exact runs_whenM.mpr (Or.inr ⟨rfl, hsame⟩)
    | false => exact hsigned
  · cases hs : skip.witnessScheduleCheck with
    | true => exact runs_whenM.mpr (Or.inr ⟨rfl, hstill⟩)
    | false => exact hturn

omit [Cryptography] in
/-- The clock moves without the check of the undo history, too. -/
theorem clock_skip {p : String} {time : TimePointSec}
    (h : Runs (updateGlobalDynamicDataUnder skipNothing p time) d () d') :
    Runs (updateGlobalDynamicDataUnder skip p time) d () d' := by
  simp only [updateGlobalDynamicDataUnder, runs_bind_reads, runs_bind_require] at h ⊢
  obtain ⟨hslot, h⟩ := h
  obtain ⟨_, t1, h1, h⟩ := runs_bind.mp h
  rw [runs_bind_reads] at h
  obtain ⟨_, t2, h2, h⟩ := runs_bind.mp h
  obtain ⟨_, t3, h3, h4⟩ := runs_bind.mp h
  refine ⟨hslot, runs_bind.mpr ⟨(), t1, h1, ?_⟩⟩
  rw [runs_bind_reads]
  refine runs_bind.mpr ⟨(), t2, h2, runs_bind.mpr ⟨(), t3, h3, ?_⟩⟩
  cases hs : skip.undoHistoryCheck with
  | true =>
      simp only [whenM, skipNothing, Bool.not_false, if_true, runs_bind_reads, runs_require] at h4
      exact runs_whenM.mpr (Or.inr ⟨rfl, h4.2⟩)
  | false => exact h4

end Skipping

/-! ## Two nodes -/

section Mirrors

variable [Externals] [Cryptography] {m : ℕ} {s s' u u' : Objects} {t : SignedTransaction}
  {id : BlockId} {b : BlockContents}

/-- `u` is `s` without its first `m` records, and counts the others from zero. -/
structure Mirrors (m : ℕ) (s u : Objects) : Prop where
  db : u.db = s.db
  blockSummaries : u.blockSummaries = s.blockSummaries
  find : ∀ k, u.transactions.find? k = s.transactions.find? (m + k)
  next : s.transactions.nextId = m + u.transactions.nextId

/-- None of the records that `u` lacks has the id of the transaction. -/
def NotStale (m : ℕ) (s : Objects) (t : Transaction) : Prop :=
  ∀ k o, k < m → s.transactions.find? k = some o → o.trxId ≠ t.id

omit [Externals] in
theorem knows_iff : s.knows t.id = true ↔ ∃ k o, s.transactions.find? k = some o ∧ o.trxId = t.id := by
  rw [Objects.knows, ObjectIndex.any, Option.isSome_iff_exists]
  constructor
  · rintro ⟨e, he⟩
    obtain ⟨hfind, hid⟩ := ObjectIndex.find?_of_findBy? (k := e.1) (a := e.2) he
    exact ⟨e.1, e.2, hfind, of_decide_eq_true hid⟩
  · rintro ⟨k, o, hfind, hid⟩
    rw [← Option.isSome_iff_exists, Option.isSome_iff_ne_none]
    intro hnone
    have hne := ObjectIndex.findBy?_eq_none.mp hnone k o hfind
    exact absurd hid (of_decide_eq_false hne)

omit [Externals] in
/-- What the second node knows of transactions, the first one knows. -/
theorem Mirrors.knows_of (h : Mirrors m s u) (hu : u.knows t.id = true) : s.knows t.id = true := by
  obtain ⟨k, o, hfind, hid⟩ := knows_iff.mp hu
  rw [h.find] at hfind
  exact knows_iff.mpr ⟨m + k, o, hfind, hid⟩

omit [Externals] in
/-- And they know the same of what is not among the first records. -/
theorem Mirrors.knows_eq (h : Mirrors m s u) (ht : NotStale m s t.toTransaction) :
    u.knows t.id = s.knows t.id := by
  refine Bool.eq_iff_iff.mpr ⟨h.knows_of, fun hs => ?_⟩
  obtain ⟨k, o, hfind, hid⟩ := knows_iff.mp hs
  by_cases hk : k < m
  · exact absurd hid (ht k o hk hfind)
  · obtain ⟨j, rfl⟩ := Nat.exists_eq_add_of_le (not_lt.mp hk)
    rw [← h.find] at hfind
    exact knows_iff.mpr ⟨j, o, hfind, hid⟩

omit [Externals] [Cryptography] in
/-- When both nodes record a transaction, the second still mirrors the first. -/
theorem Mirrors.create (h : Mirrors m s u) (d : Database) (o : TransactionObject) :
    Mirrors m { s with db := d, transactions := s.transactions.create o }
      { u with db := d, transactions := u.transactions.create o } := by
  refine ⟨rfl, h.blockSummaries, fun k => ?_, ?_⟩
  · show (u.transactions.create o).find? k = (s.transactions.create o).find? (m + k)
    rw [ObjectIndex.find?_create, ObjectIndex.find?_create, h.next, h.find]
    simp only [Nat.add_left_cancel_iff]
  · show s.transactions.nextId + 1 = m + (u.transactions.nextId + 1)
    rw [h.next, Nat.add_assoc]

/-- A transaction the first node accepts, the second one accepts. -/
theorem Mirrors.apply (h : Mirrors m s u)
    (hr : Runs (applySignedTransaction skipNothing t) s () s') :
    ∃ u', Runs (applySignedTransaction skipNothing t) u () u' ∧ Mirrors m s' u' := by
  obtain ⟨hvalid, hnew, hauth, htime, d, hd, rfl⟩ := runs_applySignedTransaction.mp hr
  refine ⟨_, runs_applySignedTransaction.mpr ⟨hvalid, fun hskip => ?_, ?_, ?_, d, ?_, rfl⟩,
    h.create d _⟩
  · refine Bool.eq_false_iff.mpr fun hu => ?_
    exact absurd ((h.knows_of hu).symm.trans (hnew hskip)) (by decide)
  · rw [h.db]
    exact hauth
  · rw [h.db, h.blockSummaries]
    exact htime
  · rw [h.db]
    exact hd

/-- And the other way round, unless it is one that only the first node remembers. -/
theorem Mirrors.apply_of (h : Mirrors m s u) (ht : NotStale m s t.toTransaction)
    (hr : Runs (applySignedTransaction skipNothing t) u () u') :
    ∃ s', Runs (applySignedTransaction skipNothing t) s () s' ∧ Mirrors m s' u' ∧
      ∀ k < m, s'.transactions.find? k = s.transactions.find? k := by
  obtain ⟨hvalid, hnew, hauth, htime, d, hd, rfl⟩ := runs_applySignedTransaction.mp hr
  refine ⟨_, runs_applySignedTransaction.mpr ⟨hvalid, fun hskip => ?_, ?_, ?_, d, ?_, rfl⟩,
    h.create d _, fun k hk => ?_⟩
  · rw [← h.knows_eq ht]
    exact hnew hskip
  · rw [← h.db]
    exact hauth
  · rw [← h.db, ← h.blockSummaries]
    exact htime
  · rw [← h.db]
    exact hd
  · show (s.transactions.create _).find? k = _
    rw [ObjectIndex.find?_create, if_neg]
    rw [h.next]
    omega

theorem Mirrors.applyAll {l : List SignedTransaction} (h : Mirrors m s u)
    (hr : Runs (l.forM (applySignedTransaction skipNothing)) s () s') :
    ∃ u', Runs (l.forM (applySignedTransaction skipNothing)) u () u' ∧ Mirrors m s' u' := by
  induction l generalizing s u with
  | nil =>
      obtain ⟨-, rfl⟩ := runs_pure.mp hr
      exact ⟨u, runs_pure.mpr ⟨rfl, rfl⟩, h⟩
  | cons t l ih =>
      obtain ⟨_, s1, h1, h2⟩ := runs_bind.mp hr
      obtain ⟨u1, hu1, hone⟩ := h.apply h1
      obtain ⟨u', hu', hall⟩ := ih hone h2
      exact ⟨u', runs_bind.mpr ⟨(), u1, hu1, hu'⟩, hall⟩

theorem Mirrors.applyAll_of {l : List SignedTransaction} (h : Mirrors m s u)
    (hl : ∀ t ∈ l, NotStale m s t.toTransaction)
    (hr : Runs (l.forM (applySignedTransaction skipNothing)) u () u') :
    ∃ s', Runs (l.forM (applySignedTransaction skipNothing)) s () s' ∧ Mirrors m s' u' := by
  induction l generalizing s u with
  | nil =>
      obtain ⟨-, rfl⟩ := runs_pure.mp hr
      exact ⟨s, runs_pure.mpr ⟨rfl, rfl⟩, h⟩
  | cons t l ih =>
      obtain ⟨_, u1, h1, h2⟩ := runs_bind.mp hr
      obtain ⟨s1, hs1, hone, hsame⟩ := h.apply_of (hl t List.mem_cons_self) h1
      have hrest : ∀ t' ∈ l, NotStale m s1 t'.toTransaction := fun t' ht' k o hk hfind =>
        hl t' (List.mem_cons_of_mem t ht') k o hk (hsame k hk ▸ hfind)
      obtain ⟨s', hs', hall⟩ := ih hone hrest h2
      exact ⟨s', runs_bind.mpr ⟨(), s1, hs1, hs'⟩, hall⟩

omit [Externals] [Cryptography] in
@[simp] theorem nextId_clearExpired (now : TimePointSec) (n : Nat)
    (ix : ObjectIndex TransactionObject) : (clearExpired now n ix).nextId = ix.nextId := by
  induction n generalizing ix with
  | zero => rfl
  | succ n ih =>
      rw [clearExpired]
      split
      · rfl
      · split
        · exact ih _
        · rfl

omit [Externals] [Cryptography] in
/-- The end of a block does the same for both nodes, so the second still mirrors the first. -/
theorem Mirrors.finish (h : Mirrors m s u) (now : TimePointSec) (d : Database)
    (place : UInt16) (id : BlockId) :
    Mirrors m
      { db := d
        transactions := clearExpired now s.transactions.entries.length s.transactions
        blockSummaries := Function.update s.blockSummaries place id }
      { db := d
        transactions := clearExpired now u.transactions.entries.length u.transactions
        blockSummaries := Function.update u.blockSummaries place id } where
  db := rfl
  blockSummaries := by rw [h.blockSummaries]
  find k := by
    rw [find?_clearExpired (le_refl _), find?_clearExpired (le_refl _), h.find]
  next := by
    rw [nextId_clearExpired, nextId_clearExpired, h.next]

/-- A block the first node accepts, the second one accepts. -/
theorem Mirrors.block (h : Mirrors m s u) (hr : Runs (applyContents skipNothing id b) s () s') :
    ∃ u', Runs (applyContents skipNothing id b) u () u' ∧ Mirrors m s' u' := by
  obtain ⟨d₁, d₂, d₃, v, hparts⟩ := runs_applyContents.mp hr
  have hstart : Mirrors m { s with db := d₁ } { u with db := d₁ } :=
    ⟨rfl, h.blockSummaries, h.find, h.next⟩
  obtain ⟨w, hw, hvw⟩ := hstart.applyAll hparts.transactions
  have hparts' : Parts skipNothing id b u _ d₁ d₂ d₃ w :=
    { merkle := hparts.merkle
      header := h.db ▸ hparts.header
      transactions := hw
      clock := hvw.db ▸ hparts.clock
      rest := hparts.rest
      state := rfl }
  refine ⟨_, runs_applyContents.mpr ⟨d₁, d₂, d₃, w, hparts'⟩, ?_⟩
  rw [hparts.state]
  exact hvw.finish _ _ _ _

/-- And the other way round, unless it repeats a transaction that only the first node
remembers. -/
theorem Mirrors.block_of (h : Mirrors m s u)
    (hb : ∀ t ∈ b.transactions, NotStale m s t.toTransaction)
    (hr : Runs (applyContents skipNothing id b) u () u') :
    ∃ s', Runs (applyContents skipNothing id b) s () s' ∧ Mirrors m s' u' := by
  obtain ⟨d₁, d₂, d₃, w, hparts⟩ := runs_applyContents.mp hr
  have hstart : Mirrors m { s with db := d₁ } { u with db := d₁ } :=
    ⟨rfl, h.blockSummaries, h.find, h.next⟩
  obtain ⟨v, hv, hvw⟩ := hstart.applyAll_of hb hparts.transactions
  have hparts' : Parts skipNothing id b s _ d₁ d₂ d₃ v :=
    { merkle := hparts.merkle
      header := h.db ▸ hparts.header
      transactions := hv
      clock := hvw.db ▸ hparts.clock
      rest := hparts.rest
      state := rfl }
  refine ⟨_, runs_applyContents.mpr ⟨d₁, d₂, d₃, v, hparts'⟩, ?_⟩
  rw [hparts.state]
  exact hvw.finish _ _ _ _

/-! ## Up to the last checkpoint -/

omit [Externals] [Cryptography] in
/-- A node without any records of transactions mirrors one with the same objects. -/
theorem Mirrors.bare (hdb : u.db = s.db) (hsum : u.blockSummaries = s.blockSummaries)
    (hnone : u.transactions.nextId = 0) : Mirrors s.transactions.nextId s u where
  db := hdb
  blockSummaries := hsum
  find k := by
    have hu : u.transactions.find? k = none := by
      cases hk : u.transactions.find? k with
      | none => rfl
      | some o => exact absurd (u.transactions.bound k o hk) (by omega)
    have hs : s.transactions.find? (s.transactions.nextId + k) = none := by
      cases hk : s.transactions.find? (s.transactions.nextId + k) with
      | none => rfl
      | some o => exact absurd (s.transactions.bound _ o hk) (by omega)
    rw [hu, hs]
  next := by rw [hnone, Nat.add_zero]

/-- A block that the second node applies without any checks. -/
theorem Mirrors.fast (h : Mirrors s.transactions.nextId s u)
    (hr : Runs (applyContents skipNothing id b) s () s') :
    ∃ u', Runs (applyContents checkpointFlags id b) u () u' ∧
      Mirrors s'.transactions.nextId s' u' := by
  have hnone : u.transactions.nextId = 0 := by
    have hnext := h.next
    omega
  obtain ⟨d₁, d₂, d₃, v, hparts⟩ := runs_applyContents.mp hr
  have htrx : ∀ (l : List SignedTransaction) {s v : Objects},
      Runs (l.forM (applySignedTransaction skipNothing)) s () v →
      Runs (l.forM (applySignedTransaction checkpointFlags)) { u with db := s.db } ()
        { u with db := v.db } := by
    intro l
    induction l with
    | nil =>
        intro s v hv
        obtain ⟨-, rfl⟩ := runs_pure.mp hv
        exact runs_pure.mpr ⟨rfl, rfl⟩
    | cons t l ih =>
        intro s v hv
        obtain ⟨_, s1, h1, h2⟩ := runs_bind.mp hv
        refine runs_bind.mpr ⟨(), { u with db := s1.db }, ?_, ih h2⟩
        obtain ⟨-, -, -, htime, d, hd, rfl⟩ := runs_applySignedTransaction.mp h1
        refine runs_applySignedTransaction.mpr ⟨nofun, nofun, nofun,
          fun hhead => ⟨nofun, (htime hhead).2⟩, d, hd, rfl⟩
  have hclock : Runs (do
      updateGlobalDynamicDataUnder checkpointFlags b.witness b.timestamp
      updateSigningWitness b.witness b.timestamp
      updateLastIrreversibleBlock) v.db () d₂ := by
    obtain ⟨_, w, h1, h2⟩ := runs_bind.mp hparts.clock
    exact runs_bind.mpr ⟨(), w, clock_skip h1, h2⟩
  have hparts' : Parts checkpointFlags id b u _ d₁ d₂ d₃ { u with db := v.db } :=
    { merkle := nofun
      header := header_skip (h.db ▸ hparts.header)
      transactions := htrx _ hparts.transactions
      clock := hclock
      rest := hparts.rest
      state := rfl }
  refine ⟨_, runs_applyContents.mpr ⟨d₁, d₂, d₃, _, hparts'⟩, ?_⟩
  have hsum := blockSummaries_transactions hparts.transactions
  refine Mirrors.bare ?_ ?_ ?_
  · rw [hparts.state]
  · rw [hparts.state, hsum, ← h.blockSummaries]
  · show (clearExpired _ _ u.transactions).nextId = 0
    rw [nextId_clearExpired, hnone]

end Mirrors

/-! ## Records by number -/

section Numbered

variable [Externals] [Cryptography] {s s' : Objects} {done : List SignedTransaction}

/-- A record is kept under the number its transaction has in the chain. -/
structure Numbered (done : List SignedTransaction) (s : Objects) : Prop where
  next : s.transactions.nextId = done.length
  held : ∀ k o, s.transactions.find? k = some o → done[k]? = some o.trx

theorem Numbered.applyAll {l : List SignedTransaction} (h : Numbered done s)
    (hr : Runs (l.forM (applySignedTransaction skipNothing)) s () s') : Numbered (done ++ l) s' := by
  induction l generalizing s done with
  | nil =>
      obtain ⟨-, rfl⟩ := runs_pure.mp hr
      rwa [List.append_nil]
  | cons t l ih =>
      obtain ⟨_, u, h1, h2⟩ := runs_bind.mp hr
      obtain ⟨-, -, -, -, d, -, rfl⟩ := runs_applySignedTransaction.mp h1
      rw [List.append_cons]
      refine ih ⟨?_, fun k o hk => ?_⟩ h2
      · show s.transactions.nextId + 1 = _
        rw [h.next, List.length_append]
        rfl
      · have hk : (s.transactions.create ⟨t, t.id⟩).find? k = some o := hk
        rw [ObjectIndex.find?_create, h.next] at hk
        split at hk
        case isTrue heq =>
          obtain rfl := Option.some.inj hk
          rw [heq, List.getElem?_concat_length]
        case isFalse hne =>
          have hdone := h.held k o hk
          rw [List.getElem?_append_left (List.getElem?_eq_some_iff.mp hdone).1, hdone]

theorem Numbered.block {id : BlockId} {b : BlockContents} (h : Numbered done s)
    (hr : Runs (applyContents skipNothing id b) s () s') :
    Numbered (done ++ b.transactions) s' := by
  obtain ⟨d₁, d₂, d₃, u, hparts⟩ := runs_applyContents.mp hr
  have hstart : Numbered done { s with db := d₁ } := ⟨h.next, h.held⟩
  have hall := hstart.applyAll hparts.transactions
  rw [hparts.state]
  refine ⟨?_, fun k o hk => ?_⟩
  · show (clearExpired _ _ u.transactions).nextId = _
    rw [nextId_clearExpired, hall.next]
  · have hk : (clearExpired _ _ u.transactions).find? k = some o := hk
    rw [find?_clearExpired (le_refl _)] at hk
    exact hall.held k o (Option.filter_eq_some_iff.mp hk).1

end Numbered

/-! ## Chains -/

section Chain

variable {β : Type} [ChainBlock β] [HasContents β] {checkpoints : FlatMap Nat BlockId}
  {bs : List β} {b : β}

/-- The number of the last checkpoint, and 0 if there is none. -/
def lastCheckpoint (checkpoints : FlatMap Nat BlockId) : ℕ :=
  checkpoints.entries.getLast?.elim 0 Prod.fst

/-- Every checkpoint is the id of a block of the chain. -/
def ConsistentWith (checkpoints : FlatMap Nat BlockId) (bs : List β) : Prop :=
  ∀ n id, checkpoints.find? n = some id → ∃ b ∈ bs, blockNum b = n ∧ blockId b = id

omit [HasContents β] in
/-- Up to the last checkpoint nothing is checked, behind it everything. -/
theorem checkpointed_eq (h : ConsistentWith checkpoints bs)
    (hb : ∀ id, checkpoints.find? (blockNum b) = some id → blockId b = id) :
    checkpointed checkpoints skipNothing b =
      .ok (if blockNum b ≤ lastCheckpoint checkpoints then checkpointFlags else skipNothing) := by
  unfold checkpointed lastCheckpoint
  cases hlast : checkpoints.entries.getLast? with
  | none =>
      have hpos : ¬ blockNum b ≤ 0 := by
        unfold blockNum
        omega
      exact congrArg Except.ok (if_neg hpos).symm
  | some last =>
      obtain ⟨c, -, -, hid⟩ := h last.1 last.2
        (FlatMap.mem_entries_iff.mp (List.mem_of_getLast? hlast))
      have hne : last.2 ≠ BlockId.zero := by
        rw [← hid]
        exact fun hzero => absurd (congrArg BlockId.num hzero) (Nat.succ_ne_zero _)
      have hmatch : ((checkpoints.find? (blockNum b)).elim (.ok ()) fun id =>
          fcAssert (decide (blockId b = id)) "Block did not match checkpoint") =
            (.ok () : Except Exn Unit) := by
        cases hfind : checkpoints.find? (blockNum b) with
        | none => rfl
        | some id =>
            rw [Option.elim_some, fcAssert_ok]
            exact decide_eq_true (hb id hfind)
      dsimp only [Option.elim_some]
      rw [if_neg hne, hmatch]
      rfl

variable [Externals] [Cryptography] {g : GenesisState} {s : ChainState Objects}

theorem Chained.numbered (h : Chained (fun _ => .ok skipNothing) g bs s) :
    Numbered (transactionsOf bs) s.rest := by
  induction h with
  | start => exact ⟨rfl, fun _ _ hk => by cases hk⟩
  | block _ hb ih =>
      obtain ⟨-, -, skip, hskip, hr⟩ := applyBlockUnder_ok.mp hb
      obtain rfl := Except.ok.inj hskip
      rw [transactionsOf_append, transactionsOf_singleton]
      exact ih.block hr

/-- The transactions of the blocks up to the last checkpoint. -/
def uncheckedTransactions (checkpoints : FlatMap Nat BlockId) (bs : List β) :
    List SignedTransaction :=
  transactionsOf (bs.filter fun b => blockNum b ≤ lastCheckpoint checkpoints)

omit [Externals] [Cryptography] in
/-- Before the last checkpoint no transaction of the chain is checked. -/
theorem uncheckedTransactions_eq (h : ∀ c ∈ bs, blockNum c ≤ lastCheckpoint checkpoints) :
    uncheckedTransactions checkpoints bs = transactionsOf bs := by
  rw [uncheckedTransactions, List.filter_eq_self.mpr fun c hc => decide_eq_true (h c hc)]

/-- The transactions that are not checked are the first ones of the chain. -/
theorem Chained.unchecked_prefix {flags : β → Except Exn SkipFlags}
    (h : Chained flags g bs s) (checkpoints : FlatMap Nat BlockId) :
    uncheckedTransactions checkpoints bs <+: transactionsOf bs := by
  induction h with
  | start => exact List.prefix_refl []
  | @block bs b s t hs hb ih =>
      obtain ⟨hprev, -⟩ := applyBlockUnder_ok.mp hb
      by_cases hle : blockNum b ≤ lastCheckpoint checkpoints
      · -- the blocks before it have smaller numbers
        have hall : ∀ c ∈ bs ++ [b], blockNum c ≤ lastCheckpoint checkpoints := by
          intro c hc
          rcases List.mem_append.mp hc with hc | hc
          · have hnum : blockNum b = s.headId.num + 1 := by rw [blockNum, ← hprev]
            have hc := hs.blockNum_le c hc
            omega
          · rw [List.mem_singleton.mp hc]
            exact hle
        have heq := uncheckedTransactions_eq hall
        exact ⟨[], by rw [heq, List.append_nil]⟩
      · have hsame : uncheckedTransactions checkpoints (bs ++ [b]) =
            uncheckedTransactions checkpoints bs := by
          simp [uncheckedTransactions, hle]
        rw [hsame, transactionsOf_append]
        exact ih.trans (List.prefix_append _ _)

/-- A chain the first node has accepted, the second one accepts, and mirrors it. -/
theorem Chained.mirrored (hcps : ConsistentWith checkpoints bs)
    (h : Chained (fun _ => .ok skipNothing) g bs s) :
    ∃ s', Chained (checkpointed checkpoints skipNothing) g bs s' ∧ s'.headId = s.headId ∧
      Mirrors (uncheckedTransactions checkpoints bs).length s.rest s'.rest := by
  have hmatch : ∀ b ∈ bs, ∀ id, checkpoints.find? (blockNum b) = some id → blockId b = id := by
    intro b hb id hid
    obtain ⟨c, hc, hnum, hcid⟩ := hcps _ _ hid
    rw [h.eq_of_blockNum_eq b hb c hc hnum.symm, hcid]
  have hflags : ∀ b ∈ bs, checkpointed checkpoints skipNothing b =
      .ok (if blockNum b ≤ lastCheckpoint checkpoints then checkpointFlags else skipNothing) :=
    fun b hb => checkpointed_eq hcps (hmatch b hb)
  clear hmatch hcps
  induction h with
  | @start d hd => exact ⟨_, .start hd, rfl, rfl, rfl, fun _ => rfl, rfl⟩
  | @block bs b s t hs hb ih =>
      obtain ⟨u, hu, hid, hmirror⟩ := ih fun c hc => hflags c (List.mem_append_left [b] hc)
      obtain ⟨hprev, hhead, skip, hskip, hr⟩ := applyBlockUnder_ok.mp hb
      obtain rfl := Except.ok.inj hskip
      have hflag := hflags b (List.mem_append_right bs List.mem_cons_self)
      have hnum : blockNum b = bs.length + 1 := by rw [blockNum, ← hprev, hs.num_eq]
      have hlast : ∀ c ∈ bs, blockNum c ≤ bs.length := fun c hc =>
        hs.num_eq ▸ hs.blockNum_le c hc
      by_cases hle : blockNum b ≤ lastCheckpoint checkpoints
      · -- not one of the records is there
        have hbefore : ∀ c ∈ bs, blockNum c ≤ lastCheckpoint checkpoints := fun c hc => by
          have hc := hlast c hc
          omega
        have hold := uncheckedTransactions_eq hbefore
        have hnew : uncheckedTransactions checkpoints (bs ++ [b]) = transactionsOf (bs ++ [b]) := by
          refine uncheckedTransactions_eq fun c hc => ?_
          rcases List.mem_append.mp hc with hc | hc
          · exact hbefore c hc
          · rw [List.mem_singleton.mp hc]
            exact hle
        rw [hold, ← hs.numbered.next] at hmirror
        obtain ⟨v, hv, hdone⟩ := hmirror.fast hr
        refine ⟨⟨blockId b, v⟩, hu.block (applyBlockUnder_ok.mpr ⟨hid.trans hprev, rfl,
          checkpointFlags, ?_, hv⟩), hhead.symm, ?_⟩
        · rw [hflag, if_pos hle]
        · rw [hnew, ← (hs.block hb).numbered.next]
          exact hdone
      · have hsame : uncheckedTransactions checkpoints (bs ++ [b]) =
            uncheckedTransactions checkpoints bs := by
          simp [uncheckedTransactions, hle]
        obtain ⟨v, hv, hdone⟩ := hmirror.block hr
        refine ⟨⟨blockId b, v⟩, hu.block (applyBlockUnder_ok.mpr ⟨hid.trans hprev, rfl,
          skipNothing, ?_, hv⟩), hhead.symm, hsame ▸ hdone⟩
        rw [hflag, if_neg hle]

theorem Chained.lastCheckpoint_le {flags : β → Except Exn SkipFlags} (h : Chained flags g bs s)
    (hcps : ConsistentWith checkpoints bs) : lastCheckpoint checkpoints ≤ s.headId.num := by
  unfold lastCheckpoint
  cases hlast : checkpoints.entries.getLast? with
  | none => exact Nat.zero_le _
  | some last =>
      obtain ⟨c, hc, hnum, -⟩ := hcps last.1 last.2
        (FlatMap.mem_entries_iff.mp (List.mem_of_getLast? hlast))
      rw [Option.elim_some, ← hnum]
      exact h.blockNum_le c hc

/-- Next to a node without checkpoints, a node with checkpoints from the same chain comes to the
same objects, less the records of the transactions up to the last checkpoint. It accepts every
block the first node accepts; and the other way round, unless the block brings one of those
transactions again and the first node still remembers it. -/
theorem checkpoints_agree (h : Chained (fun _ => .ok skipNothing) g bs s)
    (hcps : ConsistentWith checkpoints bs) :
    ∃ s', Chained (checkpointed checkpoints skipNothing) g bs s' ∧ s'.headId = s.headId ∧
      s'.rest.db = s.rest.db ∧ s'.rest.blockSummaries = s.rest.blockSummaries ∧
      (∀ k, s'.rest.transactions.find? k =
        s.rest.transactions.find? ((uncheckedTransactions checkpoints bs).length + k)) ∧
      (∀ k o, k < (uncheckedTransactions checkpoints bs).length →
        s.rest.transactions.find? k = some o →
          (uncheckedTransactions checkpoints bs)[k]? = some o.trx) ∧
      ∀ b : β,
        ((∃ t, applyBlockUnder (fun _ => .ok skipNothing) b s = .ok t) →
          ∃ t', applyBlockUnder (checkpointed checkpoints skipNothing) b s' = .ok t') ∧
        ((∀ t ∈ (HasContents.contents b).transactions,
            NotStale (uncheckedTransactions checkpoints bs).length s.rest t.toTransaction) →
          (∃ t', applyBlockUnder (checkpointed checkpoints skipNothing) b s' = .ok t') →
            ∃ t, applyBlockUnder (fun _ => .ok skipNothing) b s = .ok t) := by
  obtain ⟨s', hs', hid, hmirror⟩ := h.mirrored hcps
  refine ⟨s', hs', hid, hmirror.db, hmirror.blockSummaries, hmirror.find, ?_, fun b => ?_⟩
  · intro k o hk hfind
    obtain ⟨later, hlater⟩ := h.unchecked_prefix checkpoints
    have hheld := h.numbered.held k o hfind
    rwa [← hlater, List.getElem?_append_left hk] at hheld
  · -- behind the head there are no checkpoints
    have hflag (hprev : s.headId = previous b) :
        checkpointed checkpoints skipNothing b = .ok skipNothing := by
      have hnum : blockNum b = s.headId.num + 1 := by rw [blockNum, hprev]
      have hnone : checkpoints.find? (blockNum b) = none := by
        cases hfind : checkpoints.find? (blockNum b) with
        | none => rfl
        | some id =>
            obtain ⟨c, hc, hcnum, -⟩ := hcps _ _ hfind
            have hle := h.blockNum_le c hc
            omega
      rw [checkpointed_eq hcps (by simp [hnone]), if_neg]
      have hlast := h.lastCheckpoint_le hcps
      omega
    refine ⟨?_, fun hb => ?_⟩
    · rintro ⟨t, ht⟩
      obtain ⟨hprev, hhead, skip, hskip, hr⟩ := applyBlockUnder_ok.mp ht
      obtain rfl := Except.ok.inj hskip
      obtain ⟨v, hv, -⟩ := hmirror.block hr
      exact ⟨⟨blockId b, v⟩, applyBlockUnder_ok.mpr ⟨hid.trans hprev, rfl, _, hflag hprev, hv⟩⟩
    · rintro ⟨t', ht'⟩
      obtain ⟨hprev, hhead, skip, hskip, hr⟩ := applyBlockUnder_ok.mp ht'
      have hprev := hid.symm.trans hprev
      rw [hflag hprev] at hskip
      obtain rfl := Except.ok.inj hskip
      obtain ⟨v, hv, -⟩ := hmirror.block_of hb hr
      exact ⟨⟨blockId b, v⟩, applyBlockUnder_ok.mpr ⟨hprev, rfl, _, rfl, hv⟩⟩

end Chain

section Samples

namespace Sample

/-- A block with a message, and one that brings the message again. -/
inductive Repeat where
  | first | again
  deriving DecidableEq

/-- The id of the first block in the run that follows. -/
def firstId : BlockId := ⟨1, 1⟩

instance : ChainBlock Repeat where
  previous
    | .first => .zero
    | .again => firstId
  digest
    | .first => 1
    | .again => 2
  digest_injective := by
    intro x y h
    cases x <;> cases y <;> first | rfl | cases h

/-- A message that does not say on which block it builds: number 7 is still free. -/
def anywhere : SignedTransaction := { message 1585422030 with refBlockNum := 7 }

instance : HasContents Repeat where
  contents
    | .first => { witness := "initminer", timestamp := 1585422003, transactions := [anywhere] }
    | .again => { witness := "initminer1", timestamp := 1585422006, transactions := [anywhere] }

/-- A single checkpoint, at the first block. -/
def atFirst : FlatMap Nat BlockId := FlatMap.empty.set 1 firstId

/-- The state of the chain that genesis leaves, before the first block. -/
def beforeFirst : ChainState Objects :=
  .start ((initGenesis { initSupply_nonneg := nothing_nonneg } {}).toOption.elim {} Prod.snd)

/-- The state behind the first block, applied with the flags of a node. -/
def behindFirst (flags : Repeat → Except Exn SkipFlags) : ChainState Objects :=
  (applyBlockUnder flags .first beforeFirst).toOption.getD beforeFirst

theorem behindFirst_chained {flags : Repeat → Except Exn SkipFlags}
    (h : (applyBlockUnder flags .first beforeFirst).toOption.isSome = true) :
    Chained flags {} [.first] (behindFirst flags) := by
  have hrun : leadsTo (initGenesis {}) {} (fun _ => true) = true := by decide +kernel
  obtain ⟨d, hd, -⟩ := leadsTo_iff.mp hrun
  have hstart : beforeFirst = .start d := by
    show ChainState.start _ = _
    rw [show initGenesis {} {} = .ok ((), d) from hd]
    rfl
  refine @Chained.block _ _ _ _ _ flags _ [] _ _ _ (.start hd) ?_
  rw [← hstart, behindFirst]
  cases hb : applyBlockUnder flags .first beforeFirst with
  | error e =>
      rw [hb] at h
      cases h
  | ok t => rfl

theorem atFirst_consistent : ConsistentWith atFirst [Repeat.first] := by
  intro n id h
  have hmem : (n, id) ∈ atFirst.entries := FlatMap.mem_entries_iff.mpr h
  rw [show atFirst.entries = [(1, firstId)] from rfl, List.mem_singleton] at hmem
  obtain ⟨rfl, rfl⟩ := Prod.mk.inj hmem
  exact ⟨.first, List.mem_cons_self, rfl, rfl⟩

end Sample

open Sample

/-- The message of the checkpointed block comes again: the node with the checkpoint takes it. -/
theorem checkpoints_forget : ∃ s s' : ChainState Objects,
    Chained (fun _ => .ok skipNothing) {} [Repeat.first] s ∧
      ConsistentWith atFirst [Repeat.first] ∧
      Chained (checkpointed atFirst skipNothing) {} [Repeat.first] s' ∧
      ¬ ((∃ t, applyBlockUnder (fun _ => .ok skipNothing) Repeat.again s = .ok t) ↔
        ∃ t', applyBlockUnder (checkpointed atFirst skipNothing) Repeat.again s' = .ok t') := by
  refine ⟨behindFirst fun _ => .ok skipNothing, behindFirst (checkpointed atFirst skipNothing),
    behindFirst_chained (by decide +kernel), atFirst_consistent,
    behindFirst_chained (by decide +kernel), fun h => ?_⟩
  have hfast : (applyBlockUnder (checkpointed atFirst skipNothing) Repeat.again
      (behindFirst (checkpointed atFirst skipNothing))).toOption.isSome = true := by decide +kernel
  have hslow : (applyBlockUnder (fun _ => .ok skipNothing) Repeat.again
      (behindFirst fun _ => .ok skipNothing)).toOption.isSome = false := by decide +kernel
  have hboth : (∃ t', applyBlockUnder (checkpointed atFirst skipNothing) Repeat.again
      (behindFirst (checkpointed atFirst skipNothing)) = .ok t') := by
    cases hb : applyBlockUnder (checkpointed atFirst skipNothing) Repeat.again
        (behindFirst (checkpointed atFirst skipNothing)) with
    | error e =>
        rw [hb] at hfast
        cases hfast
    | ok t => exact ⟨t, rfl⟩
  obtain ⟨t, ht⟩ := h.mpr hboth
  rw [ht] at hslow
  cases hslow

/-- The node with the checkpoint, next to the one without: its records start one later. -/
theorem atFirst_agree : ∃ s s' : ChainState Objects,
    Chained (fun _ => .ok skipNothing) {} [Repeat.first] s ∧
      Chained (checkpointed atFirst skipNothing) {} [Repeat.first] s' ∧
      (uncheckedTransactions atFirst [Repeat.first]).length = 1 ∧ s'.rest.db = s.rest.db ∧
      ∀ k, s'.rest.transactions.find? k = s.rest.transactions.find? (1 + k) := by
  have h : Chained (fun _ => .ok skipNothing) {} [Repeat.first]
      (behindFirst fun _ => .ok skipNothing) := behindFirst_chained (by decide +kernel)
  have hlen : (uncheckedTransactions atFirst [Repeat.first]).length = 1 := by decide
  obtain ⟨s', hs', -, hdb, -, hfind, -⟩ := checkpoints_agree h atFirst_consistent
  rw [hlen] at hfind
  exact ⟨_, s', h, hs', hlen, hdb, hfind⟩

end Samples

end BtcmChain
