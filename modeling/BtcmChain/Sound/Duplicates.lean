import BtcmChain.Sound.Tapos

set_option autoImplicit false
set_option synthInstance.maxSize 10000000
set_option synthInstance.maxHeartbeats 200000

/-!
# No transaction twice

A transaction is accepted while the time of the head is before its expiration, and its id is
kept until a block's time is behind it. So as long as the id could be accepted again it is still
kept (`Remembers`); the one exception is the first block, where nothing asks for the time, but
nothing is forgotten before its end either.
-/

namespace BtcmChain

/-! ## Clearing -/

/-- A transaction is cleared just when it has expired; all others are still found. -/
theorem find?_clearExpired {now : TimePointSec} {n : Nat} {ix : ObjectIndex TransactionObject}
    (h : ix.entries.length ≤ n) (k : Nat) :
    (clearExpired now n ix).find? k =
      (ix.find? k).filter fun o => !decide (o.trx.expiration < now) := by
  induction n generalizing ix with
  | zero =>
      have hnone : ix.find? k = none := by
        cases hk : ix.find? k with
        | none => rfl
        | some o =>
            have hmem := ObjectIndex.mem_entries_iff.mpr hk
            rw [List.length_eq_zero_iff.mp (Nat.le_zero.mp h)] at hmem
            cases hmem
      rw [clearExpired, hnone]
      rfl
  | succ n ih =>
      rw [clearExpired]
      cases hfirst : firstBy (·.trx.expiration.toNat) ix.entries with
      | none =>
          have hnone : ix.find? k = none := by
            cases hk : ix.find? k with
            | none => rfl
            | some o =>
                have hmem := ObjectIndex.mem_entries_iff.mpr hk
                rw [firstBy_eq_none hfirst] at hmem
                cases hmem
          rw [hnone]
          rfl
      | some e =>
          have hmem := ObjectIndex.mem_entries_iff.mp (mem_of_firstBy hfirst)
          dsimp only
          split
          case isTrue hexp =>
            have hsize : (ix.remove e.id).entries.length + 1 = ix.entries.length :=
              FlatMap.size_erase hmem
            rw [ih (by omega), ObjectIndex.find?_remove]
            split
            case isTrue hk =>
              rw [hk, hmem, Option.filter_none, Option.filter_some, decide_eq_true hexp]
              rfl
            case isFalse => rfl
          case isFalse hexp =>
            -- the first one to expire has not, so none has
            cases hk : ix.find? k with
            | none => rfl
            | some o =>
                have hle := firstBy_le hfirst _ (ObjectIndex.mem_entries_iff.mpr hk)
                have hlater : ¬ o.trx.expiration < now := by
                  rw [UInt32.lt_iff_toNat_lt] at hexp ⊢
                  exact fun hlt => hexp (lt_of_le_of_lt hle hlt)
                rw [Option.filter_some, decide_eq_false hlater]
                rfl

section Remembers

variable [Externals] [Cryptography] {s s' : Objects} {done : List SignedTransaction}

/-- The transactions applied so far have different ids, and each is kept or has expired. -/
structure Remembers (done : List SignedTransaction) (s : Objects) : Prop where
  nodup : (done.map fun t => t.id).Nodup
  kept : ∀ t ∈ done, (∃ k, s.transactions.find? k = some ⟨t, t.id⟩) ∨
    0 < s.db.dgpo.headBlockNumber ∧ t.expiration < s.db.dgpo.time

/-- No two transactions share an id and expire at different times. -/
def IdsTell (l : List SignedTransaction) : Prop :=
  ∀ t ∈ l, ∀ u ∈ l, t.id = u.id → t.expiration = u.expiration

omit [Externals] in
theorem IdsTell.mono {l l' : List SignedTransaction} (h : IdsTell l) (hl : l' ⊆ l) : IdsTell l' :=
  fun t ht u hu => h t (hl ht) u (hl hu)

/-- One transaction: it is not among those that were applied. -/
theorem Remembers.apply {t : SignedTransaction} (h : Remembers done s)
    (htell : IdsTell (done ++ [t])) (hclock : s'.db.clock = s.db.clock)
    (hr : Runs (applySignedTransaction skipNothing t) s () s') : Remembers (done ++ [t]) s' := by
  obtain ⟨-, hnew, -, htime, d, -, rfl⟩ := runs_applySignedTransaction.mp hr
  have hnew := hnew rfl
  have hhead : d.dgpo.headBlockNumber = s.db.dgpo.headBlockNumber := congrArg Prod.fst hclock
  have hnow : d.dgpo.time = s.db.dgpo.time := congrArg Prod.snd hclock
  constructor
  · rw [List.map_append, List.nodup_append]
    refine ⟨h.nodup, List.nodup_singleton _, fun i hi j hj hij => ?_⟩
    obtain ⟨u, hu, rfl⟩ := List.mem_map.mp hi
    rw [List.map_singleton, List.mem_singleton] at hj
    rw [hj] at hij
    rcases h.kept u hu with ⟨k, hk⟩ | ⟨hpos, hexpired⟩
    · -- it is kept, and was found
      have hnone := ObjectIndex.findBy?_eq_none.mp (Option.not_isSome_iff_eq_none.mp
        (Bool.eq_false_iff.mp hnew)) k _ hk
      exact absurd hij (of_decide_eq_false hnone)
    · -- it has expired, and so has this one
      have hsame := htell u (List.mem_append_left [t] hu) t (by simp) hij
      have hlive := (htime hpos).2.2
      rw [← hsame] at hlive
      exact absurd hexpired (UInt32.lt_asymm hlive)
  · intro u hu
    rcases List.mem_append.mp hu with hu | hu
    · rcases h.kept u hu with ⟨k, hk⟩ | hexpired
      · refine Or.inl ⟨k, ?_⟩
        show (s.transactions.create _).find? k = _
        rw [ObjectIndex.find?_create, if_neg, hk]
        rintro rfl
        cases hk.symm.trans s.transactions.find?_nextId
      · refine Or.inr ?_
        show 0 < d.dgpo.headBlockNumber ∧ u.expiration < d.dgpo.time
        rwa [hhead, hnow]
    · refine Or.inl ⟨s.transactions.nextId, ?_⟩
      rw [List.mem_singleton.mp hu]
      show (s.transactions.create _).find? _ = _
      rw [ObjectIndex.find?_create, if_pos rfl]

/-- Transactions in a row, in a block whose clock stands still. -/
theorem Remembers.applyAll {l : List SignedTransaction} (h : Remembers done s)
    (hv : ProposalsValid s.db) (htell : IdsTell (done ++ l))
    (hr : Runs (l.forM (applySignedTransaction skipNothing)) s () s') :
    Remembers (done ++ l) s' ∧ s'.db.clock = s.db.clock := by
  induction l generalizing s done with
  | nil =>
      obtain ⟨-, rfl⟩ := runs_pure.mp hr
      rw [List.append_nil]
      exact ⟨h, rfl⟩
  | cons t l ih =>
      obtain ⟨_, u, h1, h2⟩ := runs_bind.mp hr
      have hkept : u.db.clock = s.db.clock ∧ ProposalsValid u.db :=
        applyTransaction_induction (P := fun d => d.clock = s.db.clock) (fun _ _ hd => hd)
          (fun push op d d' hop _ hd hr => (evaluate_same (i := .clock) hop (by cases op <;> rfl)
            hr).trans hd) (applyTransaction_of_signed h1) ⟨rfl, hv⟩
      rw [List.append_cons] at htell ⊢
      have hone := h.apply (htell.mono (by simp)) hkept.1 h1
      obtain ⟨hall, hclock⟩ := ih hone hkept.2 htell h2
      exact ⟨hall, hclock.trans hkept.1⟩

omit [Externals] in
/-- Another clock, which is not earlier than before: what was remembered still is. -/
theorem Remembers.advance {d : Database} (h : Remembers done s)
    (hhead : 0 < s.db.dgpo.headBlockNumber → 0 < d.dgpo.headBlockNumber)
    (htime : s.db.dgpo.time ≤ d.dgpo.time) : Remembers done { s with db := d } := by
  refine ⟨h.nodup, fun t ht => ?_⟩
  rcases h.kept t ht with hk | ⟨hpos, hexpired⟩
  · exact Or.inl hk
  · exact Or.inr ⟨hhead hpos, UInt32.lt_of_lt_of_le hexpired htime⟩

omit [Externals] in
/-- What is forgotten behind the first block has expired, so all that matters is remembered. -/
theorem Remembers.clear (h : Remembers done s) (hhead : 0 < s.db.dgpo.headBlockNumber)
    (summaries : UInt16 → BlockId) : Remembers done { s with
      transactions := clearExpired s.db.dgpo.time s.transactions.entries.length s.transactions
      blockSummaries := summaries } := by
  refine ⟨h.nodup, fun t ht => ?_⟩
  rcases h.kept t ht with ⟨k, hk⟩ | hexpired
  · by_cases hlive : t.expiration < s.db.dgpo.time
    · exact Or.inr ⟨hhead, hlive⟩
    · refine Or.inl ⟨k, ?_⟩
      show (clearExpired _ _ _).find? k = _
      rw [find?_clearExpired (le_refl _), hk, Option.filter_some, decide_eq_false hlive]
      rfl
  · exact Or.inr hexpired

/-- A block that is applied brings only transactions that were not done before, and all of them are
remembered behind it. -/
theorem Remembers.block {id : BlockId} {b : BlockContents} (h : Remembers done s)
    (hs : Reachable s.db) (hin : s.db.InSlot) (htell : IdsTell (done ++ b.transactions))
    (hr : Runs (applyContents skipNothing id b) s () s') :
    Remembers (done ++ b.transactions) s' := by
  obtain ⟨d₁, d₂, d₃, u, hparts⟩ := runs_applyContents.mp hr
  have happly := applyContents_refines hr
  have hticked := applyBlock_ticked hs.proposalsValid happly
  have hpos : 0 < s'.db.dgpo.headBlockNumber := by
    rw [hticked.head, UInt32.lt_iff_toNat_lt, UInt32.toNat_add]
    have hlater : s.db.dgpo.time.toNat < b.timestamp.toNat := UInt32.lt_iff_toNat_lt.mp hticked.later
    have hroom := hin.paced
    have htime := b.timestamp.toNat_lt
    show 0 < (_ + 1) % 2 ^ 32
    omega
  -- the header leaves the clock alone, and so do the transactions
  have hheader := startBlock_of_header hparts.header
  have hclock₁ : d₁.clock = s.db.clock := Writes.clock_eq hheader (by decide)
  have hhead₁ : d₁.dgpo.headBlockNumber = s.db.dgpo.headBlockNumber := congrArg Prod.fst hclock₁
  have htime₁ : d₁.dgpo.time = s.db.dgpo.time := congrArg Prod.snd hclock₁
  have hvalid : ProposalsValid d₁ := hs.proposalsValid.congr (Writes.proposals_eq hheader (by decide))
  have hstart : Remembers done { s with db := d₁ } :=
    h.advance (fun hp => hhead₁ ▸ hp) (by rw [htime₁]; exact UInt32.le_refl _)
  obtain ⟨hall, hclock⟩ := hstart.applyAll hvalid htell hparts.transactions
  -- then the clock moves, and stays where it is until the end of the block
  obtain ⟨_, v, hv, hconfirm⟩ := runs_bind.mp hparts.clock
  obtain ⟨_, w, hw, hlib⟩ := runs_bind.mp hconfirm
  have hclock₂ : d₂.clock = (u.db.dgpo.headBlockNumber + 1, b.timestamp) := by
    rw [Writes.clock_eq hlib (by decide), Writes.clock_eq hw (by decide)]
    exact (runs_updateGlobalDynamicData hv).1
  have hheadu : u.db.dgpo.headBlockNumber = s.db.dgpo.headBlockNumber :=
    (congrArg Prod.fst hclock).trans hhead₁
  have htimeu : u.db.dgpo.time = s.db.dgpo.time := (congrArg Prod.snd hclock).trans htime₁
  have hhead₂ : d₂.dgpo.headBlockNumber = s'.db.dgpo.headBlockNumber := by
    rw [hticked.head, ← hheadu]
    exact congrArg Prod.fst hclock₂
  have htime₂ : d₂.dgpo.time = s'.db.dgpo.time := (congrArg Prod.snd hclock₂).trans hticked.time.symm
  have hmoved : Remembers (done ++ b.transactions) { u with db := d₂ } := by
    refine hall.advance (fun _ => hhead₂ ▸ hpos) ?_
    rw [htimeu, htime₂, hticked.time]
    exact UInt32.le_of_lt hticked.later
  have hcleared := hmoved.clear (hhead₂ ▸ hpos) s'.blockSummaries
  have hdone := hcleared.advance (d := s'.db) (fun _ => hpos) (by
    show d₂.dgpo.time ≤ _
    rw [htime₂]
    exact UInt32.le_refl _)
  have hstate : s'.transactions =
      clearExpired d₂.dgpo.time u.transactions.entries.length u.transactions := by
    rw [hparts.state]
  exact ⟨hdone.nodup, by rw [hstate]; exact hdone.kept⟩

end Remembers

/-! ## Chains -/

section Chain

variable {β : Type} [ChainBlock β] [HasContents β] [Externals] [Cryptography]
  {flags : β → Except Exn SkipFlags} {g : GenesisState} {s : ChainState Objects}

/-- The transactions of a chain of blocks, in the order they are applied. -/
def transactionsOf (bs : List β) : List SignedTransaction :=
  bs.flatMap fun b => (HasContents.contents b).transactions

omit [ChainBlock β] [Externals] [Cryptography] in
@[simp] theorem transactionsOf_append (bs cs : List β) :
    transactionsOf (bs ++ cs) = transactionsOf bs ++ transactionsOf cs := by
  simp [transactionsOf]

omit [ChainBlock β] [Externals] [Cryptography] in
@[simp] theorem transactionsOf_singleton (b : β) :
    transactionsOf [b] = (HasContents.contents b).transactions := by
  simp [transactionsOf]

theorem Chained.remembers {bs : List β} (h : Chained flags g bs s)
    (hflags : ∀ b ∈ bs, flags b = .ok skipNothing) (htell : IdsTell (transactionsOf bs)) :
    Remembers (transactionsOf bs) s.rest := by
  induction h with
  | start => exact ⟨List.nodup_nil, fun _ ht => absurd ht List.not_mem_nil⟩
  | @block bs b s t hs hb ih =>
      rw [transactionsOf_append, transactionsOf_singleton] at htell ⊢
      have hbefore : ∀ c ∈ bs, flags c = .ok skipNothing := fun c hc =>
        hflags c (List.mem_append_left [b] hc)
      obtain ⟨-, -, skip, hskip, hr⟩ := applyBlockUnder_ok.mp hb
      rw [hflags b (List.mem_append_right bs List.mem_cons_self)] at hskip
      obtain rfl := Except.ok.inj hskip
      obtain ⟨hreach, hin⟩ := hs.reachable hbefore
      exact (ih hbefore (htell.mono (List.subset_append_left _ _))).block hreach hin htell hr

/-- Wherever a node that skips no checks has come to, its head is the end of a chain of blocks in
which no transaction id comes twice. -/
theorem no_transaction_twice [BlockPolicy β] {start n : Node β Objects}
    {C : Node β Objects → Node.Call β → Prop} (hopen : start.Opened)
    (hflags : ∀ b : β, BlockPolicy.flags b = .ok skipNothing)
    (hstart : ∃ bs, Chained BlockPolicy.flags g (bs : List β) start.state)
    (h : Node.RunIf C start n) :
    (∃ bs, Chained BlockPolicy.flags g (bs : List β) n.state) ∧
      ∀ bs : List β, Chained BlockPolicy.flags g bs n.state → IdsTell (transactionsOf bs) →
        ((transactionsOf bs).map fun t => t.id).Nodup :=
  ⟨Node.chained hopen hstart h, fun _ hbs htell => (hbs.remembers (fun b _ => hflags b) htell).nodup⟩

end Chain

section Samples

open Sample

/-- A branch of two blocks with a message in each, after a switch to it. -/
theorem messages_differ : ∃ n : Node Blk Objects, n.state.headId = blockId Blk.b2 ∧
    ∃ bs : List Blk, Chained BlockPolicy.flags {} bs n.state ∧
      ((transactionsOf [Blk.b1, Blk.b2]).map fun t => t.id) = [1585422012, 1585422013] ∧
      ((transactionsOf bs).map fun t => t.id).Nodup := by
  obtain ⟨n, hn⟩ : ∃ n, n = given [.a1, .b1, .b2] := ⟨_, rfl⟩
  have hhead : n.state.headId = ⟨2, 4⟩ := by
    rw [hn]
    decide +kernel
  have hrun : Node.RunIf (fun _ _ => True) opened n := hn ▸ given_run _
  clear hn
  obtain ⟨⟨bs, hbs⟩, hall⟩ := no_transaction_twice (g := {}) ⟨rfl, .inl rfl⟩ (fun _ => rfl)
    opened_chained hrun
  -- an id is the time of the expiration here
  have htell : IdsTell (transactionsOf bs) := fun t _ u _ h => UInt32.toNat_inj.mp h
  exact ⟨n, hhead, bs, hbs, by decide, hall bs hbs htell⟩

end Samples

end BtcmChain
