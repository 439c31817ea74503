import BtcmChain.Sound.Chains
import BtcmChain.Sound.ForkSwitch
import Mathlib.Data.Nat.ModEq

set_option autoImplicit false

/-!
# Transactions as proof of stake

The summaries are a cyclic table: a block overwrites the one of 65536 blocks before it, and a
popped block gives the place back. What a place holds is a matter of the chain alone
(`IsSummary`), so a transaction passes the check on every chain whose block at that place has
the prefix it names.

A block id starts with the number of the block, with its bytes reversed, and what follows is quoted
by a transaction. Both sides are modelled, how `set_reference_block` fills in number and prefix and
how the chain checks them. `summaries_tie_fork` follows the table along every run of a node, over
pops and switches, and `switched_summary` has a switch after which a summary is that of the other
branch.
-/

namespace BtcmChain

section Summaries

variable {β : Type} [ChainBlock β]

/-- The last block of a chain whose number agrees with `n` in the 16 bits of a summary. -/
structure IsHighest (bs : List β) (n : ℕ) (b : β) : Prop where
  mem : b ∈ bs
  congr : blockNum b ≡ n [MOD 65536]
  le : ∀ c ∈ bs, blockNum c ≡ n [MOD 65536] → blockNum c ≤ blockNum b

/-- What the summary for `n` holds: the id of that block, or zeros if there is none. -/
def IsSummary (bs : List β) (n : ℕ) (id : BlockId) : Prop :=
  (∃ b, IsHighest bs n b ∧ id = blockId b) ∨
    (∀ b ∈ bs, ¬ blockNum b ≡ n [MOD 65536]) ∧ id = BlockId.zero

variable {bs : List β} {b : β} {n m : ℕ} {id id' : BlockId}

theorem IsSummary.congr_num (h : IsSummary bs n id) (hnm : n ≡ m [MOD 65536]) :
    IsSummary bs m id := by
  rcases h with ⟨b, hb, rfl⟩ | ⟨hnone, rfl⟩
  · exact Or.inl ⟨b, ⟨hb.mem, hb.congr.trans hnm, fun c hc hcm => hb.le c hc (hcm.trans hnm.symm)⟩,
      rfl⟩
  · exact Or.inr ⟨fun b hb hbm => hnone b hb (hbm.trans hnm.symm), rfl⟩

/-- A chain has one block of each number, so a summary is what the chain makes it. -/
theorem IsSummary.unique (h : IsSummary bs n id) (h' : IsSummary bs n id')
    (hnum : ∀ c ∈ bs, ∀ d ∈ bs, blockNum c = blockNum d → c = d) : id = id' := by
  rcases h with ⟨b, hb, rfl⟩ | ⟨hnone, rfl⟩
  · rcases h' with ⟨c, hc, rfl⟩ | ⟨hnone, -⟩
    · have hle := hb.le c hc.mem hc.congr
      have hge := hc.le b hb.mem hb.congr
      rw [hnum b hb.mem c hc.mem (le_antisymm hge hle)]
    · exact absurd hb.congr (hnone b hb.mem)
  · rcases h' with ⟨c, hc, -⟩ | ⟨-, rfl⟩
    · exact absurd hc.congr (hnone c hc.mem)
    · rfl

/-- The next block takes its own place and leaves the others alone. -/
theorem isSummary_append (hlast : ∀ c ∈ bs, blockNum c < blockNum b) :
    (blockNum b ≡ n [MOD 65536] → IsSummary (bs ++ [b]) n (blockId b)) ∧
      (¬ blockNum b ≡ n [MOD 65536] → IsSummary bs n id → IsSummary (bs ++ [b]) n id) := by
  refine ⟨fun hb => Or.inl ⟨b, ⟨by simp, hb, fun c hc _ => ?_⟩, rfl⟩, fun hb h => ?_⟩
  · rcases List.mem_append.mp hc with hc | hc
    · exact (hlast c hc).le
    · rw [List.mem_singleton.mp hc]
  · rcases h with ⟨a, ha, rfl⟩ | ⟨hnone, rfl⟩
    · refine Or.inl ⟨a, ⟨List.mem_append_left [b] ha.mem, ha.congr, fun c hc hcn => ?_⟩, rfl⟩
      rcases List.mem_append.mp hc with hc | hc
      · exact ha.le c hc hcn
      · rw [List.mem_singleton.mp hc] at hcn
        exact absurd hcn hb
    · refine Or.inr ⟨fun c hc => ?_, rfl⟩
      rcases List.mem_append.mp hc with hc | hc
      · exact hnone c hc
      · rwa [List.mem_singleton.mp hc]

end Summaries

/-! ## Places -/

@[simp] theorem BlockId.numFromId_eq (id : BlockId) : id.numFromId = UInt32.ofNat id.num :=
  endianReverse_endianReverse _

/-- The place of a block in the table of summaries, which is its number up to 65536. -/
theorem toNat_place (id : BlockId) : (id.numFromId &&& 0xffff).toUInt16.toNat = id.num % 65536 := by
  have hmask : (id.numFromId &&& 0xffff).toNat = id.num % 2 ^ 32 % 2 ^ 16 := by
    rw [BlockId.numFromId_eq, UInt32.toNat_and, UInt32.toNat_ofNat']
    exact Nat.and_two_pow_sub_one_eq_mod _ 16
  rw [UInt32.toNat_toUInt16, hmask]
  omega

/-- Encoding a reference names the place of the block in the table of summaries. -/
theorem toNat_refBlockNum (t : Transaction) (ref : BlockId) :
    (t.setReferenceBlock ref).refBlockNum.toNat = ref.num % 65536 := by
  show (endianReverse ref.hash0).toUInt16.toNat = _
  rw [BlockId.hash0, endianReverse_endianReverse, UInt32.toNat_toUInt16, UInt32.toNat_ofNat']
  omega

/-! ## Chains -/

section Chain

variable {β : Type} [ChainBlock β] [HasContents β] [Externals] [Cryptography]
  {flags : β → Except Exn SkipFlags} {g : GenesisState} {bs : List β} {b : β}
  {s t : ChainState Objects}

omit [ChainBlock β] [HasContents β] in
/-- Transactions leave the block summaries alone. -/
theorem blockSummaries_transactions {skip : SkipFlags} {l : List SignedTransaction} {u v : Objects}
    (h : Runs (l.forM (applySignedTransaction skip)) u () v) :
    v.blockSummaries = u.blockSummaries := by
  refine forM_induction (P := fun w => w.blockSummaries = u.blockSummaries)
    (fun t _ w w' hw hr => ?_) h rfl
  obtain ⟨-, -, -, -, d, -, rfl⟩ := runs_applySignedTransaction.mp hr
  exact hw

namespace Chained

/-- On a chain, blocks with one number are one block. -/
theorem eq_of_blockNum_eq (h : Chained flags g bs s) :
    ∀ c ∈ bs, ∀ d ∈ bs, blockNum c = blockNum d → c = d := by
  induction h with
  | start => exact fun _ hc => absurd hc List.not_mem_nil
  | @block bs b s t hs hb ih =>
      obtain ⟨hprev, -, -⟩ := applyBlockUnder_ok.mp hb
      have hlast : ∀ c ∈ bs, blockNum c < blockNum b := fun c hc => by
        have hle := hs.blockNum_le c hc
        rw [hprev] at hle
        exact Nat.lt_succ_of_le hle
      intro c hc d hd hnum
      rcases List.mem_append.mp hc with hc | hc <;> rcases List.mem_append.mp hd with hd | hd
      · exact ih c hc d hd hnum
      · rw [List.mem_singleton.mp hd] at hnum
        exact absurd hnum (hlast c hc).ne
      · rw [List.mem_singleton.mp hc] at hnum
        exact absurd hnum (hlast d hd).ne'
      · rw [List.mem_singleton.mp hc, List.mem_singleton.mp hd]

/-- The table after a chain of blocks, whatever the flags. -/
theorem isSummary (h : Chained flags g bs s) (r : UInt16) :
    IsSummary bs r.toNat (s.rest.blockSummaries r) := by
  induction h with
  | start => exact Or.inr ⟨fun _ hb => absurd hb List.not_mem_nil, rfl⟩
  | @block bs b s t hs hb ih =>
      obtain ⟨hprev, -, skip, -, hr⟩ := applyBlockUnder_ok.mp hb
      obtain ⟨d₁, d₂, d₃, u, hparts⟩ := runs_applyContents.mp hr
      have hlast : ∀ c ∈ bs, blockNum c < blockNum b := fun c hc => by
        have hle := hs.blockNum_le c hc
        rw [hprev] at hle
        exact Nat.lt_succ_of_le hle
      have hbefore := blockSummaries_transactions hparts.transactions
      have hplace : r = ((blockId b).numFromId &&& 0xffff).toUInt16 ↔
          blockNum b ≡ r.toNat [MOD 65536] := by
        rw [← UInt16.toNat_inj, toNat_place, num_blockId, Nat.ModEq,
          Nat.mod_eq_of_lt (show r.toNat < 65536 from r.toNat_lt)]
        exact eq_comm
      rw [hparts.state]
      show IsSummary _ _ (Function.update u.blockSummaries _ _ r)
      by_cases hr : r = ((blockId b).numFromId &&& 0xffff).toUInt16
      · rw [← hr, Function.update_self]
        exact (@isSummary_append _ _ _ _ _ (blockId b) hlast).1 (hplace.mp hr)
      · rw [Function.update_of_ne hr, hbefore]
        exact (isSummary_append hlast).2 (fun hb => hr (hplace.mpr hb)) ih

end Chained

omit [ChainBlock β] [HasContents β] [Externals] [Cryptography] in
/-- The check passes if and only if the prefixes agree. -/
theorem runs_checkTapos {t : Transaction} {u : Objects} :
    Runs (checkTapos t) u () u ↔ t.refBlockPrefix = (u.blockSummaries t.refBlockNum).hash1 := by
  simp only [checkTapos, runs_bind_reads, runs_ofExcept, fcAssert_ok, decide_eq_true_eq, and_true]

/-- Wherever a node has come to, its head is the end of a chain, and each summary holds the id of
the last block of this chain at that place. A transaction that refers to a block passes the check
if and only if that block has the prefix it names; while the next block is applied this is so for
all of its transactions. -/
theorem summaries_tie_fork [BlockPolicy β] {start n : Node β Objects}
    {C : Node β Objects → Node.Call β → Prop} (hopen : start.Opened)
    (hstart : ∃ bs, Chained BlockPolicy.flags g (bs : List β) start.state)
    (h : Node.RunIf C start n) :
    ∃ bs : List β, Chained BlockPolicy.flags g bs n.state ∧ bs.length = n.headNum ∧
      (∀ r : UInt16, IsSummary bs r.toNat (n.state.rest.blockSummaries r)) ∧
      ∀ (skip : SkipFlags) (l : List SignedTransaction) (d : Database) (u : Objects),
        Runs (l.forM (applySignedTransaction skip)) { n.state.rest with db := d } () u →
        ∀ (t : Transaction) (ref id : BlockId), IsSummary bs ref.num id →
          (Runs (checkTapos (t.setReferenceBlock ref)) u () u ↔ id.hash1 = ref.hash1) := by
  obtain ⟨bs, hbs⟩ := Node.chained hopen hstart h
  refine ⟨bs, hbs, hbs.num_eq.symm, hbs.isSummary, fun skip l d u hu t ref id hid => ?_⟩
  have hsame := blockSummaries_transactions hu
  have hplace : (t.setReferenceBlock ref).refBlockNum.toNat ≡ ref.num [MOD 65536] := by
    rw [toNat_refBlockNum]
    exact Nat.mod_modEq _ _
  have hheld := (hbs.isSummary (t.setReferenceBlock ref).refBlockNum).congr_num hplace
  rw [runs_checkTapos, hsame, hheld.unique hid hbs.eq_of_blockNum_eq]
  exact eq_comm

end Chain

section Samples

namespace Sample

/-- Hashing without a hash, for the runs this development evaluates: a transaction is known by
its expiration. -/
scoped instance cryptography : Cryptography where
  transactionId t := t.expiration.toNat
  merkleRoot _ := 0
  validateSignee _ _ := true
  verifyAuthority _ _ := .ok ()

/-- A message of `initminer`, as the only operation of a transaction. -/
def message (expiration : TimePointSec) : SignedTransaction :=
  { expiration := expiration, operations := [.custom ["initminer"] 0 []] }

/-- A message in each block of the second branch; the invalid blocks come too early. -/
instance : HasContents Blk where
  contents
    | .a1 => { witness := "initminer", timestamp := 1585422003 }
    | .a2 => { witness := "initminer1", timestamp := 1585422006 }
    | .b1 => { witness := "initminer", timestamp := 1585422012
               transactions := [message 1585422012] }
    | .b2 => { witness := "initminer", timestamp := 1585422015
               transactions := [{ message 1585422013 with
                 toTransaction := (message 1585422013).setReferenceBlock b1Id }] }
    | .badA2 | .badB2 | .c3 => { witness := "initminer", timestamp := 0 }

instance : BlockPolicy Blk where
  flags _ := .ok skipNothing
  undoSize _ _ := some 10
  forkSize _ _ := some 10

/-- A new node with all objects, as genesis makes them. -/
def opened : Node Blk Objects :=
  { state := .start ((initGenesis { initSupply_nonneg := nothing_nonneg } {}).toOption.elim {} Prod.snd) }

theorem opened_chained : ∃ bs, Chained BlockPolicy.flags {} (bs : List Blk) opened.state := by
  have hrun : leadsTo (initGenesis {}) {} (fun _ => true) = true := by decide +kernel
  obtain ⟨d, hd, -⟩ := leadsTo_iff.mp hrun
  have hstate : opened.state = .start d := by
    show ChainState.start _ = _
    rw [show initGenesis {} {} = .ok ((), d) from hd]
    rfl
  rw [hstate]
  exact ⟨[], .start hd⟩

/-- A node that was given some blocks, one after the other. -/
def given (bs : List Blk) : Node Blk Objects :=
  bs.foldl (fun n b => after (Node.exec (.push b)) n) opened

theorem given_run (bs : List Blk) : Node.RunIf (fun _ _ => True) opened (given bs) := by
  induction bs using List.reverseRecOn with
  | nil => exact .start
  | append_singleton bs b ih =>
      rw [given, List.foldl_append]
      exact ih.step trivial

end Sample

open Sample

/-- After a switch the summary of block 1 is that of the new branch, and a transaction that was
made for the old one does not pass. -/
theorem switched_summary : ∃ n : Node Blk Objects, n.state.headId = blockId Blk.b2 ∧
    (∃ bs : List Blk, Chained BlockPolicy.flags {} bs n.state ∧ bs.length = 2 ∧
      IsSummary bs 1 b1Id) ∧
    ¬ Runs (checkTapos (Transaction.setReferenceBlock { expiration := 0 } a1Id)) n.state.rest ()
      n.state.rest := by
  obtain ⟨n, hn⟩ : ∃ n, n = given [.a1, .b1, .b2] := ⟨_, rfl⟩
  have hhead : n.state.headId = ⟨2, 4⟩ := by
    rw [hn]
    decide +kernel
  have hone : n.state.rest.blockSummaries 1 = b1Id := by
    rw [hn]
    decide +kernel
  have hrun : Node.RunIf (fun _ _ => True) opened n := hn ▸ given_run _
  clear hn
  obtain ⟨bs, hbs, hlen, hsum, htapos⟩ :=
    summaries_tie_fork (g := {}) ⟨rfl, .inl rfl⟩ opened_chained hrun
  have hheld : IsSummary bs 1 b1Id := hone ▸ hsum 1
  refine ⟨n, hhead, ⟨bs, hbs, ?_, hheld⟩, fun hpass => ?_⟩
  · rw [hlen, Node.headNum, hhead]
  · have hprefix := (htapos skipNothing [] _ _ (runs_pure.mpr ⟨rfl, rfl⟩) { expiration := 0 } a1Id b1Id
      hheld).mp hpass
    exact absurd hprefix (by decide)

end Samples

end BtcmChain
