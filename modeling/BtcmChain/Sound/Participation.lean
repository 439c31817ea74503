import BtcmChain.Chain.Metering
import BtcmChain.Sound.Tapos

set_option autoImplicit false
set_option synthInstance.maxSize 10000000
set_option synthInstance.maxHeartbeats 200000

/-!
# Participation

One figure follows the word of the last 128 slots bit by bit, another counts the bits of the word
anew. A slot changes both alike, so they agree from genesis on, however long the gaps are.

`NetworkLoad.Counts` is what is claimed of a load: the count is the number of ones in the word, it
stays clear of the ends of its type, and the rate is that of the count. `NetworkLoad.Agrees.counts`
derives it from the agreement of the two figures, which `Chain.NetworkLoad` carries over a slot
that passes. The induction is over all runs of metered blocks (`Metered.Reached`), and within a
block over the rounds of the loop that passes the missed slots one by one.
-/

namespace BtcmChain

/-- The figures of a load that belong together: the count is that of the ones, it stays clear of
the ends of its type, and both ways to ask for participation give one answer. -/
structure NetworkLoad.Counts (l : NetworkLoad) : Prop where
  ones : l.participationCount.toNat = l.recentSlotsFilled.cpop.toNat
  le : l.participationCount.toNat ≤ 128
  dropped : l.recentSlotsFilled.msb = true → 0 < l.participationCount.toNat
  passed : ∀ filled, (l.passSlot filled).participationCount.toNat =
    l.participationCount.toNat - l.recentSlotsFilled.msb.toNat + filled.toNat
  rate : l.witnessParticipationRate.toNat = 10000 * l.participationCount.toNat / 128

theorem NetworkLoad.Agrees.counts {l : NetworkLoad} (h : l.Agrees) : l.Counts := by
  have hones : l.participationCount.toNat = l.recentSlotsFilled.cpop.toNat := h
  have hle := BitVec.toNat_cpop_le l.recentSlotsFilled
  have hsplit := NetworkLoad.toNat_cpop_msb l.recentSlotsFilled
  refine ⟨hones, by omega, fun hmsb => ?_, fun filled => ?_, ?_⟩
  · rw [hmsb, Bool.toNat_true] at hsplit
    omega
  · have hnext : (l.passSlot filled).participationCount.toNat =
        (l.passSlot filled).recentSlotsFilled.cpop.toNat := h.passSlot filled
    rw [hnext, NetworkLoad.toNat_cpop_passSlot]
    omega
  · have hprod : 10000 * l.recentSlotsFilled.cpop.toNat % 2 ^ 64 =
        10000 * l.recentSlotsFilled.cpop.toNat := Nat.mod_eq_of_lt (by omega)
    rw [NetworkLoad.witnessParticipationRate, UInt64.toNat_toUInt32, UInt64.toNat_div,
      UInt64.toNat_mul, UInt8.toNat_toUInt64, toNat_popcount, hones]
    simp only [UInt64.reduceToNat]
    rw [hprod]
    exact Nat.mod_eq_of_lt (by omega)

section Runs

variable [Externals] [Cryptography] [Packing]

/-- Only the end of a block moves the network load, so the participation agrees in every state
reached. -/
theorem Metered.Reached.agrees {o : Option BlockContents} {s : Metered} (h : Metered.Reached o s) :
    s.load.Agrees := by
  induction h with
  | genesis _ => exact NetworkLoad.genesis_agrees
  | opened _ hopen ih =>
      rw [(runs_openBlock hopen).1]
      exact ih
  | applied _ _ happly ih =>
      rw [(runs_applyMeteredTransaction happly).2.1]
      exact ih
  | closed _ hclose ih =>
      rw [(runs_closeBlock hclose).2]
      exact ih.update ..

/-- **Participation.** In every state of every chain, and behind every round of the loop that the
next block may take it through, the figures belong together. -/
theorem participation_agrees {o : Option BlockContents} {s : Metered} (h : Metered.Reached o s)
    (rounds : Nat) : s.load.Counts ∧ (s.load.passSlots rounds).Counts :=
  ⟨h.agrees.counts, (h.agrees.passSlots rounds).counts⟩

end Runs

section Samples

namespace Sample

/-- The bytes of an `unsigned_int`, which has seven bits of the number in each. -/
def varintSize (n : Nat) : Nat := (List.range 9).countP (fun k => 128 ^ (k + 1) ≤ n) + 1

/-- The bytes of an operation. The transactions that are measured hold messages only. -/
def operationSize : Operation → Nat
  | .custom requiredAuths _ data =>
      1 + varintSize requiredAuths.length +
        (requiredAuths.map fun n => varintSize n.utf8ByteSize + n.utf8ByteSize).sum + 2 +
        varintSize data.length + data.length + 1
  | _ => 0

/-- The bytes of a transaction, as its fields add them up. -/
def transactionSize (t : SignedTransaction) : Nat :=
  2 + 4 + 4 + varintSize t.operations.length + (t.operations.map operationSize).sum + 1 +
    varintSize t.signatures.length + 65 * t.signatures.length

/-- The bytes of a block, as its header and its transactions add them up. -/
def blockSize (b : BlockContents) : Nat :=
  20 + 4 + varintSize b.witness.utf8ByteSize + b.witness.utf8ByteSize + 20 + 1 + 65 +
    varintSize b.transactions.length + (b.transactions.map transactionSize).sum

/-- The bytes of messages and of blocks of messages, as a packing of transactions and blocks. -/
scoped instance packing : Packing where
  transactionSize t := UInt64.ofNat (min (transactionSize t) (2 ^ 64 - 1))
  blockSize b := UInt64.ofNat (min (blockSize b) (2 ^ 64 - 1))
  transactionSize_le := by
    intro b t ht
    have hle := List.le_sum_of_mem (List.mem_map_of_mem (f := transactionSize) ht)
    have hfit : ∀ n : Nat, min n (2 ^ 64 - 1) < 2 ^ 64 := by omega
    rw [UInt64.toNat_ofNat_of_lt' (hfit _), UInt64.toNat_ofNat_of_lt' (hfit _)]
    unfold blockSize
    omega

/-- A block behind a gap that is longer than the word of slots. -/
def lateBlock152 : BlockContents := { witness := "initminer", timestamp := 1585422456 }

end Sample

open Sample

/-- One block 152 slots after genesis: all ones have gone, also that of the block, which is set in
the first round. -/
theorem participation_agrees_gap : ∃ s : Metered, Metered.Reached none s ∧
    s.load.participationCount = 0 ∧ s.load.Counts ∧ (s.load.passSlots 300).Counts := by
  have hrun : leadsTo (initGenesis {}) {} (fun d =>
      leadsTo (applyMeteredBlock skipNothing ⟨1, 1⟩ lateBlock152) { objects := { db := d } } fun s =>
        decide (s.load.participationCount = 0)) = true := by
    decide +kernel
  obtain ⟨d, hd, hrun⟩ := leadsTo_iff.mp hrun
  obtain ⟨s, hblock, hzero⟩ := leadsTo_iff.mp hrun
  have hs := (Metered.Reached.genesis hd).block hblock
  exact ⟨s, hs, of_decide_eq_true hzero, participation_agrees hs 300⟩

end Samples

end BtcmChain
