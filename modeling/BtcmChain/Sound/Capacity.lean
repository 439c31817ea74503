import BtcmChain.Sound.Participation
import Mathlib.Data.Nat.ModEq
import Mathlib.Tactic.NormNum.GCD

set_option autoImplicit false
set_option synthInstance.maxSize 10000000
set_option synthInstance.maxHeartbeats 200000

/-!
# Capacity

What the network can carry is a product of four factors, taken in 64 bits and divided by three
behind that. With the block size of genesis it does not fit from the first block on. When the
witnesses change the block size at the end of a block, the capacity is still that of the old size.

`exactCapacity` is the figure in unbounded numbers. The division by three comes after the product
has been cut to 64 bits, so a product that wraps might in principle yield the right quotient;
`mod_third_eq_iff` says that it does not, since the constant factor holds thirteen twos.
`capacity_exact_iff` is about the quotient and `capacity_exact` about every block of a run, in
which the ratio stays within its maximum (`nextRatio_le`).
-/

namespace BtcmChain

/-- The capacity in unbounded numbers, as the documentation has it. -/
def exactCapacity (maximumBlockSize currentReserveRatio : Nat) : Nat :=
  maximumBlockSize * currentReserveRatio * BTCM_BANDWIDTH_PRECISION.toNat *
    BTCM_BANDWIDTH_AVERAGE_WINDOW_SECONDS.toNat / 3

theorem exactCapacity_mono {m r r' : Nat} (h : r ≤ r') : exactCapacity m r ≤ exactCapacity m r' :=
  Nat.div_le_div_right (Nat.mul_le_mul_right _ (Nat.mul_le_mul_right _ (Nat.mul_le_mul_left _ h)))

/-- The product with its constant factors, as 64 bits compute it. -/
theorem toNat_capacity (m : UInt32) (r : UInt64) :
    (m.toUInt64 * r * BTCM_BANDWIDTH_PRECISION * BTCM_BANDWIDTH_AVERAGE_WINDOW_SECONDS / 3).toNat =
      m.toNat * r.toNat * 604800000000 % 2 ^ 64 / 3 := by
  have hconst : BTCM_BANDWIDTH_PRECISION.toNat * BTCM_BANDWIDTH_AVERAGE_WINDOW_SECONDS.toNat =
      604800000000 := rfl
  rw [UInt64.toNat_div, UInt64.toNat_mul, UInt64.toNat_mul, UInt64.toNat_mul, UInt32.toNat_toUInt64,
    Nat.mod_mul_mod, Nat.mul_assoc _ BTCM_BANDWIDTH_PRECISION.toNat, hconst, Nat.mod_mul_mod]
  rfl

/-- Reduced and divided by three, a multiple of the constant is that of another number only if
nothing was reduced: the constant holds thirteen twos, and the numbers are less than 51 bits. -/
theorem mod_third_eq_iff {p q : Nat} (hp : p < 2 ^ 51) (hq : q < 2 ^ 51) :
    p * 604800000000 % 2 ^ 64 / 3 = q * 604800000000 / 3 ↔
      q = p ∧ p * 604800000000 < 2 ^ 64 := by
  constructor
  · intro h
    obtain ⟨r, hr⟩ : 2 ^ 13 ∣ p * 604800000000 % 2 ^ 64 :=
      (Nat.dvd_mod_iff (by decide)).mpr (Dvd.dvd.mul_left (by decide) p)
    have hthird : q * 604800000000 / 3 = q * 201600000000 := Nat.mul_div_assoc q (by decide)
    have hsame : p * 604800000000 % 2 ^ 64 = q * 604800000000 := by
      rw [hthird, hr] at h
      rw [hr]
      omega
    have hmod : q * 604800000000 ≡ p * 604800000000 [MOD 2 ^ 64] := by
      rw [← hsame]
      exact Nat.mod_modEq _ _
    have hmodulus : 2 ^ 64 / Nat.gcd (2 ^ 64) 604800000000 = 2 ^ 51 := by norm_num
    have hpq : q ≡ p [MOD 2 ^ 51] := hmodulus ▸ hmod.cancel_right_div_gcd (Nat.two_pow_pos 64)
    have heq : q = p := hpq.eq_of_lt_of_lt hq hp
    refine ⟨heq, ?_⟩
    rw [← heq, ← hsame]
    exact Nat.mod_lt _ (by decide)
  · rintro ⟨rfl, hfits⟩
    rw [Nat.mod_eq_of_lt hfits]

/-- Of a ratio within its bound the quotient is exact only if the product fits, and only for the
block size it was taken of. -/
theorem capacity_exact_iff {m m' : UInt32} {r : UInt64} (hr : r ≤ BTCM_MAX_RESERVE_RATIO) :
    (m.toUInt64 * r * BTCM_BANDWIDTH_PRECISION * BTCM_BANDWIDTH_AVERAGE_WINDOW_SECONDS / 3).toNat =
        exactCapacity m'.toNat r.toNat ↔
      r = 0 ∨ m' = m ∧ m.toNat * r.toNat * 604800000000 < 2 ^ 64 := by
  have hratio : r.toNat ≤ 20000 := UInt64.le_iff_toNat_le.mp hr
  have hbound : ∀ n : UInt32, n.toNat * r.toNat < 2 ^ 51 := fun n =>
    lt_of_le_of_lt (Nat.mul_le_mul (Nat.le_of_lt n.toNat_lt) hratio) (by decide)
  rw [toNat_capacity, exactCapacity, Nat.mul_assoc _ BTCM_BANDWIDTH_PRECISION.toNat]
  refine (mod_third_eq_iff (hbound m) (hbound m')).trans ?_
  rw [mul_eq_mul_right_iff, UInt32.toNat_inj, ← UInt64.toNat_inj, UInt64.toNat_zero]
  constructor
  · rintro ⟨hsame | hzero, hfits⟩
    · exact Or.inr ⟨hsame, hfits⟩
    · exact Or.inl hzero
  · rintro (hzero | ⟨hsame, hfits⟩)
    · exact ⟨Or.inr hzero, by simp [hzero]⟩
    · exact ⟨Or.inl hsame, hfits⟩

namespace NetworkLoad

theorem nextRatio_le {l : NetworkLoad} (h : l.currentReserveRatio ≤ BTCM_MAX_RESERVE_RATIO)
    (head maximumBlockSize : UInt32) (blockSize : UInt64) :
    l.nextRatio head maximumBlockSize blockSize ≤ BTCM_MAX_RESERVE_RATIO := by
  simp only [nextRatio]
  generalize (if l.nextAverage blockSize > maximumBlockSize / 4 then l.currentReserveRatio / 2
    else l.currentReserveRatio + 1) = ratio
  split
  · split
    · exact UInt64.le_refl _
    · rename_i hle
      exact UInt64.not_lt.mp hle
  · exact h

end NetworkLoad

section Runs

variable [Externals] [Cryptography] [Packing]

theorem Metered.Reached.ratio_le {o : Option BlockContents} {s : Metered}
    (h : Metered.Reached o s) : s.load.currentReserveRatio ≤ BTCM_MAX_RESERVE_RATIO := by
  induction h with
  | genesis _ => exact (by decide : NetworkLoad.genesis.currentReserveRatio ≤ BTCM_MAX_RESERVE_RATIO)
  | opened _ hopen ih =>
      rw [(runs_openBlock hopen).1]
      exact ih
  | applied _ _ happly ih =>
      rw [(runs_applyMeteredTransaction happly).2.1]
      exact ih
  | closed _ hclose ih =>
      rw [(runs_closeBlock hclose).2]
      exact NetworkLoad.nextRatio_le ih ..

/-- **Capacity.** Behind a block the capacity is the exact one just if the new ratio is zero, or
the product of the factors fits into 64 bits and the block size is still the one before. -/
theorem capacity_exact {skip : SkipFlags} {id : BlockId} {b : BlockContents} {s s' : Metered}
    (hs : Metered.Reached (some b) s) (h : Runs (closeBlock skip id b) s () s') :
    s'.load.maxVirtualBandwidth.toNat =
        exactCapacity s'.objects.db.dgpo.maximumBlockSize.toNat s'.load.currentReserveRatio.toNat ↔
      let ratio := s.load.nextRatio (s.objects.db.dgpo.headBlockNumber + 1)
        s.objects.db.dgpo.maximumBlockSize (Packing.blockSize b)
      ratio = 0 ∨
        s'.objects.db.dgpo.maximumBlockSize = s.objects.db.dgpo.maximumBlockSize ∧
          s.objects.db.dgpo.maximumBlockSize.toNat * ratio.toNat * 604800000000 < 2 ^ 64 := by
  rw [(runs_closeBlock h).2]
  exact capacity_exact_iff (NetworkLoad.nextRatio_le hs.ratio_le ..)

end Runs

section Samples

open Sample

/-- The first block behind genesis, which has no transactions. -/
def blockOne : BlockContents := { witness := "initminer", timestamp := 1585422003 }

/-- The capacity behind the first block: the size of genesis, with a ratio of one, is too much for
64 bits, and a ratio of two would give less. -/
theorem capacity_wraps : ∃ s : Metered, Metered.Reached none s ∧
    s.objects.db.dgpo.maximumBlockSize = 393216000 ∧ s.load.currentReserveRatio = 1 ∧
    s.load.maxVirtualBandwidth.toNat < exactCapacity 393216000 1 ∧
    393216000 * 2 * BTCM_BANDWIDTH_PRECISION * BTCM_BANDWIDTH_AVERAGE_WINDOW_SECONDS / 3 <
      s.load.maxVirtualBandwidth := by
  have hrun : leadsTo (initGenesis {}) {} (fun d =>
      leadsTo (applyMeteredBlock skipNothing ⟨1, 1⟩ blockOne) { objects := { db := d } } fun s =>
        decide (s.objects.db.dgpo.maximumBlockSize = 393216000 ∧ s.load.currentReserveRatio = 1 ∧
          s.load.maxVirtualBandwidth.toNat < exactCapacity 393216000 1 ∧
          393216000 * 2 * BTCM_BANDWIDTH_PRECISION * BTCM_BANDWIDTH_AVERAGE_WINDOW_SECONDS / 3 <
            s.load.maxVirtualBandwidth)) = true := by
    decide +kernel
  obtain ⟨d, hd, hrun⟩ := leadsTo_iff.mp hrun
  obtain ⟨s, hblock, hwrapped⟩ := leadsTo_iff.mp hrun
  exact ⟨s, (Metered.Reached.genesis hd).block hblock, of_decide_eq_true hwrapped⟩

/-- The condition on the maximum block size fails at the first block, and the capacity is another
number. -/
theorem capacity_exact_blockOne : ∃ s s' : Metered, Metered.Reached (some blockOne) s ∧
    Runs (closeBlock skipNothing ⟨1, 1⟩ blockOne) s () s' ∧
    s'.load.maxVirtualBandwidth.toNat ≠
      exactCapacity s'.objects.db.dgpo.maximumBlockSize.toNat s'.load.currentReserveRatio.toNat := by
  have hrun : leadsTo (initGenesis {}) {} (fun d =>
      leadsTo (openBlock skipNothing blockOne) { objects := { db := d } } fun s =>
        leadsTo (closeBlock skipNothing ⟨1, 1⟩ blockOne) s fun _ =>
          let ratio := s.load.nextRatio (s.objects.db.dgpo.headBlockNumber + 1)
            s.objects.db.dgpo.maximumBlockSize (Packing.blockSize blockOne)
          decide (ratio ≠ 0 ∧
            2 ^ 64 ≤ s.objects.db.dgpo.maximumBlockSize.toNat * ratio.toNat * 604800000000)) = true := by
    decide +kernel
  obtain ⟨d, hd, hrun⟩ := leadsTo_iff.mp hrun
  obtain ⟨s, hopen, hrun⟩ := leadsTo_iff.mp hrun
  obtain ⟨s', hclose, hlarge⟩ := leadsTo_iff.mp hrun
  obtain ⟨hratio, hlarge⟩ := of_decide_eq_true hlarge
  have hs := (Metered.Reached.genesis hd).opened hopen
  refine ⟨s, s', hs, hclose, fun hexact => ?_⟩
  rcases (capacity_exact hs hclose).mp hexact with hzero | ⟨-, hfits⟩
  · exact hratio hzero
  · exact absurd hfits (Nat.not_lt.mpr hlarge)

end Samples

end BtcmChain
