import BtcmChain.Fc.Safe
import BtcmChain.Lib.BitCount

set_option autoImplicit false

/-!
# The load of the network

The part of `dynamic_global_property_object` that `update_global_dynamic_data` keeps about slots
and block sizes, and that nothing but bandwidth metering and reports look at. The widths are those
of the source; the product of the capacity is taken in 64 bits.

The bit-twiddling of `popcount` is kept as the source writes it (`popcountRounds`), and
`toNat_popcount` shows with `Lib.BitCount` that it counts the ones. `passSlot` shifts the word of
recent slots by one place and moves the cached count along; `Agrees` is the invariant that the two
describe the same slots. Every twentieth block the reserve ratio grows by one or is halved,
whereafter the capacity is computed anew (`nextRatio`).
-/

namespace BtcmChain

/-! ## Counting bits -/

/-- The rounds of `_popcount_64`, each of them a mask and a shift. -/
def popcountRounds : List (UInt64 × UInt64) :=
  [(0x5555555555555555, 1), (0x3333333333333333, 2), (0x0F0F0F0F0F0F0F0F, 4),
    (0x00FF00FF00FF00FF, 8), (0x0000FFFF0000FFFF, 16), (0x00000000FFFFFFFF, 32)]

/-- One round of `_popcount_64`: the neighbouring digits are masked, shifted and added. -/
def popcountRound (x : UInt64) (r : UInt64 × UInt64) : UInt64 := (x &&& r.1) + (x >>> r.2 &&& r.1)

/-- `_popcount_64`: the number of ones in 64 bits, added up in rounds. -/
def popcount64 (x : UInt64) : UInt8 := (popcountRounds.foldl popcountRound x).toUInt8

/-- `uint128::popcount`: the counts of both halves of the number, added up. -/
def UInt128.popcount (x : UInt128) : UInt8 :=
  popcount64 ⟨x.extractLsb' 0 64⟩ + popcount64 ⟨x.extractLsb' 64 64⟩

/-- A round adds every digit of the number to its neighbour, so that the sum of digits stays. -/
theorem digitSum_round {w k : Nat} (x : UInt64) {r : UInt64 × UInt64} (hshift : r.2.toNat % 64 = w)
    (hm : r.1.toNat = BitCount.mask w k) (hw : 0 < w) (hwk : 2 * w * k = 64) :
    BitCount.digitSum (2 * w) k (popcountRound x r).toNat =
      BitCount.digitSum w (2 * k) x.toNat := by
  have hlt := BitCount.addPairs_lt hw k x.toNat
  rw [hwk, BitCount.addPairs] at hlt
  have hround : (popcountRound x r).toNat = BitCount.addPairs w k x.toNat := by
    rw [popcountRound, UInt64.toNat_add, UInt64.toNat_and, UInt64.toNat_and,
      UInt64.toNat_shiftRight, hshift, hm, Nat.mod_eq_of_lt hlt, BitCount.addPairs]
  rw [hround, BitCount.digitSum_addPairs hw]

/-- The rounds of `_popcount_64` count the ones of the number. -/
theorem toNat_popcount64 (x : UInt64) : (popcount64 x).toNat = x.toBitVec.cpop.toNat := by
  have hle := BitVec.toNat_cpop_le x.toBitVec
  have hsum : (popcountRounds.foldl popcountRound x).toNat = x.toBitVec.cpop.toNat := by
    rw [← BitCount.digitSum_one (w := 64) (UInt64.toNat_lt _), ← BitCount.digitSum_bits]
    simp only [popcountRounds, List.foldl_cons, List.foldl_nil]
    rw [digitSum_round (w := 32) (k := 1) _ rfl (by decide) (by decide) rfl,
      digitSum_round (w := 16) (k := 2) _ rfl (by decide) (by decide) rfl,
      digitSum_round (w := 8) (k := 4) _ rfl (by decide) (by decide) rfl,
      digitSum_round (w := 4) (k := 8) _ rfl (by decide) (by decide) rfl,
      digitSum_round (w := 2) (k := 16) _ rfl (by decide) (by decide) rfl,
      digitSum_round (w := 1) (k := 32) _ rfl (by decide) (by decide) rfl]
    rfl
  rw [popcount64, UInt64.toNat_toUInt8, hsum]
  exact Nat.mod_eq_of_lt (by omega)

/-- The counts of both halves together count the ones of a number of 128 bits. -/
theorem toNat_popcount (x : UInt128) : x.popcount.toNat = x.cpop.toNat := by
  have hx : x = (x.extractLsb' 64 64 ++ x.extractLsb' 0 64 : BitVec (64 + 64)) := by
    have happend : (x.extractLsb' 64 64 ++ x.extractLsb' 0 64 : BitVec (64 + 64)) =
        x.extractLsb' 0 (64 + 64) := BitVec.extractLsb'_append_extractLsb'_eq_extractLsb' rfl
    exact (happend.trans BitVec.extractLsb'_eq_self).symm
  have hle := BitVec.toNat_cpop_le x
  have hsum : x.cpop.toNat = (x.extractLsb' 64 64).cpop.toNat + (x.extractLsb' 0 64).cpop.toNat := by
    conv_lhs => rw [hx]
    exact BitVec.toNat_cpop_append
  rw [UInt128.popcount, UInt8.toNat_add, toNat_popcount64, toNat_popcount64, hsum, Nat.add_comm]
  refine Nat.mod_eq_of_lt ?_
  show (x.extractLsb' 64 64).cpop.toNat + (x.extractLsb' 0 64).cpop.toNat < 2 ^ 8
  omega

/-! ## The load -/

/-- `BTCM_BANDWIDTH_PRECISION`: the unit that capacity is measured in. -/
def BTCM_BANDWIDTH_PRECISION : UInt64 := 1000000
/-- `BTCM_BANDWIDTH_AVERAGE_WINDOW_SECONDS`: the week over which bandwidth is averaged. -/
def BTCM_BANDWIDTH_AVERAGE_WINDOW_SECONDS : UInt64 := 604800
/-- `BTCM_MAX_RESERVE_RATIO`: how far the reserve ratio may grow. -/
def BTCM_MAX_RESERVE_RATIO : UInt64 := 20000

/-- The slots that were filled, the block sizes, and the capacity that follows from them. -/
structure NetworkLoad where
  averageBlockSize : UInt32 := 0
  recentSlotsFilled : UInt128
  participationCount : UInt8
  maxVirtualBandwidth : UInt64 := 0
  currentReserveRatio : UInt64 := 1
  deriving DecidableEq

namespace NetworkLoad

/-- The network load that `init_genesis` sets: all slots filled, and no block measured. -/
def genesis : NetworkLoad where
  recentSlotsFilled := BitVec.allOnes 128
  participationCount := 128

/-- A slot passes: the oldest falls out of the word, the new one is filled or not. -/
def passSlot (l : NetworkLoad) (filled : Bool) : NetworkLoad :=
  let participationCount := l.participationCount - if l.recentSlotsFilled.getLsbD 127 then 1 else 0
  { l with
    recentSlotsFilled := l.recentSlotsFilled <<< 1 + if filled then 1 else 0
    participationCount := participationCount + if filled then 1 else 0 }

/-- The count is the number of ones in the word. -/
def Agrees (l : NetworkLoad) : Prop :=
  l.participationCount.toNat = l.recentSlotsFilled.cpop.toNat

theorem genesis_agrees : genesis.Agrees := by
  unfold Agrees genesis
  rw [BitVec.cpop_allOnes]
  rfl

/-- A shift to the left puts the new bit at the bottom of what is left of the word. -/
theorem shiftLeft_add (x : UInt128) (filled : Bool) :
    (x <<< 1 + if filled then 1 else 0) = (x.setWidth 127).concat filled := by
  rw [← BitVec.toNat_inj, BitVec.toNat_concat, BitVec.toNat_setWidth, BitVec.toNat_add,
    BitVec.toNat_shiftLeft, Nat.shiftLeft_eq]
  cases filled <;> simp <;> omega

theorem toNat_cpop_msb (x : UInt128) :
    x.cpop.toNat = x.msb.toNat + (x.setWidth 127).cpop.toNat := by
  rw [← BitVec.toNat_cpop_cons, BitVec.cons_msb_setWidth]

theorem toNat_cpop_passSlot (l : NetworkLoad) (filled : Bool) :
    (l.passSlot filled).recentSlotsFilled.cpop.toNat =
      filled.toNat + (l.recentSlotsFilled.setWidth 127).cpop.toNat := by
  show (l.recentSlotsFilled <<< 1 + if filled then 1 else 0).cpop.toNat = _
  rw [shiftLeft_add, BitVec.toNat_cpop_concat]

/-- What falls out at the top is taken off, what comes in at the bottom is added. -/
theorem Agrees.passSlot {l : NetworkLoad} (h : l.Agrees) (filled : Bool) :
    (l.passSlot filled).Agrees := by
  have hle := BitVec.toNat_cpop_le (l.recentSlotsFilled.setWidth 127)
  have hmsb : l.recentSlotsFilled.getLsbD 127 = l.recentSlotsFilled.msb := rfl
  unfold Agrees at h ⊢
  rw [toNat_cpop_msb] at h
  rw [toNat_cpop_passSlot]
  simp only [NetworkLoad.passSlot, hmsb, UInt8.toNat_add]
  cases hm : l.recentSlotsFilled.msb with
  | false =>
      simp only [hm, Bool.toNat_false, Nat.zero_add] at h
      cases filled <;> simp <;> omega
  | true =>
      simp only [hm, Bool.toNat_true] at h
      have hone : (l.participationCount - 1).toNat =
          (l.recentSlotsFilled.setWidth 127).cpop.toNat := by
        rw [UInt8.toNat_sub_of_le _ _ (UInt8.le_iff_toNat_le.mpr (by simp; omega)), h]
        simp
      cases filled <;> simp [hone] <;> omega

/-- The loop over the slots since the last block. Of all rounds, the source fills the first. -/
def passSlots (l : NetworkLoad) (rounds : Nat) : NetworkLoad :=
  (List.range rounds).foldl (fun l i => l.passSlot (i = 0)) l

theorem Agrees.passSlots {l : NetworkLoad} (h : l.Agrees) (rounds : Nat) :
    (l.passSlots rounds).Agrees := by
  induction rounds with
  | zero => exact h
  | succ n ih =>
      rw [NetworkLoad.passSlots, List.range_succ, List.foldl_append]
      exact ih.passSlot _

/-- The average size of the last blocks: the product is taken in 32 bits. -/
def nextAverage (l : NetworkLoad) (blockSize : UInt64) : UInt32 :=
  (((99 * l.averageBlockSize).toUInt64 + blockSize) / 100).toUInt32

/-- Every twentieth block the reserve ratio is halved or grows by one. -/
def nextRatio (l : NetworkLoad) (headBlockNumber maximumBlockSize : UInt32) (blockSize : UInt64) :
    UInt64 :=
  if headBlockNumber % 20 = 0 then
    let ratio :=
      if l.nextAverage blockSize > maximumBlockSize / 4 then l.currentReserveRatio / 2
      else l.currentReserveRatio + 1
    if ratio > BTCM_MAX_RESERVE_RATIO then BTCM_MAX_RESERVE_RATIO else ratio
  else l.currentReserveRatio

/-- What `update_global_dynamic_data` does to the load, for a block with this number and size, so
many slots after the last one. -/
def update (l : NetworkLoad) (slots : Nat) (headBlockNumber maximumBlockSize : UInt32)
    (blockSize : UInt64) : NetworkLoad :=
  let ratio := l.nextRatio headBlockNumber maximumBlockSize blockSize
  { l.passSlots slots with
    averageBlockSize := l.nextAverage blockSize
    currentReserveRatio := ratio
    maxVirtualBandwidth :=
      maximumBlockSize.toUInt64 * ratio * BTCM_BANDWIDTH_PRECISION *
        BTCM_BANDWIDTH_AVERAGE_WINDOW_SECONDS / 3 }

theorem Agrees.update {l : NetworkLoad} (h : l.Agrees) (slots : Nat)
    (headBlockNumber maximumBlockSize : UInt32) (blockSize : UInt64) :
    (l.update slots headBlockNumber maximumBlockSize blockSize).Agrees := h.passSlots slots

/-- `witness_participation_rate`: the slots filled out of the last 128, in hundredths of a percent.
-/
def witnessParticipationRate (l : NetworkLoad) : UInt32 :=
  (10000 * l.recentSlotsFilled.popcount.toUInt64 / 128).toUInt32

end NetworkLoad

end BtcmChain
