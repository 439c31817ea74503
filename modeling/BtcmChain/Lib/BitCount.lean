import Mathlib.Data.Nat.Bitwise
import Mathlib.Tactic.Ring
import Mathlib.Tactic.Linarith

set_option autoImplicit false

/-!
# Counting bits by adding neighbours

A number in digits of `w` bits: adding every digit to its neighbour gives a number in digits of
`2 w` bits with the same sum. Repeated from the bits on, this counts them.

`mask` picks the lower digit of every pair, and `addPairs` is the step with it: the number and the
number shifted down are masked and added. As long as a digit is wide enough for the sum of two,
nothing spills over (`addPairs_lt`), and the sum of all digits stays what it was
(`digitSum_addPairs`). On the bits themselves that sum is the number of ones (`digitSum_bits`).
-/

namespace BtcmChain.BitCount

/-- The sum of the lowest `k` digits of `w` bits. -/
def digitSum (w : Nat) : Nat → Nat → Nat
  | 0, _ => 0
  | k + 1, x => x % 2 ^ w + digitSum w k (x / 2 ^ w)

/-- The mask that picks the lower of the two digits of `w` bits from each of `k` pairs. -/
def mask (w : Nat) : Nat → Nat
  | 0 => 0
  | k + 1 => 2 ^ (2 * w) * mask w k + (2 ^ w - 1)

/-- The two digits of each of `k` pairs added up, all pairs at once: the lower digits and the upper
ones, shifted down. -/
def addPairs (w k x : Nat) : Nat := (x &&& mask w k) + (x >>> w &&& mask w k)

theorem pow_double (w : Nat) : 2 ^ (2 * w) = 2 ^ w * 2 ^ w := by
  rw [Nat.two_mul, Nat.pow_add]

theorem div_div_pow (w x : Nat) : x / 2 ^ w / 2 ^ w = x / 2 ^ (2 * w) := by
  rw [Nat.div_div_eq_div_mul, pow_double]

theorem digitSum_pair (w k x : Nat) :
    digitSum w (2 * (k + 1)) x =
      x % 2 ^ w + x / 2 ^ w % 2 ^ w + digitSum w (2 * k) (x / 2 ^ (2 * w)) := by
  rw [show 2 * (k + 1) = 2 * k + 1 + 1 by ring, digitSum, digitSum, div_div_pow, Nat.add_assoc]

theorem mask_lt (w : Nat) : 2 ^ w - 1 < 2 ^ (2 * w) := by
  have hpos : 0 < 2 ^ w := Nat.two_pow_pos w
  rw [pow_double]
  nlinarith [Nat.sub_lt hpos Nat.one_pos]

/-- A mask takes the lowest digit, and does the same to what is above the lowest pair. -/
theorem and_mask_succ (w k x : Nat) :
    x &&& mask w (k + 1) = 2 ^ (2 * w) * (x / 2 ^ (2 * w) &&& mask w k) + x % 2 ^ w := by
  have hmod : x % 2 ^ w < 2 ^ (2 * w) :=
    Nat.lt_of_lt_of_le (Nat.mod_lt _ (Nat.two_pow_pos w)) (Nat.pow_le_pow_right (by decide) (by omega))
  apply Nat.eq_of_testBit_eq
  intro i
  rw [mask, Nat.testBit_and, Nat.testBit_two_pow_mul_add _ (mask_lt w),
    Nat.testBit_two_pow_mul_add _ hmod]
  split
  · rw [Nat.testBit_two_pow_sub_one, Nat.testBit_mod_two_pow, Bool.and_comm]
  · rename_i hi
    rw [Nat.testBit_and, Nat.testBit_div_two_pow, show i - 2 * w + 2 * w = i by omega]

theorem addPairs_succ (w k x : Nat) :
    addPairs w (k + 1) x =
      2 ^ (2 * w) * addPairs w k (x / 2 ^ (2 * w)) + (x % 2 ^ w + x / 2 ^ w % 2 ^ w) := by
  have hshift : x / 2 ^ w / 2 ^ (2 * w) = x / 2 ^ (2 * w) / 2 ^ w := Nat.div_right_comm _ _ _
  simp only [addPairs, and_mask_succ, Nat.shiftRight_eq_div_pow, hshift]
  ring

/-- Two digits and a carry do not fill two digits. -/
theorem pair_lt {w : Nat} (hw : 0 < w) (x : Nat) : x % 2 ^ w + x / 2 ^ w % 2 ^ w < 2 ^ (2 * w) := by
  have htwo : 2 ≤ 2 ^ w := Nat.le_self_pow (by omega) 2
  have hlow := Nat.mod_lt x (Nat.two_pow_pos w)
  have hhigh := Nat.mod_lt (x / 2 ^ w) (Nat.two_pow_pos w)
  rw [pow_double]
  nlinarith

theorem addPairs_lt {w : Nat} (hw : 0 < w) (k x : Nat) : addPairs w k x < 2 ^ (2 * w * k) := by
  induction k generalizing x with
  | zero => simp [addPairs, mask]
  | succ k ih =>
      have hrest := ih (x / 2 ^ (2 * w))
      have hpair := pair_lt hw x
      have hmul := Nat.mul_le_mul_left (2 ^ (2 * w)) (Nat.succ_le_of_lt hrest)
      rw [addPairs_succ, Nat.mul_succ, Nat.pow_add, Nat.mul_comm (2 ^ (2 * w * k))]
      rw [Nat.mul_succ] at hmul
      omega

/-- Adding up neighbours makes half as many digits of twice the width, with the same sum. -/
theorem digitSum_addPairs {w : Nat} (hw : 0 < w) (k x : Nat) :
    digitSum (2 * w) k (addPairs w k x) = digitSum w (2 * k) x := by
  induction k generalizing x with
  | zero => rfl
  | succ k ih =>
      rw [digitSum_pair, addPairs_succ, digitSum, Nat.mul_add_mod, Nat.mod_eq_of_lt (pair_lt hw x),
        Nat.mul_add_div (Nat.two_pow_pos _), Nat.div_eq_of_lt (pair_lt hw x), Nat.add_zero, ih]

/-- A number that fits into one digit is the sum of its only digit. -/
theorem digitSum_one {w x : Nat} (h : x < 2 ^ w) : digitSum w 1 x = x := by
  rw [digitSum, digitSum, Nat.mod_eq_of_lt h, Nat.add_zero]

/-- Digits of one bit add up to the number of ones. -/
theorem digitSum_bits {n : Nat} (x : BitVec n) : digitSum 1 n x.toNat = x.cpop.toNat := by
  induction n with
  | zero => simp [digitSum, BitVec.cpop]
  | succ n ih =>
      obtain ⟨y, b, rfl⟩ : ∃ (y : BitVec n) (b : Bool), x = y.concat b := by
        have hx := x.isLt
        refine ⟨BitVec.ofNat n (x.toNat / 2), x.getLsbD 0, ?_⟩
        rw [← BitVec.toNat_inj, BitVec.toNat_concat, BitVec.toNat_ofNat, Nat.mod_eq_of_lt (by omega),
          BitVec.getLsbD, Nat.testBit_zero]
        rcases Nat.mod_two_eq_zero_or_one x.toNat with h | h <;> simp [h] <;> omega
      have hb : b.toNat < 2 := Bool.toNat_lt b
      rw [digitSum, BitVec.toNat_cpop_concat, BitVec.toNat_concat, ← ih, Nat.pow_one,
        show (y.toNat * 2 + b.toNat) % 2 = b.toNat by omega,
        show (y.toNat * 2 + b.toNat) / 2 = y.toNat by omega]

end BtcmChain.BitCount
