import BtcmChain.Chain.Votes
import BtcmChain.Lib.DigitRoot

set_option autoImplicit false

/-!
# Integer square roots

`detail::isqrt` keeps twice the root in 32 bits and shifts it before it compares. The same rounds
in numbers of any size stand beside it here: those always end at the root, and the 32 bits follow
them to the end for radicands below 2^62. From 2^62 on the last shift drops the highest bit.

The method is that of `Lib.DigitRoot`, one digit of base four after another from the highest one on
(`wide_rounds`). `KeepsBits` says that no round of the machine loses a bit, and under it the two go
side by side; where it fails, the root takes 32 bits and the result has 31, so it is wrong for
every such radicand (`isqrt_ne_sqrt`). So `isqrt_exact_iff` is exact for all 64-bit numbers.
-/

namespace BtcmChain

open DigitRoot

/-- What a round holds: the radicand, the remainder and twice the root. -/
def roundNumbers (st : UInt64 × UInt64 × UInt32) : ℕ × ℕ × ℕ :=
  (st.1.toNat, st.2.1.toNat, st.2.2.toNat)

/-- A round of `isqrt` in numbers of any size. The bits of the radicand that have been brought down
leave it. -/
def wideStep (st : ℕ × ℕ × ℕ) : ℕ × ℕ × ℕ :=
  let rem := st.2.1 * 4 + st.1 / 2 ^ 62
  let root := st.2.2 * 2
  if root < rem then (st.1 % 2 ^ 62 * 4, rem - (root + 1), root + 2)
  else (st.1 % 2 ^ 62 * 4, rem, root)

/-- No round loses a bit of the remainder or of the root. -/
def KeepsBits (a : UInt64) : Prop :=
  ∀ k ≤ 32, roundNumbers (isqrtStep^[k] (a, 0, 0)) = wideStep^[k] (a.toNat, 0, 0)

/-! ## Numbers of any size -/

/-- With `k` pairs of bits to come the radicand holds them in front, and its other pairs have their
root. -/
theorem wideStep_rooted {a k r rem : ℕ} (hk : k < 32) (h : Rooted (a / 4 ^ (32 - k)) r rem) :
    ∃ r' rem', wideStep (a % 4 ^ (32 - k) * 4 ^ k, rem, 2 * r) =
      (a % 4 ^ (32 - (k + 1)) * 4 ^ (k + 1), rem', 2 * r') ∧
      Rooted (a / 4 ^ (32 - (k + 1))) r' rem' := by
  obtain ⟨j, hj⟩ : ∃ j, 32 - k = j + 1 := ⟨31 - k, by omega⟩
  have hnext : 32 - (k + 1) = j := by omega
  have hwhole : 2 ^ 62 = 4 ^ j * 4 ^ k := by
    rw [← pow_add, show j + k = 31 by omega]
    norm_num
  have hpos : 0 < 4 ^ k := Nat.pow_pos (by decide)
  have hdigit : a % 4 ^ (j + 1) * 4 ^ k / 2 ^ 62 = a / 4 ^ j % 4 := by
    rw [hwhole, Nat.mul_div_mul_right _ _ hpos, pow_succ', Nat.mod_mul_left_div_self]
  have hrest : a % 4 ^ (j + 1) * 4 ^ k % 2 ^ 62 * 4 = a % 4 ^ j * 4 ^ (k + 1) := by
    rw [hwhole, Nat.mul_mod_mul_right, Nat.mod_mod_of_dvd _ (pow_dvd_pow 4 j.le_succ), pow_succ]
    ring
  have hlead : a / 4 ^ j = 4 * (a / 4 ^ (j + 1)) + a / 4 ^ j % 4 := by
    rw [pow_succ, ← Nat.div_div_eq_div_mul]
    omega
  rw [hj] at h ⊢
  rw [hnext, hlead, wideStep]
  simp only [hdigit, hrest]
  have hlt : a / 4 ^ j % 4 < 4 := Nat.mod_lt _ (by decide)
  generalize a / 4 ^ j % 4 = d at hlt
  by_cases hroom : 4 * r < 4 * rem + d
  · refine ⟨_, _, ?_, h.append_one hlt hroom⟩
    rw [if_pos (by omega)]
    simp only [Prod.mk.injEq, true_and]
    omega
  · refine ⟨_, _, ?_, h.append_zero hroom⟩
    rw [if_neg (by omega)]
    simp only [Prod.mk.injEq, true_and]
    omega

/-- The rounds on numbers of any size bring down one pair after the other. -/
theorem wide_rounds {a k : ℕ} (ha : a < 2 ^ 64) (hk : k ≤ 32) :
    ∃ r rem, wideStep^[k] (a, 0, 0) = (a % 4 ^ (32 - k) * 4 ^ k, rem, 2 * r) ∧
      Rooted (a / 4 ^ (32 - k)) r rem := by
  induction k with
  | zero =>
      have hfit : a < 4 ^ (32 - 0) := by norm_num at ha ⊢; exact ha
      refine ⟨0, 0, ?_, ?_⟩
      · rw [Nat.mod_eq_of_lt hfit]
        simp
      · rw [Nat.div_eq_of_lt hfit]
        exact .zero
  | succ k ih =>
      obtain ⟨r, rem, hst, hrooted⟩ := ih (by omega)
      rw [Function.iterate_succ_apply', hst]
      exact wideStep_rooted (by omega) hrooted

/-- At the end of the rounds, the shifted digits hold twice the root. -/
theorem wide_root {a : ℕ} (ha : a < 2 ^ 64) : (wideStep^[32] (a, 0, 0)).2.2 = 2 * a.sqrt := by
  obtain ⟨r, rem, hst, hrooted⟩ := wide_rounds ha le_rfl
  rw [hst, hrooted.eq_sqrt]
  simp

/-! ## The 32 bits -/

/-- A round with room in both words is one in numbers of any size. -/
theorem roundNumbers_isqrtStep {st : UInt64 × UInt64 × UInt32}
    (hrem : st.2.1.toNat * 4 + 4 ≤ 2 ^ 64) (hroot : st.2.2.toNat * 2 + 2 < 2 ^ 32) :
    roundNumbers (isqrtStep st) = wideStep (roundNumbers st) := by
  obtain ⟨a, rem, root⟩ := st
  simp only at hrem hroot
  have ha := a.toNat_lt
  have hdown : (a >>> 62).toNat = a.toNat / 2 ^ 62 := by
    rw [UInt64.toNat_shiftRight, Nat.shiftRight_eq_div_pow]
    rfl
  have hleft : (a <<< 2).toNat = a.toNat % 2 ^ 62 * 4 := by
    rw [UInt64.toNat_shiftLeft, Nat.shiftLeft_eq]
    change a.toNat * 4 % 2 ^ 64 = _
    omega
  have hrem' : ((rem <<< 2) + (a >>> 62)).toNat = rem.toNat * 4 + a.toNat / 2 ^ 62 := by
    rw [UInt64.toNat_add, UInt64.toNat_shiftLeft, Nat.shiftLeft_eq, hdown]
    change (rem.toNat * 4 % 2 ^ 64 + a.toNat / 2 ^ 62) % 2 ^ 64 = _
    omega
  have hroot' : (root <<< 1).toNat = root.toNat * 2 := by
    rw [UInt32.toNat_shiftLeft, Nat.shiftLeft_eq]
    change root.toNat * 2 % 2 ^ 32 = _
    omega
  have hone : (root <<< 1 + 1).toNat = root.toNat * 2 + 1 := by
    rw [UInt32.toNat_add, hroot']
    change (root.toNat * 2 + 1) % 2 ^ 32 = _
    omega
  have htwo : (root <<< 1 + 2).toNat = root.toNat * 2 + 2 := by
    rw [UInt32.toNat_add, hroot']
    change (root.toNat * 2 + 2) % 2 ^ 32 = _
    omega
  change roundNumbers (isqrtStep (a, rem, root)) = wideStep (a.toNat, rem.toNat, root.toNat)
  simp only [isqrtStep, wideStep, roundNumbers, UInt64.lt_iff_toNat_lt, UInt32.toNat_toUInt64,
    hrem', hroot']
  split
  · have hsub : (root <<< 1 + 1).toUInt64 ≤ (rem <<< 2) + (a >>> 62) := by
      rw [UInt64.le_iff_toNat_le, UInt32.toNat_toUInt64, hone, hrem']
      omega
    simp only [hleft, htwo, UInt64.toNat_sub_of_le _ _ hsub, UInt32.toNat_toUInt64, hone, hrem']
  · simp only [hleft, hrem', hroot']

/-- Below 2^62 no round loses anything: before the last one the root has 30 bits. -/
theorem keepsBits_of_lt {a : UInt64} (ha : a.toNat < 2 ^ 62) : KeepsBits a := by
  intro k hk
  induction k with
  | zero => rfl
  | succ k ih =>
      obtain ⟨r, rem, hst, hrooted⟩ := wide_rounds a.toNat_lt (show k ≤ 32 by omega)
      have hnumbers := ih (by omega)
      rw [hst, roundNumbers, Prod.mk.injEq, Prod.mk.injEq] at hnumbers
      obtain ⟨-, hrem, hroot⟩ := hnumbers
      have hlead : a.toNat / 4 ^ (32 - k) < 2 ^ 60 := by
        refine lt_of_le_of_lt (Nat.div_le_div_left (Nat.pow_le_pow_right (by decide)
          (show 1 ≤ 32 - k by omega)) (by decide)) ?_
        omega
      have hr : r < 2 ^ 30 := by
        rw [hrooted.eq_sqrt, Nat.sqrt_lt]
        exact lt_of_lt_of_eq hlead (by norm_num)
      have hsmall := hrooted.small
      rw [Function.iterate_succ_apply', Function.iterate_succ_apply',
        roundNumbers_isqrtStep (by omega) (by omega), ih (by omega)]

theorem toNat_isqrt (a : UInt64) : (isqrt a).toNat = (isqrtStep^[32] (a, 0, 0)).2.2.toNat / 2 := by
  rw [isqrt, UInt32.toNat_shiftRight, Nat.shiftRight_eq_div_pow]
  rfl

theorem isqrt_of_keepsBits {a : UInt64} (h : KeepsBits a) : (isqrt a).toNat = a.toNat.sqrt := by
  have hend := congrArg (·.2.2) (h 32 le_rfl)
  simp only [roundNumbers, wide_root a.toNat_lt] at hend
  rw [toNat_isqrt, hend, Nat.mul_div_cancel_left _ (by decide)]

/-- From 2^62 on the root takes 32 bits, and the result has at most 31. -/
theorem isqrt_ne_sqrt {a : UInt64} (ha : 2 ^ 62 ≤ a.toNat) : (isqrt a).toNat ≠ a.toNat.sqrt := by
  have hroot : 2 ^ 31 ≤ a.toNat.sqrt := Nat.le_sqrt.mpr (by omega)
  have hword := (isqrtStep^[32] (a, 0, 0)).2.2.toNat_lt
  have hhalf := toNat_isqrt a
  omega

/-- **Integer square roots.** `isqrt` gives the largest number with a square not above its argument,
and loses no bit on the way, for the arguments below 2^62 and for no others. -/
theorem isqrt_exact_iff (a : UInt64) :
    (IsGreatest {r : ℕ | r * r ≤ a.toNat} (isqrt a).toNat ↔ a.toNat < 2 ^ 62) ∧
      (KeepsBits a ↔ a.toNat < 2 ^ 62) := by
  rw [isGreatest_iff]
  have hbelow : (isqrt a).toNat = a.toNat.sqrt → a.toNat < 2 ^ 62 := fun h => by
    by_contra hge
    exact isqrt_ne_sqrt (by omega) h
  exact ⟨⟨hbelow, fun h => isqrt_of_keepsBits (keepsBits_of_lt h)⟩,
    ⟨fun h => hbelow (isqrt_of_keepsBits h), keepsBits_of_lt⟩⟩

/-- The root of 2^62 is 2^31, and 0 comes out. -/
theorem isqrt_wraps : isqrt 4611686018427387904 = 0 ∧
    ¬ (IsGreatest {r : ℕ | r * r ≤ (4611686018427387904 : UInt64).toNat}
        (isqrt 4611686018427387904).toNat ∧ KeepsBits 4611686018427387904) := by
  have hzero : isqrt 4611686018427387904 = 0 := by decide +kernel
  refine ⟨hzero, fun h => ?_⟩
  have hone : 1 ≤ (isqrt 4611686018427387904).toNat := h.1.2 (by decide : 1 * 1 ≤ _)
  rw [hzero] at hone
  exact absurd hone (by decide)

end BtcmChain
