import BtcmChain.Fc.Safe
import BtcmChain.Lib.PrefixCodec
import Mathlib.Data.Nat.Bitwise

set_option autoImplicit false

/-!
# `fc::raw`

Packing writes the bytes of a value to a stream, unpacking reads them from one. A call gets the depth
it may nest to, which most types check and count down; `unsigned_int` does neither.

A `RawCodec` is a writer and a reader of one type, and `Undoes` the law that connects the two. Here
are the codecs that others are built from: `unsigned_int`, seven bits a byte, where a reader
refuses what is beyond 64 bits; and strings, with their length in front, which is bounded before
anything is allocated. That reading undoes writing is shown for both (`unsignedInt_undoes`,
`rawString_undoes`).
-/

namespace BtcmChain

/-- The bytes that are read from a stream or written to one. -/
abbrev Bytes := List UInt8

/-- `unpack` of a type: the value, with what is left of the stream, or an exception. -/
abbrev UnpackM := StateT Bytes (Except Exn)

/-- `pack` and `unpack` of a type, the one not yet tied to the other. -/
abbrev RawCodec (α : Type) := PrefixCodec Exn UInt8 α

/-- The exception of `throw_datastream_range_error`, for a stream that is shorter than what is read
from it. -/
def rangeError : Exn := .assert "${method} datastream of length ${len} over by ${over}"

/-- `datastream::get`: the next byte of the stream, which must have one. -/
def streamGet : UnpackM UInt8 := fun s =>
  match s with
  | [] => .error rangeError
  | b :: rest => .ok (b, rest)

/-- `datastream::read`: the next `size` bytes of the stream, which must have as many. -/
def streamRead (size : Nat) : UnpackM { b : Bytes // b.length = size } := fun s =>
  if h : size ≤ s.length then .ok (⟨s.take size, List.length_take_of_le h⟩, s.drop size)
  else .error rangeError

/-! ## `unsigned_int` -/

/-- The loop that packs an `unsigned_int`; ten bytes take 64 bits. -/
def packSevenBits : Nat → UInt64 → Bytes
  | 0, _ => []
  | n + 1, val =>
      let b := val.toUInt8 &&& 0x7f
      let val := val >>> 7
      let b := b ||| ((if 0 < val then 1 else 0 : UInt8) <<< 7)
      b :: if val ≠ 0 then packSevenBits n val else []

/-- The loop that unpacks one. The shift `by` grows up to 70, where it is refused. -/
def unpackSevenBits : Nat → UInt64 → UInt8 → UnpackM UInt64
  | 0, _, _ => throw .outOfFuel
  | n + 1, v, by_ => do
      let b ← streamGet
      if 64 ≤ by_ ∨ (by_ = 63 ∧ 1 < b) then throw .overflow
      else
        let v := v ||| ((b &&& 0x7f).toUInt64 <<< by_.toUInt64)
        if b &&& 0x80 ≠ 0 then unpackSevenBits n v (by_ + 7) else return v

/-- `pack` of an `unsigned_int`: seven bits a byte, the lowest first, in at most ten bytes. -/
def packUnsignedInt (v : UInt64) : Bytes := packSevenBits 10 v

/-- `unpack` of an `unsigned_int`: bytes are taken up while they announce another one, for eleven
rounds at most. -/
def unpackUnsignedInt : UnpackM UInt64 := unpackSevenBits 11 0 0

/-- The codec of an `unsigned_int`, which stands for counts, sizes and tags in a stream. -/
def unsignedInt : RawCodec UInt64 where
  pack v := .ok (packUnsignedInt v)
  unpack := unpackUnsignedInt

theorem toNat_and_low (b : UInt8) : (b &&& 0x7f).toNat = b.toNat % 128 := by
  rw [UInt8.toNat_and]
  exact Nat.and_two_pow_sub_one_eq_mod _ 7

theorem and_high_eq_zero {b : UInt8} : b &&& 0x80 = 0 ↔ b.toNat < 128 := by
  have hb := b.toNat_lt
  have hbit : (b &&& 0x80).toNat = (b.toNat.testBit 7).toNat * 128 := by
    rw [UInt8.toNat_and]
    exact Nat.and_two_pow _ 7
  rw [← UInt8.toNat_inj, hbit, Nat.testBit_eq_decide_div_mod_eq]
  change _ = 0 ↔ _
  by_cases hlow : b.toNat < 128
  · simp [Nat.div_eq_of_lt hlow, hlow]
  · have hone : b.toNat / 128 % 2 = 1 := by omega
    simp [hone, hlow]

theorem toNat_shiftRight_seven (v : UInt64) : (v >>> 7).toNat = v.toNat / 128 := by
  rw [UInt64.toNat_shiftRight, Nat.shiftRight_eq_div_pow]
  rfl

/-- A round of packing writes the seven lowest bits, with a mark on top of them when more bits are
left. -/
theorem packSevenBits_succ (n : Nat) (v : UInt64) : ∃ b : UInt8,
    b.toNat = v.toNat % 128 + (if v.toNat < 128 then 0 else 128) ∧
    packSevenBits (n + 1) v = b :: if v.toNat < 128 then [] else packSevenBits n (v >>> 7) := by
  have hlow : (v.toUInt8 &&& 0x7f).toNat = v.toNat % 128 := by
    rw [toNat_and_low, UInt64.toNat_toUInt8]
    omega
  by_cases hsmall : v.toNat < 128
  · have hzero : v >>> 7 = 0 := by
      rw [← UInt64.toNat_inj, toNat_shiftRight_seven, Nat.div_eq_of_lt hsmall]
      rfl
    refine ⟨v.toUInt8 &&& 0x7f, by rw [hlow, if_pos hsmall, Nat.add_zero], ?_⟩
    simp [packSevenBits, hzero, hsmall]
  · have hpos : (0 : UInt64) < v >>> 7 := by
      rw [UInt64.lt_iff_toNat_lt, toNat_shiftRight_seven]
      change 0 < v.toNat / 128
      omega
    have hne : v >>> 7 ≠ 0 := fun h => by simp [h] at hpos
    have hmark : (1 : UInt8) <<< 7 = 0x80 := rfl
    refine ⟨(v.toUInt8 &&& 0x7f) ||| 0x80, ?_, ?_⟩
    · rw [UInt8.toNat_or, hlow, if_neg hsmall, Nat.or_comm]
      exact (Nat.two_pow_add_eq_or_of_lt (i := 7) (Nat.mod_lt _ (by decide)) 1).symm.trans
        (Nat.add_comm _ _)
    · simp [packSevenBits, hpos, hne, hsmall, hmark]

/-- Seven more bits are put in front of `k` times seven: as long as they fit, this is an addition of
their value there. -/
theorem toNat_or_shift {acc : UInt64} {b by_ : UInt8} {k : Nat} (hby : by_.toNat = 7 * k)
    (hk : k ≤ 9) (hacc : acc.toNat < 2 ^ (7 * k))
    (hfit : b.toNat % 128 * 2 ^ (7 * k) < 2 ^ 64) :
    (acc ||| ((b &&& 0x7f).toUInt64 <<< by_.toUInt64)).toNat =
      acc.toNat + b.toNat % 128 * 2 ^ (7 * k) := by
  have hshift : ((b &&& 0x7f).toUInt64 <<< by_.toUInt64).toNat = b.toNat % 128 * 2 ^ (7 * k) := by
    rw [UInt64.toNat_shiftLeft, UInt8.toNat_toUInt64, UInt8.toNat_toUInt64, toNat_and_low, hby,
      Nat.mod_eq_of_lt (show 7 * k < 64 by omega), Nat.shiftLeft_eq, Nat.mod_eq_of_lt hfit]
  rw [UInt64.toNat_or, hshift, Nat.or_comm, Nat.mul_comm (b.toNat % 128),
    ← Nat.two_pow_add_eq_or_of_lt hacc, Nat.add_comm]

/-- A round of unpacking is only reached while bits are left, so there are at most ten rounds. -/
theorem rounds_le_nine {k v acc : Nat} (hmore : k = 0 ∨ v ≠ 0) (hfit : acc + v * 2 ^ (7 * k) < 2 ^ 64) :
    k ≤ 9 := by
  rcases hmore with rfl | hv
  · decide
  · have hshift : 2 ^ (7 * k) < 2 ^ 64 :=
      (Nat.le_mul_of_pos_left _ (Nat.pos_of_ne_zero hv)).trans_lt (by omega)
    have := (Nat.pow_lt_pow_iff_right (by decide)).mp hshift
    omega

/-- A round takes the seven lowest bits off what is left, and the place of the others moves up by
seven. -/
theorem split_seven_bits (v k : Nat) :
    v * 2 ^ (7 * k) = v % 128 * 2 ^ (7 * k) + v / 128 * 2 ^ (7 * (k + 1)) := by
  conv_lhs => rw [← Nat.mod_add_div v 128]
  rw [Nat.mul_succ, Nat.pow_add]
  ring

/-- What is left of a number after `k` rounds is read on from there. -/
theorem runs_unpackSevenBits {n k fuel : Nat} {v acc : UInt64} {by_ : UInt8} {rest : Bytes}
    (hby : by_.toNat = 7 * k) (hacc : acc.toNat < 2 ^ (7 * k)) (hmore : k = 0 ∨ v.toNat ≠ 0)
    (hfit : acc.toNat + v.toNat * 2 ^ (7 * k) < 2 ^ 64) (hn : v.toNat < 2 ^ (7 * n)) (hpos : 0 < n)
    (hfuel : n ≤ fuel) :
    Runs (unpackSevenBits fuel acc by_) (packSevenBits n v ++ rest)
      (UInt64.ofNat (acc.toNat + v.toNat * 2 ^ (7 * k))) rest := by
  induction n generalizing k fuel v acc by_ with
  | zero => omega
  | succ n ih =>
      obtain ⟨fuel, rfl⟩ :=
        Nat.exists_eq_succ_of_ne_zero (Nat.pos_iff_ne_zero.mp (hpos.trans_le hfuel))
      obtain ⟨b, hb, hpack⟩ := packSevenBits_succ n v
      have hlow : b.toNat % 128 = v.toNat % 128 := by grind
      have hk := rounds_le_nine hmore hfit
      have hsplit := split_seven_bits v.toNat k
      have hround := toNat_or_shift hby hk hacc (b := b) (by rw [hlow]; omega)
      rw [hlow] at hround
      -- a tenth byte has one bit of the number left, so the reader accepts it
      have hguard : ¬ (64 ≤ by_ ∨ (by_ = 63 ∧ 1 < b)) := by
        rw [UInt8.le_iff_toNat_le, UInt8.lt_iff_toNat_lt, ← UInt8.toNat_inj, hby]
        change ¬ (64 ≤ 7 * k ∨ (7 * k = 63 ∧ 1 < b.toNat))
        by_cases hlast : k = 9
        · subst hlast
          grind
        · omega
      rw [hpack]
      simp only [unpackSevenBits, runs_bind]
      refine ⟨b, _, rfl, ?_⟩
      rw [if_neg hguard]
      by_cases hsmall : v.toNat < 128
      · have hlast : b &&& 0x80 = 0 := and_high_eq_zero.mpr (by grind)
        simp only [hsmall, hlast, if_true, ne_eq, not_true_eq_false, if_false, runs_pure]
        refine ⟨UInt64.toNat_inj.mp ?_, rfl⟩
        rw [hround, UInt64.toNat_ofNat', Nat.mod_eq_of_lt hfit, Nat.mod_eq_of_lt hsmall]
      · have hagain : b &&& 0x80 ≠ 0 := and_high_eq_zero.not.mpr (by grind)
        have hnext : (by_ + 7).toNat = 7 * (k + 1) := by
          rw [UInt8.toNat_add, hby]
          change (7 * k + 7) % 256 = _
          omega
        -- what has been read stays below the place of the next seven bits
        have hroom : acc.toNat + v.toNat % 128 * 2 ^ (7 * k) < 2 ^ (7 * (k + 1)) := by
          have hdigit : v.toNat % 128 * 2 ^ (7 * k) ≤ 127 * 2 ^ (7 * k) :=
            Nat.mul_le_mul_right _ (by omega)
          rw [Nat.mul_succ, Nat.pow_add]
          omega
        have hrest := toNat_shiftRight_seven v
        have hleft : v.toNat / 128 < 2 ^ (7 * n) := by
          rw [Nat.mul_succ, Nat.pow_add] at hn
          omega
        have hn' : n ≠ 0 := by
          rintro rfl
          omega
        have hrun := ih (v := v >>> 7) hnext (hround.trans_lt hroom) (Or.inr (by omega))
          (by rw [hround, hrest]; omega) (by omega) (Nat.pos_of_ne_zero hn')
          (Nat.le_of_succ_le_succ hfuel)
        rw [hround, hrest, Nat.add_assoc, ← hsplit] at hrun
        simp only [hsmall, hagain, if_false, ne_eq, not_false_eq_true, if_true]
        exact hrun

theorem unsignedInt_undoes : unsignedInt.Undoes := by
  intro v
  refine ⟨packUnsignedInt v, rfl, fun rest => ?_⟩
  have hrun : Runs (unpackSevenBits 11 0 0) (packSevenBits 10 v ++ rest)
      (UInt64.ofNat (0 + v.toNat * 2 ^ (7 * 0))) rest :=
    runs_unpackSevenBits rfl (by decide) (Or.inl rfl) (by simpa using v.toNat_lt)
      (v.toNat_lt.trans (by decide)) (by decide) (by decide)
  rw [Nat.zero_add, Nat.mul_zero, Nat.pow_zero, Nat.mul_one, UInt64.ofNat_toNat] at hrun
  exact hrun

/-! ## `string` -/

/-- `MAX_ARRAY_ALLOC_SIZE`: the size of the longest array that `unpack` allocates, ten megabytes. -/
def MAX_ARRAY_ALLOC_SIZE : Nat := 1024 * 1024 * 10

/-- A `string` that can be unpacked: one that is shorter than the longest array allocated for it. -/
abbrev RawString := { s : Bytes // s.length < MAX_ARRAY_ALLOC_SIZE }

/-- `unpack` of a `std::vector<char>`: its size as an `unsigned_int`, which is bounded, and as many
bytes. -/
def unpackVectorChar (maxDepth : Nat) : UnpackM RawString := do
  ofExcept (fcAssert (0 < maxDepth) "_max_depth > 0")
  let size ← unpackUnsignedInt
  if h : size.toNat < MAX_ARRAY_ALLOC_SIZE then do
    let value ← streamRead size.toNat
    return ⟨value.val, value.property.trans_lt h⟩
  else throw (.assert "size.value < MAX_ARRAY_ALLOC_SIZE")

/-- `fc::string`. It is read as a vector, one level down. -/
def rawString (maxDepth : Nat) : RawCodec RawString where
  pack v := do
    fcAssert (0 < maxDepth) "_max_depth > 0"
    return packUnsignedInt (UInt64.ofNat v.val.length) ++ v.val
  unpack := do
    ofExcept (fcAssert (0 < maxDepth) "_max_depth > 0")
    unpackVectorChar (maxDepth - 1)

theorem runs_streamRead {b rest : Bytes} {size : Nat} (h : b.length = size) :
    Runs (streamRead size) (b ++ rest) ⟨b, h⟩ rest := by
  subst h
  simp [Runs, streamRead]

theorem rawString_undoes (d : Nat) : (rawString (d + 2)).Undoes := by
  intro v
  have hsize : (UInt64.ofNat v.val.length).toNat = v.val.length :=
    UInt64.toNat_ofNat_of_lt (v.property.trans (by decide))
  have hroom : (UInt64.ofNat v.val.length).toNat < MAX_ARRAY_ALLOC_SIZE := hsize.trans_lt v.property
  refine ⟨packUnsignedInt (UInt64.ofNat v.val.length) ++ v.val, ?_, fun rest => ?_⟩
  · exact except_bind_ok.mpr ⟨(), by simp, rfl⟩
  · rw [List.append_assoc]
    simp only [rawString, unpackVectorChar, Nat.add_one_sub_one]
    rw [runs_bind_ofExcept]
    refine ⟨(), by simp, ?_⟩
    rw [runs_bind_ofExcept]
    refine ⟨(), by simp, ?_⟩
    rw [runs_bind]
    refine ⟨_, _, unsignedInt_undoes.runs rfl, ?_⟩
    rw [dif_pos hroom, runs_bind]
    exact ⟨_, _, runs_streamRead hsize.symm, runs_pure.mpr ⟨rfl, rfl⟩⟩

end BtcmChain
