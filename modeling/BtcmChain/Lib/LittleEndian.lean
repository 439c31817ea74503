import Mathlib.Data.Nat.Basic
import Mathlib.Tactic.Ring

set_option autoImplicit false

/-!
# Numbers as bytes

A number in a given number of bytes, the lowest first.

Writing (`leBytes`) and reading back (`ofLeBytes`) meet in `ofLeBytes_leBytes`: what is read is the
number modulo the power of 256 it was cut to, and so the number itself if it fits. A string of
bytes is a number below that power (`ofLeBytes_lt`). Formats with integers of a fixed width are
built on these two functions, whose width is a number of bytes and not one of the machine types.
-/

namespace BtcmChain

/-- The lowest `n` bytes of the number `v`, the lowest byte first. -/
def leBytes : Nat → Nat → List UInt8
  | 0, _ => []
  | n + 1, v => UInt8.ofNat v :: leBytes n (v / 256)

/-- The number that some bytes stand for, the lowest byte first. -/
def ofLeBytes : List UInt8 → Nat
  | [] => 0
  | b :: bs => b.toNat + 256 * ofLeBytes bs

@[simp] theorem length_leBytes (n v : Nat) : (leBytes n v).length = n := by
  induction n generalizing v with
  | zero => rfl
  | succ n ih => rw [leBytes, List.length_cons, ih]

theorem ofLeBytes_lt (bs : List UInt8) : ofLeBytes bs < 256 ^ bs.length := by
  induction bs with
  | nil => decide
  | cons b bs ih =>
      have hb := b.toNat_lt
      rw [ofLeBytes, List.length_cons, pow_succ]
      omega

theorem ofLeBytes_leBytes (n v : Nat) : ofLeBytes (leBytes n v) = v % 256 ^ n := by
  induction n generalizing v with
  | zero => rw [pow_zero, Nat.mod_one]; rfl
  | succ n ih =>
      rw [leBytes, ofLeBytes, ih, pow_succ', Nat.mod_mul, UInt8.toNat_ofNat']

/-- A number that fits into `n` bytes is read back from them as it was. -/
theorem ofLeBytes_leBytes_of_lt {n v : Nat} (h : v < 256 ^ n) : ofLeBytes (leBytes n v) = v := by
  rw [ofLeBytes_leBytes, Nat.mod_eq_of_lt h]

@[simp] theorem ofLeBytes_replicate (n : Nat) : ofLeBytes (List.replicate n 0) = 0 := by
  induction n with
  | zero => rfl
  | succ n ih => rw [List.replicate_succ, ofLeBytes, ih]; rfl

end BtcmChain
