import BtcmChain.Lib.Effect
import Mathlib.Data.Int.Basic
import Mathlib.Tactic.Ring

set_option autoImplicit false

/-!
# `fc`: exceptions, `safe<int64_t>` and `uint128`

The arithmetic vocabulary of the chain. `safe<int64_t>` is `Int64` with the
checked operators below: each computes the exact result and throws when it does
not fit, so the specification of a success is always an equation between the
exact integers (`safeAdd_ok` and its siblings). `uint128` is `BitVec 128` with
wrapping multiplication; a signed 64-bit operand is *sign-extended* into it, as
the constructor `uint128(int64_t)` does. Narrowing a `uint64_t` into a
`share_type` reinterprets its top bit as a sign (`ShareType.ofUInt64`).
-/

namespace BtcmChain

/-- Everything a node can throw while it applies an operation or a block. All
variants are equally fatal to the operation; they are told apart for the reader. -/
inductive Exn where
  /-- `FC_ASSERT` and `FC_THROW`, with the text that the source gives them. -/
  | assert (msg : String)
  | overflow
  | underflow
  | divideByZero
  /-- An iteration left its range (undefined behaviour of the source). -/
  | undefined
  /-- A loop of the model was given too few iterations. -/
  | outOfFuel
  deriving DecidableEq, Repr

/-- `FC_ASSERT( c, msg )`: go on where the condition holds, and throw with the message otherwise. -/
def fcAssert (c : Bool) (msg : String) : Except Exn Unit :=
  if c then .ok () else .error (.assert msg)

@[simp] theorem fcAssert_ok {c : Bool} {msg : String} {u : Unit} :
    fcAssert c msg = .ok u ↔ c = true := by
  simp [fcAssert]

/-- `safe<int64_t>`: a signed number of 64 bits whose operators throw where they would overflow. -/
abbrev ShareType := Int64

/-- Fit an exact result into 64 signed bits, or throw. -/
def checked (z : ℤ) : Except Exn ShareType :=
  if 2 ^ 63 - 1 < z then .error .overflow
  else if z < -2 ^ 63 then .error .underflow
  else .ok (Int64.ofInt z)

theorem checked_ok {z : ℤ} {x : ShareType} : checked z = .ok x ↔ x.toInt = z := by
  have hlt := x.toInt_lt
  have hge := x.le_toInt
  simp only [checked]
  split
  · simp; omega
  · split
    · simp; omega
    · rw [Except.ok.injEq, ← Int64.toInt_inj, Int64.toInt_ofInt_of_le (by omega) (by omega)]
      exact eq_comm

/-- A result that 64 bits can represent is always delivered by a checked operation. -/
theorem checked_of_range {z : ℤ} (h1 : -2 ^ 63 ≤ z) (h2 : z < 2 ^ 63) :
    checked z = .ok (Int64.ofInt z) :=
  checked_ok.mpr (Int64.toInt_ofInt_of_le h1 h2)

/-! ## Checked operators -/

/-- `safe::operator+`, which throws when the sum leaves the range of 64 bits. -/
def safeAdd (a b : ShareType) : Except Exn ShareType := checked (a.toInt + b.toInt)

/-- `safe::operator-`, which throws when the difference leaves the range of 64 bits. -/
def safeSub (a b : ShareType) : Except Exn ShareType := checked (a.toInt - b.toInt)

/-- `safe::operator*`, which throws when the product leaves the range of 64 bits. -/
def safeMul (a b : ShareType) : Except Exn ShareType := checked (a.toInt * b.toInt)

/-- Unary `safe::operator-`, which throws for the smallest number, since its negative is not
representable. -/
def safeNeg (a : ShareType) : Except Exn ShareType := checked (-a.toInt)

/-- `safe::operator/`, which truncates towards zero and throws on a zero divisor. -/
def safeDiv (a b : ShareType) : Except Exn ShareType :=
  if b = 0 then .error .divideByZero else checked (a.toInt.tdiv b.toInt)

/-- `safe::operator%`; the remainder has the sign of the dividend, and a zero divisor throws. -/
def safeMod (a b : ShareType) : Except Exn ShareType :=
  if b = 0 then .error .divideByZero
  else if a.toInt = -2 ^ 63 ∧ b.toInt = -1 then .error .overflow
  else checked (a.toInt.tmod b.toInt)

@[simp] theorem safeAdd_ok {a b c : ShareType} :
    safeAdd a b = .ok c ↔ c.toInt = a.toInt + b.toInt := checked_ok

@[simp] theorem safeSub_ok {a b c : ShareType} :
    safeSub a b = .ok c ↔ c.toInt = a.toInt - b.toInt := checked_ok

@[simp] theorem safeMul_ok {a b c : ShareType} :
    safeMul a b = .ok c ↔ c.toInt = a.toInt * b.toInt := checked_ok

@[simp] theorem safeNeg_ok {a c : ShareType} :
    safeNeg a = .ok c ↔ c.toInt = -a.toInt := checked_ok

theorem toInt_ne_zero {b : ShareType} : b.toInt ≠ 0 ↔ b ≠ 0 := by
  rw [ne_eq, ne_eq, ← Int64.toInt_zero, Int64.toInt_inj]

@[simp] theorem safeDiv_ok {a b c : ShareType} :
    safeDiv a b = .ok c ↔ b ≠ 0 ∧ c.toInt = a.toInt.tdiv b.toInt := by
  simp only [safeDiv]
  split <;> simp [*, checked_ok]

/-! ## `uint128` -/

/-- `fc::uint128`: an unsigned number of 128 bits, whose arithmetic wraps. -/
abbrev UInt128 := BitVec 128

namespace UInt128

/-- `uint128(int64_t)`, which extends the sign, so that a negative amount becomes a very large
number. -/
def ofShare (x : ShareType) : UInt128 := BitVec.ofInt 128 x.toInt

/-- `uint128(uint64_t)`, which keeps the value and fills the high half with zeros. -/
def ofUInt64 (x : UInt64) : UInt128 := BitVec.ofNat 128 x.toNat

/-- `uint128(uint32_t)`, which keeps the value, as the conversion from 64 bits does. -/
def ofUInt32 (x : UInt32) : UInt128 := BitVec.ofNat 128 x.toNat

/-- `operator/=` of `uint128`; the underlying division throws on a zero divisor. -/
def div (a b : UInt128) : Except Exn UInt128 :=
  if b = 0 then .error .divideByZero else .ok (a / b)

/-- `to_uint64` of a `uint128`, which asserts that the high half of the number is zero. -/
def toUInt64 (a : UInt128) : Except Exn UInt64 :=
  if a.toNat < 2 ^ 64 then .ok (UInt64.ofNat a.toNat) else .error (.assert "hi == 0")

theorem toNat_ofShare {x : ShareType} (h : 0 ≤ x.toInt) : (ofShare x).toNat = x.toInt.toNat := by
  have hlt := x.toInt_lt
  simp only [ofShare, BitVec.toNat_ofInt]
  congr 1
  exact Int.emod_eq_of_lt h (by omega)

@[simp] theorem toNat_ofUInt64 (x : UInt64) : (ofUInt64 x).toNat = x.toNat := by
  have := x.toNat_lt
  simp only [ofUInt64, BitVec.toNat_ofNat]
  exact Nat.mod_eq_of_lt (by omega)

@[simp] theorem toNat_ofUInt32 (x : UInt32) : (ofUInt32 x).toNat = x.toNat := by
  have := x.toNat_lt
  simp only [ofUInt32, BitVec.toNat_ofNat]
  exact Nat.mod_eq_of_lt (by omega)

@[simp] theorem div_ok {a b c : UInt128} : div a b = .ok c ↔ b ≠ 0 ∧ c = a / b := by
  simp only [div]
  split
  case isTrue h => simp [h]
  case isFalse h => simp only [Except.ok.injEq, ne_eq, h, not_false_eq_true, true_and]; exact eq_comm

theorem toUInt64_ok {a : UInt128} {c : UInt64} : toUInt64 a = .ok c ↔ c.toNat = a.toNat := by
  have hc := c.toNat_lt
  simp only [toUInt64]
  split
  case isTrue h =>
    rw [Except.ok.injEq, ← UInt64.toNat_inj, UInt64.toNat_ofNat_of_lt' h]
    exact eq_comm
  case isFalse h => simp; omega

end UInt128

/-- `share_type( uint32_t )`, which keeps the value, since 64 bits with a sign have room for it. -/
def ShareType.ofUInt32 (x : UInt32) : ShareType := Int64.ofNat x.toNat

@[simp] theorem ShareType.toInt_ofUInt32 (x : UInt32) : (ShareType.ofUInt32 x).toInt = x.toNat := by
  have hx := x.toNat_lt
  exact Int64.toInt_ofNat_of_lt (by omega)

/-- `share_type( uint64_t )`: the same 64 bits, read as signed. -/
def ShareType.ofUInt64 (x : UInt64) : ShareType := x.toInt64

theorem ShareType.toInt_ofUInt64 (x : UInt64) :
    (ShareType.ofUInt64 x).toInt = if x.toNat < 2 ^ 63 then (x.toNat : ℤ) else x.toNat - 2 ^ 64 := by
  have hx := x.toNat_lt
  have hmod : (ShareType.ofUInt64 x).toInt = (x.toNat : ℤ).bmod (2 ^ 64) := by
    show x.toBitVec.toInt = _
    rw [BitVec.toInt_eq_toNat_bmod]
    rfl
  rw [hmod, Int.bmod_def]
  have hemod : (x.toNat : ℤ) % ((2 ^ 64 : ℕ) : ℤ) = x.toNat := Int.emod_eq_of_lt (by omega) (by omega)
  rw [hemod]
  split <;> split <;> omega

end BtcmChain
