import BtcmChain.Fc.Text
import BtcmChain.Lib.Decimal

set_option autoImplicit false

/-!
# Numbers as text

`std::to_string` and `std::stoll`, and the conversions of `fc`, which come from Boost. Boost is a
*parameter* (`Boost`); what is relied on is that it writes and reads decimal numerals, and that it
trims nothing but space (`LawfulBoost`).

`stoll` skips space, takes an optional sign and then as many digits as there are, and throws if the
number does not fit into 64 signed bits, while the conversions of `fc` want the whole text to be
the numeral. So the same text may be a number for the one and an error for the other, which is why
both are modelled. The last lemmas say what these functions make of the numeral of a number.
-/

namespace BtcmChain

open Decimal

namespace Text

/-- `isspace`, in the classic locale: the blank, and the five control characters from the tabulator
on. -/
def isSpace (c : Char) : Bool := c = ' ' || (decide (9 ≤ c.toNat) && decide (c.toNat ≤ 13))

/-- `std::to_string` of an integer: its decimal digits, behind a minus sign where it is negative. -/
def ofInt (z : ℤ) : Text :=
  if z < 0 then '-' :: Nat.toDigits 10 z.natAbs else Nat.toDigits 10 z.natAbs

/-- `substr( pos, count )`; nobody asks for a position behind the end. -/
def substr (s : Text) (pos count : Nat) : Text := (s.drop pos).take count

/-- A sign, and what stands behind it; a text without a sign is taken as positive. -/
def splitSign : Text → Bool × Text
  | '-' :: l => (true, l)
  | '+' :: l => (false, l)
  | l => (false, l)

/-- The number with the sign that was read in front of its digits. -/
def signed (negative : Bool) (n : Nat) : ℤ := if negative then -n else n

/-- `std::stoll`: space, a sign, and as many digits as there are. -/
def stoll (s : Text) : Except Exn Int64 := do
  let (negative, rest) := splitSign (s.dropWhile isSpace)
  let digits := rest.takeWhile Char.isDigit
  fcAssert (digits ≠ []) "std::invalid_argument"
  checked (signed negative (value digits))

/-- Behind a character in the middle of a text, `substr` up to the end of the text gives the rest.
-/
theorem substr_behind (word : Text) (c : Char) (rest : Text) :
    (word ++ c :: rest).substr (word.length + 1) (word ++ c :: rest).length = rest := by
  have hdrop : (word ++ c :: rest).drop (word.length + 1) = rest := by simp
  rw [substr, hdrop]
  exact List.take_of_length_le (by simp; omega)

theorem ofInt_of_nonneg {z : ℤ} (h : 0 ≤ z) : ofInt z = Nat.toDigits 10 z.natAbs :=
  if_neg (not_lt.mpr h)

theorem ofInt_of_neg {z : ℤ} (h : z < 0) : ofInt z = '-' :: Nat.toDigits 10 z.natAbs := if_pos h

/-- The characters of a numeral: a sign perhaps, and digits. -/
theorem mem_ofInt {z : ℤ} {c : Char} (h : c ∈ ofInt z) : c = '-' ∨ c.isDigit = true := by
  by_cases hz : z < 0
  · rw [ofInt_of_neg hz, List.mem_cons] at h
    exact h.imp_right (allDigits_toDigits _ c)
  · rw [ofInt_of_nonneg (not_lt.mp hz)] at h
    exact Or.inr (allDigits_toDigits _ c h)

theorem not_mem_ofInt {z : ℤ} {c : Char} (hminus : c ≠ '-') (hdigit : c.isDigit = false) :
    c ∉ ofInt z := by
  intro h
  obtain h | h := mem_ofInt h
  · exact hminus h
  · simp [hdigit] at h

theorem not_isSpace_of_isDigit {c : Char} (h : c.isDigit = true) : isSpace c = false := by
  have hlow := (isDigit_iff.mp h).1
  have hne : c ≠ ' ' := by
    rintro rfl
    exact absurd hlow (by decide)
  simp only [isSpace, hne, decide_false, Bool.false_or, Bool.and_eq_false_iff,
    decide_eq_false_iff_not]
  omega

theorem ofInt_ne_nil (z : ℤ) : ofInt z ≠ [] := by
  unfold ofInt
  split <;> simp

theorem not_isSpace_of_mem_ofInt {z : ℤ} {c : Char} (h : c ∈ ofInt z) : isSpace c = false := by
  obtain rfl | h := mem_ofInt h
  · rfl
  · exact not_isSpace_of_isDigit h

theorem splitSign_of_isDigit {c : Char} {l : Text} (h : c.isDigit = true) :
    splitSign (c :: l) = (false, c :: l) := by
  unfold splitSign
  split
  · rename_i heq
    cases heq
    exact absurd h (by decide)
  · rename_i heq
    cases heq
    exact absurd h (by decide)
  · rfl

theorem takeWhile_digits {digits rest : Text} (hd : AllDigits digits)
    (hrest : ∀ c, rest.head? = some c → c.isDigit = false) :
    (digits ++ rest).takeWhile Char.isDigit = digits := by
  rw [List.takeWhile_append_of_pos hd]
  cases rest with
  | nil => simp
  | cons c rest => simp [List.takeWhile_cons_of_neg, hrest c rfl]

/-- A numeral is read up to what is no digit. -/
theorem stoll_digits {digits : Text} (rest : Text) {x : Int64} (hne : digits ≠ []) (hd : AllDigits digits)
    (hrest : ∀ c, rest.head? = some c → c.isDigit = false) :
    stoll (digits ++ rest) = .ok x ↔ x.toInt = value digits := by
  have htake := takeWhile_digits hd hrest
  obtain ⟨c, digits, rfl⟩ := List.exists_cons_of_ne_nil hne
  have hc := (allDigits_cons.mp hd).1
  rw [stoll, List.cons_append, List.dropWhile_cons_of_neg (by simp [not_isSpace_of_isDigit hc]),
    splitSign_of_isDigit hc, ← List.cons_append]
  simp only [htake]
  simp [except_bind_ok, checked_ok, signed]

end Text

/-! ## Boost -/

/-- What `fc` takes from Boost: trimming a text, and reading and writing whole numbers. Boost itself
is not part of the sources. -/
class Boost where
  /-- `boost::algorithm::trim_copy`: the text without the blanks at both ends. -/
  trimCopy : Text → Text
  /-- `boost::lexical_cast<std::string>` of an integer: how it is written. -/
  castText : ℤ → Text
  /-- `boost::lexical_cast<int64_t>` of a text, which throws where the text is no such number. -/
  castInt64 : Text → Except Exn Int64
  /-- `boost::lexical_cast<uint64_t>` of a text, which throws where the text is no such number. -/
  castUInt64 : Text → Except Exn UInt64

/-- Integers are written and read in decimal, and only space is trimmed. -/
class LawfulBoost [Boost] : Prop where
  trimCopy_eq : ∀ {s : Text}, (∀ c, s.head? = some c → Text.isSpace c = false) →
    (∀ c, s.getLast? = some c → Text.isSpace c = false) → Boost.trimCopy s = s
  castText_eq : ∀ z : ℤ, Boost.castText z = Text.ofInt z
  castInt64_digits : ∀ {digits : Text} {x : Int64}, digits ≠ [] → AllDigits digits →
    x.toInt = value digits → Boost.castInt64 digits = .ok x
  castInt64_minus : ∀ {digits : Text} {x : Int64}, digits ≠ [] → AllDigits digits →
    x.toInt = -value digits → Boost.castInt64 ('-' :: digits) = .ok x
  castUInt64_digits : ∀ {digits : Text} {x : UInt64}, digits ≠ [] → AllDigits digits →
    x.toNat = value digits → Boost.castUInt64 digits = .ok x

/-- A text without a zero byte is all there is of it. -/
theorem takeWhile_no_zero_byte {s : Text} (h : '\x00' ∉ s) : s.takeWhile (· ≠ '\x00') = s := by
  have hall : ∀ c ∈ s, decide (c ≠ '\x00') = true := fun c hc =>
    decide_eq_true fun e => h (e ▸ hc)
  have happ : (s ++ []).takeWhile (· ≠ '\x00') = s ++ [].takeWhile (· ≠ '\x00') :=
    List.takeWhile_append_of_pos hall
  simpa using happ

section Fc

variable [Boost]

/-- `fc::to_string` of an integer, which leaves the writing to Boost. -/
def fcToString (z : ℤ) : Text := Boost.castText z

/-- `fc::to_int64`, which goes through a `c_str()`: a zero byte ends it. -/
def fcToInt64 (s : Text) : Except Exn Int64 := Boost.castInt64 (s.takeWhile (· ≠ '\x00'))

/-- `fc::to_uint64`: the text goes to Boost as a C string, so it ends at the first zero byte. -/
def fcToUInt64 (s : Text) : Except Exn UInt64 := Boost.castUInt64 (s.takeWhile (· ≠ '\x00'))

/-- `fc::trim` of a text, which leaves the work to Boost. -/
def fcTrim (s : Text) : Text := Boost.trimCopy s

variable [LawfulBoost]

theorem fcToInt64_digits {digits : Text} {x : Int64} (hne : digits ≠ []) (hd : AllDigits digits)
    (hx : x.toInt = value digits) : fcToInt64 digits = .ok x := by
  have hzero : '\x00' ∉ digits := fun h => absurd (hd _ h) (by decide)
  rw [fcToInt64, takeWhile_no_zero_byte hzero]
  exact LawfulBoost.castInt64_digits hne hd hx

/-- The numeral of a signed number is read back as that number. -/
theorem fcToInt64_ofInt (x : Int64) : fcToInt64 (Text.ofInt x.toInt) = .ok x := by
  rw [fcToInt64, takeWhile_no_zero_byte (Text.not_mem_ofInt (by decide) (by decide))]
  by_cases hz : x.toInt < 0
  · rw [Text.ofInt_of_neg hz]
    refine LawfulBoost.castInt64_minus Nat.toDigits_ne_nil (allDigits_toDigits _) ?_
    rw [value_toDigits]
    omega
  · rw [Text.ofInt_of_nonneg (not_lt.mp hz)]
    refine LawfulBoost.castInt64_digits Nat.toDigits_ne_nil (allDigits_toDigits _) ?_
    rw [value_toDigits]
    omega

theorem fcToUInt64_ofInt (x : UInt64) : fcToUInt64 (Text.ofInt x.toNat) = .ok x := by
  rw [fcToUInt64, takeWhile_no_zero_byte (Text.not_mem_ofInt (by decide) (by decide)),
    Text.ofInt_of_nonneg (Int.natCast_nonneg _)]
  refine LawfulBoost.castUInt64_digits Nat.toDigits_ne_nil (allDigits_toDigits _) ?_
  rw [value_toDigits, Int.natAbs_natCast]

end Fc

namespace Sample

open Text

/-- The number of a text that is nothing but a numeral. -/
def lexicalCast (s : Text) : Except Exn ℤ := do
  let (negative, digits) := splitSign s
  fcAssert (digits ≠ [] && digits.all Char.isDigit) "bad_lexical_cast"
  return signed negative (value digits)

/-- A Boost for the runs that this development evaluates: it follows what Boost documents on the
texts that occur there. -/
scoped instance boost : Boost where
  trimCopy s := ((s.dropWhile isSpace).reverse.dropWhile isSpace).reverse
  castText := ofInt
  castInt64 s := do checked (← lexicalCast s)
  castUInt64 s := do
    let z ← lexicalCast s
    fcAssert (z.natAbs < 2 ^ 64) "bad_lexical_cast"
    return UInt64.ofInt z

theorem lexicalCast_digits {digits : Text} (hne : digits ≠ []) (hd : AllDigits digits) :
    lexicalCast digits = .ok (value digits) := by
  have hall : digits.all Char.isDigit = true := List.all_eq_true.mpr hd
  obtain ⟨c, digits, rfl⟩ := List.exists_cons_of_ne_nil hne
  rw [lexicalCast, splitSign_of_isDigit (allDigits_cons.mp hd).1]
  simp only [hall]
  rfl

theorem lexicalCast_minus {digits : Text} (hne : digits ≠ []) (hd : AllDigits digits) :
    lexicalCast ('-' :: digits) = .ok (-value digits) := by
  have hall : digits.all Char.isDigit = true := List.all_eq_true.mpr hd
  obtain ⟨c, digits, rfl⟩ := List.exists_cons_of_ne_nil hne
  rw [lexicalCast, splitSign]
  simp only [hall]
  rfl

instance lawfulBoost : LawfulBoost where
  trimCopy_eq := by
    intro s hhead hlast
    have hfront : ∀ {l : Text}, (∀ c, l.head? = some c → isSpace c = false) →
        l.dropWhile isSpace = l := by
      intro l hl
      cases l with
      | nil => rfl
      | cons c l => exact List.dropWhile_cons_of_neg (by simp [hl c rfl])
    have hback : s.reverse.dropWhile isSpace = s.reverse := hfront (by simpa using hlast)
    simp only [Boost.trimCopy, hfront hhead, hback, List.reverse_reverse]
  castText_eq _ := rfl
  castInt64_digits := by
    intro digits x hne hd hx
    simp only [Boost.castInt64, lexicalCast_digits hne hd, except_ok_bind, checked_ok, hx]
  castInt64_minus := by
    intro digits x hne hd hx
    simp only [Boost.castInt64, lexicalCast_minus hne hd, except_ok_bind, checked_ok, hx]
  castUInt64_digits := by
    intro digits x hne hd hx
    have hlt : (value digits : ℤ).natAbs < 2 ^ 64 := by
      rw [Int.natAbs_natCast, ← hx]
      exact x.toNat_lt
    have hz : UInt64.ofInt (value digits) = x := by
      have hx' : (value digits : ℤ) % 2 ^ 64 = x.toNat := by
        have := x.toNat_lt
        omega
      rw [UInt64.ofInt, hx', Int.toNat_natCast, UInt64.ofNat_toNat]
    simp only [Boost.castUInt64, lexicalCast_digits hne hd, except_ok_bind, hlt, hz]
    rfl

end Sample

end BtcmChain
