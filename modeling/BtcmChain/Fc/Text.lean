import BtcmChain.Fc.Safe

set_option autoImplicit false

/-!
# Byte strings

A `std::string` is the list of its bytes, and a byte is written as the character of its code.
Positions are `size_t`: a search that finds nothing answers `npos` (`none`), and a difference of
positions wraps around.

So Lean's strings and literals stand for those of the source: `ofString` encodes a string in UTF-8,
and on ASCII it changes nothing (`ofString_ascii`). Classes of characters are those of Lean, which
on bytes are those of the C locale (`isAlpha_iff` and others). Searching for a character is `find`
and `findFrom`, whose lemmas say that the position found is the first one.
-/

namespace BtcmChain

/-- A `std::string`: a list of characters, each of which stands for one byte. -/
abbrev Text := List Char

/-- A step that succeeds hands its result on to what follows it. -/
@[simp] theorem except_ok_bind {α β : Type} {a : α} {f : α → Except Exn β} :
    (Except.ok a >>= f) = f a := rfl

namespace Text

theorem isUpper_iff {c : Char} : c.isUpper = true ↔ 65 ≤ c.toNat ∧ c.toNat ≤ 90 :=
  decide_eq_true_iff

theorem isLower_iff {c : Char} : c.isLower = true ↔ 97 ≤ c.toNat ∧ c.toNat ≤ 122 := by
  change (decide _ && decide _) = true ↔ _
  rw [Bool.and_eq_true, decide_eq_true_iff, decide_eq_true_iff]
  exact Iff.rfl

theorem isDigit_iff {c : Char} : c.isDigit = true ↔ 48 ≤ c.toNat ∧ c.toNat ≤ 57 := by
  change (decide _ && decide _) = true ↔ _
  rw [Bool.and_eq_true, decide_eq_true_iff, decide_eq_true_iff]
  exact Iff.rfl

theorem isAlpha_iff {c : Char} : c.isAlpha = true ↔ c.isUpper = true ∨ c.isLower = true :=
  Bool.or_eq_true_iff

/-- The bytes that a string is stored in, which is its encoding in UTF-8. -/
def ofString (s : String) : Text :=
  s.toList.flatMap fun c => (String.utf8EncodeChar c).map fun b => Char.ofNat b.toNat

/-- `s[i]`, which is undefined for an index at or behind the end of the text. -/
def charAt (s : Text) (i : Nat) : Except Exn Char := s[i]?.elim (.error .undefined) .ok

/-- `find_first_of( c, pos )`: the first position from `pos` on where the character stands. -/
def findFrom (s : Text) (c : Char) (pos : Nat) : Option Nat :=
  ((s.drop pos).findIdx? (· = c)).map (pos + ·)

/-- `find( c )`: the first position in the whole text where the character stands. -/
def find (s : Text) (c : Char) : Option Nat := s.findFrom c 0

/-- The difference `a - b` of two positions, which are unsigned numbers of 64 bits and wrap. -/
def distance (a b : Nat) : Nat := (a + 2 ^ 64 - b) % 2 ^ 64

@[simp] theorem length_ofString (s : String) : (ofString s).length = s.utf8ByteSize := by
  have hbytes : s.toList.utf8Encode.size = s.utf8ByteSize := by
    rw [String.utf8Encode_toList, String.size_toByteArray]
  rw [← hbytes]
  simp [ofString, List.utf8Encode, List.length_flatMap]

theorem utf8EncodeChar_ascii {c : Char} (h : c.toNat < 128) :
    (String.utf8EncodeChar c).map (fun b => Char.ofNat b.toNat) = [c] := by
  have hsize : c.utf8Size = 1 := by
    rw [Char.utf8Size_eq_one_iff, UInt32.le_iff_toNat_le]
    exact Nat.le_of_lt_succ h
  have hbyte : c.val.toUInt8.toNat = c.toNat := by
    rw [UInt32.toNat_toUInt8]
    exact Nat.mod_eq_of_lt (by simpa using Nat.lt_trans h (by decide))
  rw [String.utf8EncodeChar_eq_singleton hsize, List.map_singleton, hbyte, Char.ofNat_toNat]

/-- A string of ASCII characters is stored as it is written, one byte for each character. -/
theorem ofString_ascii {s : String} (h : ∀ c ∈ s.toList, c.toNat < 128) : ofString s = s.toList := by
  rw [ofString, List.flatMap_congr fun c hc => utf8EncodeChar_ascii (h c hc)]
  simp

/-- The last byte of any other character is no ASCII character. -/
theorem exists_high_byte {c : Char} (h : 128 ≤ c.toNat) :
    ∃ b ∈ String.utf8EncodeChar c, 128 ≤ b.toNat := by
  have hhigh : ∀ x : UInt8, 128 ≤ (x ||| 0x80).toNat := by
    intro x
    rw [UInt8.toNat_or]
    exact Nat.right_le_or
  have hsize : c.utf8Size ≠ 1 := by
    rw [ne_eq, Char.utf8Size_eq_one_iff, UInt32.le_iff_toNat_le]
    exact fun hle => absurd (Nat.lt_succ_of_le hle) (by simpa using h)
  obtain h1 | h2 | h3 | h4 := Char.utf8Size_eq c
  · exact absurd h1 hsize
  · rw [String.utf8EncodeChar_eq_cons_cons h2]
    exact ⟨_, by simp, hhigh (c.val.toUInt8 &&& 0x3f)⟩
  · rw [String.utf8EncodeChar_eq_cons_cons_cons h3]
    exact ⟨_, by simp, hhigh (c.val.toUInt8 &&& 0x3f)⟩
  · rw [String.utf8EncodeChar_eq_cons_cons_cons_cons h4]
    exact ⟨_, by simp, hhigh (c.val.toUInt8 &&& 0x3f)⟩

theorem exists_mem_ofString {s : String} {c : Char} (hc : c ∈ s.toList) (h : 128 ≤ c.toNat) :
    ∃ b ∈ ofString s, 128 ≤ b.toNat := by
  obtain ⟨b, hb, hhigh⟩ := exists_high_byte h
  refine ⟨Char.ofNat b.toNat, List.mem_flatMap.mpr ⟨c, hc, List.mem_map_of_mem hb⟩, ?_⟩
  have hlt : b.toNat < 256 := b.toNat_lt
  have hvalid : b.toNat.isValidChar := Or.inl (by omega)
  rw [Char.ofNat, dif_pos hvalid]
  exact hhigh

theorem distance_of_le {a b : Nat} (h : b ≤ a) (ha : a < 2 ^ 64) : distance a b = a - b := by
  unfold distance
  omega

@[simp] theorem charAt_append (pre : Text) (c : Char) (post : Text) :
    charAt (pre ++ c :: post) pre.length = .ok c := by
  simp [charAt]

theorem findFrom_eq_none (pre : Text) {l : Text} {c : Char} (h : c ∉ l) :
    findFrom (pre ++ l) c pre.length = none := by
  rw [findFrom, List.drop_left, Option.map_eq_none_iff, List.findIdx?_eq_none_iff]
  intro a ha
  simp [show a ≠ c from fun e => h (e ▸ ha)]

/-- The first occurrence of a character lies behind everything from the starting position on that is
another character. -/
theorem findFrom_first (pre : Text) {mid : Text} (post : Text) {c : Char} (h : c ∉ mid) :
    findFrom (pre ++ (mid ++ c :: post)) c pre.length = some (pre.length + mid.length) := by
  have hmid : mid.findIdx? (fun a => decide (a = c)) = none := by
    rw [List.findIdx?_eq_none_iff]
    intro a ha
    simp [show a ≠ c from fun e => h (e ▸ ha)]
  rw [findFrom, List.drop_left, List.findIdx?_append, hmid]
  simp [List.findIdx?_cons]

theorem find_eq_none {s : Text} {c : Char} (h : c ∉ s) : find s c = none :=
  findFrom_eq_none [] h

theorem find_first {mid : Text} (post : Text) {c : Char} (h : c ∉ mid) :
    find (mid ++ c :: post) c = some mid.length := by
  simpa [find] using findFrom_first [] post h

end Text

end BtcmChain
