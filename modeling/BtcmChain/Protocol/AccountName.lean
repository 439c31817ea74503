import BtcmChain.Fc.Text
import BtcmChain.Protocol.Authority

set_option autoImplicit false

/-!
# Scanning account names

`is_valid_account_name` as the source writes it: a window `[begin, end)` moves over the bytes of
the name from dot to dot, and the characters are read by their index.

`scanLabel` looks at one window, `scanLabels` moves it on, and `scanAccountName` checks the length
first, as `is_valid_account_name` does. Reading at or behind the end of the name is an error here,
so that a result says that no index was out of range, and the rounds of the outer loop are bounded
by the length. `scanAccountName_eq` has what the loops come to: the name is split at its dots, and
each part is a label.
-/

namespace BtcmChain

/-- The characters that may stand inside a label: letters, digits and the hyphen. -/
def isNameInner (c : Char) : Bool := isNameLetter c || isNameDigit c || c = '-'

/-- The checks of one label, which stands in the window `[begin, end_)` of the name. -/
def scanLabel (name : Text) (begin end_ : Nat) : Except Exn Bool := do
  if Text.distance end_ begin < 3 then return false
  unless isNameLetter (← name.charAt begin) do return false
  let last ← name.charAt (Text.distance end_ 1)
  unless isNameLetter last || isNameDigit last do return false
  (List.range' (begin + 1) (Text.distance end_ 1 - (begin + 1))).allM fun i => do
    return isNameInner (← name.charAt i)

/-- The loop over the labels of the name, from position `begin` on; `fuel` bounds its rounds. -/
def scanLabels (name : Text) : Nat → Nat → Except Exn Bool
  | 0, _ => .error .outOfFuel
  | fuel + 1, begin => do
      let end_ := (name.findFrom '.' begin).getD name.length
      unless ← scanLabel name begin end_ do return false
      if end_ = name.length then return true
      scanLabels name fuel (end_ + 1)

/-- `is_valid_account_name`: the length is checked and then every label. Each label takes a byte at
least, so the rounds suffice. -/
def scanAccountName (name : Text) : Except Exn Bool :=
  if name.length < 3 then .ok false
  else if 16 < name.length then .ok false
  else scanLabels name (name.length + 1) 0

/-! ## One window -/

/-- A loop over the positions of `mid` looks at its characters. -/
theorem allM_charAt (pre mid post : Text) (ok : Char → Bool) :
    ((List.range' pre.length mid.length).allM fun i => do
      return ok (← Text.charAt (pre ++ (mid ++ post)) i)) = Except.ok (ε := Exn) (mid.all ok) := by
  induction mid generalizing pre with
  | nil => rfl
  | cons c mid ih =>
      have hrest := ih (pre ++ [c])
      simp only [List.append_assoc, List.cons_append, List.nil_append, List.length_append,
        List.length_cons, List.length_nil, zero_add] at hrest
      rw [List.length_cons, List.range'_succ]
      simp only [List.allM, List.cons_append, Text.charAt_append, except_ok_bind, List.all_cons]
      cases hc : ok c
      · rfl
      · exact hrest

/-- A word of two characters or more has a first, a last, and an inside. -/
theorem exists_ends {l : Text} (h : 2 ≤ l.length) :
    ∃ first inner last, l = first :: (inner ++ [last]) := by
  obtain ⟨first, l, rfl⟩ := List.exists_cons_of_length_pos (by omega : 0 < l.length)
  have hne : l ≠ [] := by
    rintro rfl
    simp at h
  exact ⟨first, l.dropLast, l.getLast hne, by rw [List.dropLast_append_getLast]⟩

theorem isValidLabel_ends {first last : Char} {inner : List Char} (h : inner ≠ []) :
    isValidLabel (first :: (inner ++ [last])) =
      (isNameLetter first && (isNameLetter last || isNameDigit last) && inner.all isNameInner) := by
  have hlong : 3 ≤ (first :: (inner ++ [last])).length := by
    have := List.length_pos_iff.mpr h
    simp
    omega
  have hlast : (first :: (inner ++ [last])).getLast? = some last := by
    rw [← List.cons_append, List.getLast?_concat]
  simp only [isValidLabel, hlong, hlast, decide_true, Bool.true_and, List.head?_cons,
    Option.elim_some, List.tail_cons, List.dropLast_concat]
  rfl

/-- The window on a word answers whether the word is a label, and reads nothing outside it. -/
theorem scanLabel_word (pre word post : Text)
    (hlen : (pre ++ (word ++ post)).length < 2 ^ 64) :
    scanLabel (pre ++ (word ++ post)) pre.length (pre.length + word.length) =
      .ok (isValidLabel word) := by
  simp only [List.length_append] at hlen
  have hsize : Text.distance (pre.length + word.length) pre.length = word.length := by
    rw [Text.distance_of_le] <;> omega
  rw [scanLabel, hsize]
  by_cases hshort : word.length < 3
  · simp [hshort, isValidLabel, show ¬ 3 ≤ word.length by omega]
    rfl
  · obtain ⟨first, inner, last, rfl⟩ := exists_ends (l := word) (by omega)
    have hlast : Text.distance (pre.length + (first :: (inner ++ [last])).length) 1 =
        (pre ++ first :: inner).length := by
      rw [Text.distance_of_le] <;> simp at hlen ⊢ <;> omega
    have hcharLast : Text.charAt (pre ++ (first :: (inner ++ [last]) ++ post))
        (pre ++ first :: inner).length = .ok last := by
      simpa using Text.charAt_append (pre ++ first :: inner) last post
    have hinner : ((List.range' (pre.length + 1) inner.length).allM fun i => do
        return isNameInner (← Text.charAt (pre ++ (first :: (inner ++ [last]) ++ post)) i)) =
          Except.ok (ε := Exn) (inner.all isNameInner) := by
      simpa using allM_charAt (pre ++ [first]) inner ([last] ++ post) isNameInner
    have hcount : (pre ++ first :: inner).length - (pre.length + 1) = inner.length := by
      simp
      omega
    rw [hlast, hcharLast, hcount, hinner, if_neg hshort, List.cons_append, Text.charAt_append]
    rw [isValidLabel_ends (by intro h; simp [h] at hshort)]
    simp only [except_ok_bind]
    cases isNameLetter first
    · rfl
    · cases isNameLetter last || isNameDigit last <;> rfl

/-! ## The walk over the labels -/

/-- From the beginning of a word on, the loop checks the words between the dots. -/
theorem scanLabels_words {fuel : Nat} (pre rest : Text) (hfuel : rest.length < fuel)
    (hlen : (pre ++ rest).length < 2 ^ 64) :
    scanLabels (pre ++ rest) fuel pre.length = .ok ((rest.splitOn '.').all isValidLabel) := by
  induction fuel generalizing pre rest with
  | zero => omega
  | succ fuel ih =>
      by_cases hdot : '.' ∈ rest
      · obtain ⟨word, rest, rfl, hword⟩ := List.eq_append_cons_of_mem hdot
        rw [scanLabels, Text.findFrom_first pre rest hword, Option.getD_some, scanLabel_word pre word ('.' :: rest) hlen,
          List.splitOn_append_cons_self_of_not_mem hword, List.all_cons]
        simp only [List.length_append, List.length_cons] at hfuel hlen
        have hnext := ih (pre ++ word ++ ['.']) rest (by omega) (by
          simp only [List.length_append, List.length_cons, List.length_nil]
          omega)
        have hpos : (pre ++ word ++ ['.']).length = pre.length + word.length + 1 := by
          simp only [List.length_append, List.length_cons, List.length_nil]
        simp only [List.append_assoc, List.cons_append, List.nil_append] at hnext hpos
        rw [hpos] at hnext
        have hdiff : pre.length + word.length ≠ (pre ++ (word ++ '.' :: rest)).length := by
          simp only [List.length_append, List.length_cons]
          omega
        simp only [except_ok_bind, hdiff, if_false, hnext]
        cases isValidLabel word <;> rfl
      · have hend : (pre ++ rest).length = pre.length + (rest.length) := List.length_append
        have hscan := scanLabel_word pre rest [] (by simpa using hlen)
        rw [List.append_nil] at hscan
        rw [scanLabels, Text.findFrom_eq_none pre hdot, Option.getD_none, hend, hscan,
          List.splitOn_eq_singleton hdot]
        simp only [except_ok_bind, if_true, List.all_cons, List.all_nil, Bool.and_true]
        cases isValidLabel rest <;> rfl

/-- The scan always ends, reads nothing outside the name, and answers for the words between the
dots. -/
theorem scanAccountName_eq (name : Text) :
    scanAccountName name =
      .ok (decide (3 ≤ name.length) && decide (name.length ≤ 16) &&
        (name.splitOn '.').all isValidLabel) := by
  unfold scanAccountName
  split
  · simp [show ¬ 3 ≤ name.length by omega]
  · split
    · simp [show ¬ name.length ≤ 16 by omega]
    · have hscan := scanLabels_words [] name (Nat.lt_succ_self _) (by simp only [List.nil_append]; omega)
      simpa [show 3 ≤ name.length by omega, show name.length ≤ 16 by omega] using hscan

end BtcmChain
