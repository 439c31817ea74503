import BtcmChain.Fc.Text

set_option autoImplicit false

/-!
# Scanning asset symbols

`is_valid_symbol` as the source writes it: one loop over the bytes of the symbol, with a flag for the
dot. `asset_create` takes a symbol apart at its last dot.

The loop is `scanSymbolFrom`: it is told whether the dot has been seen, and leaves at the first
character that may not stand there. `rfind` is that of `std::string`, which answers with the last
position or with none at all (`rfind_last`, `rfind_eq_none`). What is accepted, and how it splits
into parent and rest, is shown in `Sound.AssetSymbol`.
-/

namespace BtcmChain

def BTCM_MIN_ASSET_SYMBOL_LENGTH : Nat := 2

def BTCM_MAX_ASSET_SYMBOL_LENGTH : Nat := 13

/-- The loop of `is_valid_symbol` over the characters of the symbol, with `dot_already_present`. -/
def scanSymbolFrom : Bool → Text → Bool
  | _, [] => true
  | dotAlreadyPresent, c :: rest =>
      if (c.isAlpha && c.isUpper) || c.isDigit then scanSymbolFrom dotAlreadyPresent rest
      else if c = '.' then
        if dotAlreadyPresent then false else scanSymbolFrom true rest
      else false

/-- `is_valid_symbol`. The first character is only asked to be a letter. -/
def scanSymbol (symbol : Text) : Bool :=
  if symbol.length < BTCM_MIN_ASSET_SYMBOL_LENGTH then false
  else if BTCM_MAX_ASSET_SYMBOL_LENGTH < symbol.length then false
  else if symbol.head?.any Char.isAlpha = false then false
  else scanSymbolFrom false symbol

namespace Text

/-- `rfind( c )`: the last position in the text where the character stands. -/
def rfind (s : Text) (c : Char) : Option Nat :=
  (s.reverse.findIdx? (· = c)).map fun i => s.length - 1 - i

theorem rfind_eq_none {s : Text} {c : Char} (h : c ∉ s) : rfind s c = none := by
  rw [rfind, Option.map_eq_none_iff, List.findIdx?_eq_none_iff]
  intro a ha
  simp [show a ≠ c from fun e => h (e ▸ List.mem_reverse.mp ha)]

/-- The last occurrence of a character lies before everything at the end that is another character.
-/
theorem rfind_last (pre : Text) {post : Text} {c : Char} (h : c ∉ post) :
    rfind (pre ++ c :: post) c = some pre.length := by
  have hpost : post.reverse.findIdx? (fun a => decide (a = c)) = none := by
    rw [List.findIdx?_eq_none_iff]
    intro a ha
    simp [show a ≠ c from fun e => h (e ▸ List.mem_reverse.mp ha)]
  rw [rfind, List.reverse_append, List.reverse_cons, List.append_assoc, List.findIdx?_append, hpost]
  simp only [List.findIdx?_append, List.findIdx?_singleton, decide_true, if_true, Option.none_or,
    Option.map_some, Option.some_or, List.length_append, List.length_cons, List.length_reverse]
  congr 1
  omega

theorem exists_last {s : Text} {c : Char} (h : c ∈ s) : ∃ pre post, s = pre ++ c :: post ∧ c ∉ post := by
  obtain ⟨post, pre, hs, hpost⟩ := List.eq_append_cons_of_mem (List.mem_reverse.mpr h)
  refine ⟨pre.reverse, post.reverse, ?_, fun hmem => hpost (List.mem_reverse.mp hmem)⟩
  rw [← List.reverse_reverse s, hs]
  simp

end Text

end BtcmChain
