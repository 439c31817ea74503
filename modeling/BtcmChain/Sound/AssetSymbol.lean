import BtcmChain.Protocol.AssetSymbol
import BtcmChain.Evaluator.Asset

set_option autoImplicit false
set_option synthInstance.maxSize 10000000
set_option synthInstance.maxHeartbeats 200000

/-!
# The grammar of asset symbols

What `is_valid_symbol` accepts. The documented rules have one for each end, and the scan only knows
that for the front: a digit or the dot itself may stand last. What `asset_create` takes to be the
parent of a sub-asset is a symbol unless it is a single letter.

`SymbolShape` is what the scan enforces, and `SymbolGrammar` what the comment above it promises,
which also wants a capital letter at the end (`EndsInCapital`). `asset_symbol_iff` says exactly on
which symbols the two agree, and `SplitsWell` follows up what this does to sub-assets: the part in
front of the last dot is taken for a symbol, and behind the dot there may be nothing.
-/

namespace BtcmChain

/-- The characters that a symbol is made of: capitals, digits and the dot. -/
def isSymbolChar (c : Char) : Prop := c.isUpper ∨ c.isDigit ∨ c = '.'

/-- The documented rules for a symbol but the one for its end. -/
structure SymbolShape (symbol : Text) : Prop where
  long : BTCM_MIN_ASSET_SYMBOL_LENGTH ≤ symbol.length
  short : symbol.length ≤ BTCM_MAX_ASSET_SYMBOL_LENGTH
  first : ∃ c, symbol.head? = some c ∧ c.isUpper
  inner : ∀ c ∈ symbol, isSymbolChar c
  dots : symbol.count '.' ≤ 1

/-- The symbol ends in a capital, as the documentation wants it. -/
def EndsInCapital (symbol : Text) : Prop := ∃ c, symbol.getLast? = some c ∧ c.isUpper

/-- All the documented rules for a symbol, the one for its end included. -/
structure SymbolGrammar (symbol : Text) : Prop extends SymbolShape symbol where
  last : EndsInCapital symbol

/-- The parent of a sub-asset is a possible symbol, and something stands behind the dot. -/
def SplitsWell (symbol : Text) : Prop :=
  ∀ dotpos, symbol.rfind '.' = some dotpos →
    scanSymbol (symbol.take dotpos) = true ∧ symbol.drop (dotpos + 1) ≠ []

/-! ## The scan -/

section Scan

variable {symbol : Text} {c : Char}

theorem isSymbolChar_of_ne_dot (h : c ≠ '.') :
    isSymbolChar c ↔ ((c.isAlpha && c.isUpper) || c.isDigit) = true := by
  simp only [isSymbolChar, h, or_false, Text.isAlpha_iff, Bool.or_eq_true, Bool.and_eq_true]
  tauto

/-- The loop counts the dots of a symbol with one bit, since it gives up at the second one. -/
theorem scanSymbolFrom_iff {dot : Bool} : scanSymbolFrom dot symbol = true ↔
    (∀ c ∈ symbol, isSymbolChar c) ∧ dot.toNat + symbol.count '.' ≤ 1 := by
  induction symbol generalizing dot with
  | nil => cases dot <;> simp [scanSymbolFrom]
  | cons c rest ih =>
      by_cases hdot : c = '.'
      · subst hdot
        have hchar : isSymbolChar '.' := Or.inr (Or.inr rfl)
        rw [scanSymbolFrom, if_neg (by decide), if_pos rfl, List.count_cons_self]
        cases dot with
        | true => simp
        | false => simp [ih, hchar]
      · have hchar := isSymbolChar_of_ne_dot hdot
        have hcount : (c :: rest).count '.' = rest.count '.' := List.count_cons_of_ne hdot
        rw [scanSymbolFrom, hcount, List.forall_mem_cons, hchar]
        by_cases hok : ((c.isAlpha && c.isUpper) || c.isDigit) = true
        · rw [if_pos hok, ih]
          simp [hok]
        · rw [if_neg hok, if_neg hdot]
          simp [hok]

theorem isAlpha_eq_false_of_isDigit (h : c.isDigit = true) : c.isAlpha = false := by
  rw [Text.isDigit_iff] at h
  rw [Bool.eq_false_iff, ne_eq, Text.isAlpha_iff, Text.isUpper_iff, Text.isLower_iff]
  omega

/-- A letter that the loop lets pass is a capital. -/
theorem isUpper_of_isAlpha (halpha : c.isAlpha = true) (h : isSymbolChar c) : c.isUpper = true := by
  obtain h | h | rfl := h
  · exact h
  · rw [isAlpha_eq_false_of_isDigit h] at halpha
    cases halpha
  · exact absurd halpha (by decide)

theorem scanSymbol_iff : scanSymbol symbol = true ↔ SymbolShape symbol := by
  have hchecks : scanSymbol symbol = true ↔ BTCM_MIN_ASSET_SYMBOL_LENGTH ≤ symbol.length ∧
      symbol.length ≤ BTCM_MAX_ASSET_SYMBOL_LENGTH ∧ (∃ c, symbol.head? = some c ∧ c.isAlpha) ∧
      (∀ c ∈ symbol, isSymbolChar c) ∧ symbol.count '.' ≤ 1 := by
    rw [← Option.any_eq_true, ← Nat.not_lt, ← Nat.not_lt (b := symbol.length)]
    unfold scanSymbol
    split_ifs <;> simp_all [scanSymbolFrom_iff]
  rw [hchecks]
  constructor
  · rintro ⟨hlong, hshort, ⟨c, hfirst, halpha⟩, hinner, hdots⟩
    have hupper := isUpper_of_isAlpha halpha (hinner c (List.mem_of_mem_head? hfirst))
    exact ⟨hlong, hshort, ⟨c, hfirst, hupper⟩, hinner, hdots⟩
  · intro h
    obtain ⟨c, hfirst, hupper⟩ := h.first
    exact ⟨h.long, h.short, ⟨c, hfirst, Text.isAlpha_iff.mpr (Or.inl hupper)⟩, h.inner, h.dots⟩

end Scan

/-! ## Sub-assets -/

section SubAsset

variable {symbol pre post : Text}

/-- Before the only dot stands what is a symbol but for its length. -/
theorem SymbolShape.prefix_iff (h : SymbolShape (pre ++ '.' :: post)) :
    SymbolShape pre ↔ BTCM_MIN_ASSET_SYMBOL_LENGTH ≤ pre.length := by
  constructor
  · exact fun h => h.long
  · intro hlong
    have hshort := h.short
    have hdots := h.dots
    rw [List.length_append] at hshort
    rw [List.count_append, List.count_cons_self] at hdots
    obtain ⟨c, rest, rfl⟩ := List.exists_cons_of_length_pos (lt_of_lt_of_le (by decide) hlong)
    refine ⟨hlong, by omega, h.first, ?_, by omega⟩
    exact fun c hc => h.inner c (List.mem_append_left _ hc)

/-- The first character of a symbol is not its dot, so something stands before it. -/
theorem SymbolShape.prefix_ne_nil (h : SymbolShape (pre ++ '.' :: post)) : pre ≠ [] := by
  rintro rfl
  obtain ⟨c, hfirst, hupper⟩ := h.first
  obtain rfl := Option.some.inj hfirst
  exact absurd hupper (by decide)

/-- A symbol comes apart well unless the dot is its second character or its last. -/
theorem SymbolShape.splitsWell_iff (h : SymbolShape symbol) :
    SplitsWell symbol ↔ symbol[1]? ≠ some '.' ∧ symbol.getLast? ≠ some '.' := by
  by_cases hdot : '.' ∈ symbol
  · obtain ⟨pre, post, rfl, hpost⟩ := Text.exists_last hdot
    have hpos := Text.rfind_last pre hpost
    have hsplit : SplitsWell (pre ++ '.' :: post) ↔ scanSymbol pre = true ∧ post ≠ [] := by
      constructor
      · intro hwell
        simpa using hwell pre.length hpos
      · rintro hparts n hn
        obtain rfl := Option.some.inj (hpos.symm.trans hn)
        simpa using hparts
    have hne := h.prefix_ne_nil
    rw [hsplit, scanSymbol_iff, h.prefix_iff]
    have hlast : (pre ++ '.' :: post).getLast? ≠ some '.' ↔ post ≠ [] := by
      cases post with
      | nil => simp
      | cons c post =>
          have hmem : (c :: post).getLast (by simp) ∈ c :: post := List.getLast_mem _
          rw [List.getLast?_append, List.getLast?_cons_cons, List.getLast?_eq_getLast_of_ne_nil (by simp)]
          simp only [Option.some_or, ne_eq, Option.some.injEq, reduceCtorEq, not_false_eq_true,
            iff_true]
          exact fun he => hpost (he ▸ hmem)
    have hsecond : (pre ++ '.' :: post)[1]? ≠ some '.' ↔ BTCM_MIN_ASSET_SYMBOL_LENGTH ≤ pre.length := by
      match pre, hne with
      | [c], _ => simp [BTCM_MIN_ASSET_SYMBOL_LENGTH]
      | c :: d :: pre, _ =>
          have hdots := h.dots
          have hd : d ≠ '.' := by
            rintro rfl
            simp [List.count_append, List.count_cons] at hdots
            omega
          simp [BTCM_MIN_ASSET_SYMBOL_LENGTH, hd]
    rw [hlast, hsecond]
  · have hsecond : symbol[1]? ≠ some '.' := fun he => hdot (List.mem_of_getElem? he)
    have hlast : symbol.getLast? ≠ some '.' := fun he => hdot (List.mem_of_getLast? he)
    simp [SplitsWell, Text.rfind_eq_none hdot, hsecond, hlast]

end SubAsset

/-- **Asset symbols.** The scan accepts a text if and only if the documented rules do, and what it
accepts comes apart into a possible symbol and something behind it, for all texts but those of
symbol shape that do not end in a capital or have the dot as their second character. -/
theorem asset_symbol_iff (symbol : Text) :
    ((scanSymbol symbol = true ↔ SymbolGrammar symbol) ∧
      (scanSymbol symbol = true → SplitsWell symbol)) ↔
    (SymbolShape symbol → EndsInCapital symbol ∧ symbol[1]? ≠ some '.') := by
  rw [scanSymbol_iff]
  constructor
  · rintro ⟨hgrammar, hsplit⟩ h
    exact ⟨(hgrammar.mp h).last, (h.splitsWell_iff.mp (hsplit h)).1⟩
  · intro hends
    refine ⟨⟨fun h => ⟨h, (hends h).1⟩, fun h => h.toSymbolShape⟩, fun h => ?_⟩
    obtain ⟨⟨c, hlast, hupper⟩, hsecond⟩ := hends h
    refine h.splitsWell_iff.mpr ⟨hsecond, fun he => ?_⟩
    obtain rfl := Option.some.inj (hlast.symm.trans he)
    exact absurd hupper (by decide)

/-- A digit and a dot are accepted at the end, with nothing behind the dot; and a sub-asset of a
single letter, which is no symbol. -/
theorem symbol_ends_open :
    ¬ (scanSymbol ['A', 'B', '1'] = true ↔ SymbolGrammar ['A', 'B', '1']) ∧
    ¬ (scanSymbol ['A', 'B', 'C', '.'] = true → SplitsWell ['A', 'B', 'C', '.']) ∧
    ¬ (scanSymbol ['A', '.', 'B', 'C'] = true → SplitsWell ['A', '.', 'B', 'C']) := by
  refine ⟨fun h => ?_, fun h => ?_, fun h => ?_⟩
  · obtain ⟨c, hlast, hupper⟩ := (h.mp (by decide)).last
    obtain rfl := Option.some.inj hlast
    exact absurd hupper (by decide)
  · exact (h (by decide) 3 (by decide)).2 (by decide)
  · exact absurd (h (by decide) 1 (by decide)).1 (by decide)

/-! ## The evaluator -/

/-- A byte of a symbol is ASCII, whichever of the allowed characters it is. -/
theorem isSymbolChar.ascii {c : Char} (h : isSymbolChar c) : c.toNat < 128 := by
  obtain h | h | rfl := h
  · exact Nat.lt_of_le_of_lt (Text.isUpper_iff.mp h).2 (by decide)
  · exact Nat.lt_of_le_of_lt (Text.isDigit_iff.mp h).2 (by decide)
  · decide

theorem isValidSymbol_iff {symbol : String} : isValidSymbol symbol = true ↔
    BTCM_MIN_ASSET_SYMBOL_LENGTH ≤ symbol.utf8ByteSize ∧
      symbol.utf8ByteSize ≤ BTCM_MAX_ASSET_SYMBOL_LENGTH ∧
      (∃ c, symbol.toList.head? = some c ∧ c.isAlpha) ∧
      (∀ c ∈ symbol.toList, isSymbolChar c) ∧ symbol.toList.count '.' ≤ 1 := by
  have hfirst : symbol.toList.head?.elim false Char.isAlpha = true ↔
      ∃ c, symbol.toList.head? = some c ∧ c.isAlpha := by
    cases symbol.toList.head? <;> simp
  simp only [isValidSymbol, Bool.and_eq_true, decide_eq_true_eq, hfirst, List.all_eq_true,
    Bool.or_eq_true, isSymbolChar, or_assoc, and_assoc]
  rfl

/-- The check of the evaluators is the scan of the bytes. -/
theorem scanSymbol_ofString (symbol : String) :
    scanSymbol (Text.ofString symbol) = isValidSymbol symbol := by
  rw [Bool.eq_iff_iff, isValidSymbol_iff, scanSymbol_iff]
  by_cases hascii : ∀ c ∈ symbol.toList, c.toNat < 128
  · have hbytes := Text.ofString_ascii hascii
    have hlen := Text.length_ofString symbol
    constructor
    · intro h
      obtain ⟨c, hfirst, hupper⟩ := h.first
      rw [hbytes] at hfirst
      exact ⟨hlen ▸ h.long, hlen ▸ h.short, ⟨c, hfirst, Text.isAlpha_iff.mpr (Or.inl hupper)⟩,
        hbytes ▸ h.inner, hbytes ▸ h.dots⟩
    · rintro ⟨hlong, hshort, ⟨c, hfirst, halpha⟩, hinner, hdots⟩
      have hupper := isUpper_of_isAlpha halpha (hinner c (List.mem_of_mem_head? hfirst))
      rw [← hbytes] at hfirst hinner hdots
      exact ⟨hlen.symm ▸ hlong, hlen.symm ▸ hshort, ⟨c, hfirst, hupper⟩, hinner, hdots⟩
  · constructor
    · intro h
      simp only [not_forall, not_lt] at hascii
      obtain ⟨c, hc, hhigh⟩ := hascii
      obtain ⟨b, hb, hhigh⟩ := Text.exists_mem_ofString hc hhigh
      exact absurd (h.inner b hb).ascii (by omega)
    · rintro ⟨-, -, -, hinner, -⟩
      exact absurd (fun c hc => (hinner c hc).ascii) hascii

/-- The parent of a symbol is what stands before its last dot, when it has one. -/
theorem parentSymbol_eq (symbol : String) : parentSymbol symbol =
    (Text.rfind symbol.toList '.').map fun dotpos => String.ofList (symbol.toList.take dotpos) := by
  rw [parentSymbol]
  split
  · rename_i hdot
    obtain ⟨pre, post, hs, hpost⟩ := Text.exists_last hdot
    have hwhile : (post.reverse ++ '.' :: pre.reverse).dropWhile (fun c => decide (c ≠ '.')) =
        '.' :: pre.reverse := by
      rw [List.dropWhile_append_of_pos (fun c hc => by
        simp [show c ≠ '.' from fun e => hpost (e ▸ List.mem_reverse.mp hc)])]
      simp
    rw [hs, Text.rfind_last pre hpost, List.reverse_append, List.reverse_cons, List.append_assoc,
      List.singleton_append, hwhile]
    simp
  · rename_i hdot
    rw [Text.rfind_eq_none hdot]
    rfl

/-- Whatever passes the scan, a sub-asset is only made under a registered asset of the same issuer. -/
theorem assetCreate_parent {o : AssetCreateOperation} {s s' : Database} {parent : String}
    (hr : Runs (assetCreateEvaluator o) s () s') (hp : parentSymbol o.symbol = some parent) :
    ∃ e id p, s.accountNamed o.issuer = some e ∧ s.assets.find? id = some p ∧
      p.symbolString = parent ∧ p.issuer = e.1 := by
  simp only [assetCreateEvaluator, runs_bind_any, runs_bind_require, runs_bind_getAccount,
    runs_bind_requireE, runs_bind_getBalance] at hr
  obtain ⟨-, e, he, -, -, -, -, hr⟩ := hr
  obtain ⟨_, _, hparent, -⟩ := runs_bind.mp hr
  rw [requireParent, hp] at hparent
  simp only [Option.elim_some, runs_bind_getBy, runs_require] at hparent
  obtain ⟨p, hfind, hissuer, -⟩ := hparent
  obtain ⟨hmem, hsymbol⟩ := ObjectIndex.find?_of_findBy? hfind
  exact ⟨_, p.id, p.val, he, hmem, of_decide_eq_true hsymbol, of_decide_eq_true hissuer⟩

end BtcmChain
