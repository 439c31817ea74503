import BtcmChain.Protocol.AccountName

set_option autoImplicit false

/-!
# The grammar of account names

What `is_valid_account_name` accepts, stated without the scanner: labels joined by dots. On the
bytes of a string the scanner and `isValidAccountName`, which the evaluators use, agree.

`NameLabel` is one label: a letter first, a letter or a digit last, hyphens only between them,
three characters at least. `NameGrammar` joins labels by dots and bounds the length of the whole.
The scanner of `Protocol.AccountName` walks over indices, so it could in principle read outside the
string or run on forever; `scanAccountName_grammar` excludes both for every string of bytes, and
says that it accepts just the grammar.
-/

namespace BtcmChain

/-- A label: three characters or more, a letter first, a letter or digit last, hyphens only
between. -/
structure NameLabel (label : Text) : Prop where
  long : 3 ≤ label.length
  first : ∃ c, label.head? = some c ∧ c.isLower
  last : ∃ c, label.getLast? = some c ∧ (c.isLower ∨ c.isDigit)
  inner : ∀ c ∈ label, c.isLower ∨ c.isDigit ∨ c = '-'

/-- A name: 3 to 16 characters, one label or several with a dot between any two. -/
structure NameGrammar (name : Text) : Prop where
  long : 3 ≤ name.length
  short : name.length ≤ 16
  labels : ∃ labels ≠ [], (∀ label ∈ labels, NameLabel label) ∧ ['.'].intercalate labels = name

theorem isNameLetter_iff {c : Char} : isNameLetter c = true ↔ c.isLower := by
  rw [isNameLetter, Text.isLower_iff, Bool.and_eq_true, decide_eq_true_iff, decide_eq_true_iff]
  exact Iff.rfl

theorem isNameDigit_iff {c : Char} : isNameDigit c = true ↔ c.isDigit := by
  rw [isNameDigit, Text.isDigit_iff, Bool.and_eq_true, decide_eq_true_iff, decide_eq_true_iff]
  exact Iff.rfl

theorem isNameInner_iff {c : Char} :
    isNameInner c = true ↔ c.isLower ∨ c.isDigit ∨ c = '-' := by
  simp [isNameInner, isNameLetter_iff, isNameDigit_iff, or_assoc]

theorem isValidLabel_iff {label : Text} : isValidLabel label = true ↔ NameLabel label := by
  by_cases hshort : label.length < 3
  · have hlong : ¬ 3 ≤ label.length := by omega
    simp only [isValidLabel, hlong, decide_false, Bool.false_and, Bool.false_eq_true, false_iff]
    exact fun h => hlong h.long
  · obtain ⟨first, inner, last, rfl⟩ := exists_ends (l := label) (by omega)
    have hinner : inner ≠ [] := by
      rintro rfl
      simp at hshort
    have hfirst : (first :: (inner ++ [last])).head? = some first := rfl
    have hlast : (first :: (inner ++ [last])).getLast? = some last := by
      rw [← List.cons_append, List.getLast?_concat]
    rw [isValidLabel_ends hinner]
    simp only [Bool.and_eq_true, Bool.or_eq_true, isNameLetter_iff, isNameDigit_iff,
      List.all_eq_true, isNameInner_iff]
    constructor
    · rintro ⟨⟨hf, hl⟩, hi⟩
      refine ⟨by omega, ⟨first, hfirst, hf⟩, ⟨last, hlast, hl⟩, ?_⟩
      intro c hc
      simp only [List.mem_cons, List.mem_append, List.not_mem_nil, or_false] at hc
      obtain rfl | hc | rfl := hc
      · exact Or.inl hf
      · exact hi c hc
      · exact hl.imp_right Or.inl
    · intro h
      obtain ⟨f, hf, hlower⟩ := h.first
      obtain ⟨l, hl, hend⟩ := h.last
      rw [hfirst, Option.some.injEq] at hf
      rw [hlast, Option.some.injEq] at hl
      subst hf hl
      exact ⟨⟨hlower, hend⟩, fun c hc => h.inner c (by simp [hc])⟩

/-- A label has no dot in it, since a dot is neither a letter nor a digit nor a hyphen. -/
theorem NameLabel.no_dot {label : Text} (h : NameLabel label) : '.' ∉ label := by
  intro hdot
  have := h.inner '.' hdot
  revert this
  decide

/-- The words between the dots are the labels of the grammar, and its only labels. -/
theorem all_splitOn_iff {name : Text} :
    (name.splitOn '.').all isValidLabel = true ↔
      ∃ labels ≠ [], (∀ label ∈ labels, NameLabel label) ∧ ['.'].intercalate labels = name := by
  simp only [List.all_eq_true, isValidLabel_iff]
  constructor
  · intro h
    exact ⟨name.splitOn '.', List.splitOn_ne_nil _ _, h, List.intercalate_splitOn _⟩
  · rintro ⟨labels, hne, hlabels, rfl⟩
    rw [List.splitOn_intercalate '.' (fun l hl => (hlabels l hl).no_dot) hne]
    exact hlabels

/-- Whatever the bytes, the scan ends without leaving the name, and it accepts the grammar. -/
theorem scanAccountName_grammar (name : Text) :
    ∃ accepted, scanAccountName name = .ok accepted ∧ (accepted = true ↔ NameGrammar name) := by
  refine ⟨_, scanAccountName_eq name, ?_⟩
  simp only [Bool.and_eq_true, decide_eq_true_eq, all_splitOn_iff]
  constructor
  · rintro ⟨⟨hlong, hshort⟩, hlabels⟩
    exact ⟨hlong, hshort, hlabels⟩
  · intro h
    exact ⟨⟨h.long, h.short⟩, h.labels⟩

theorem mem_intercalate_dot {labels : List Text} {c : Char} (h : c ∈ ['.'].intercalate labels) :
    c = '.' ∨ ∃ label ∈ labels, c ∈ label := by
  simp only [List.intercalate, List.mem_flatten] at h
  obtain ⟨word, hword, hc⟩ := h
  induction labels with
  | nil => simp at hword
  | cons label rest ih =>
      cases rest with
      | nil => simp_all
      | cons next rest =>
          rw [List.intersperse_cons_cons, List.mem_cons, List.mem_cons] at hword
          obtain rfl | rfl | hword := hword
          · exact Or.inr ⟨word, List.mem_cons_self, hc⟩
          · exact Or.inl (List.mem_singleton.mp hc)
          · obtain hdot | ⟨label', hmem, hc'⟩ := ih hword
            · exact Or.inl hdot
            · exact Or.inr ⟨label', List.mem_cons_of_mem _ hmem, hc'⟩

theorem ascii_of_inner {c : Char} (h : c.isLower ∨ c.isDigit ∨ c = '-') : c.toNat < 128 := by
  obtain h | h | rfl := h
  · exact Nat.lt_of_le_of_lt (Text.isLower_iff.mp h).2 (by decide)
  · exact Nat.lt_of_le_of_lt (Text.isDigit_iff.mp h).2 (by decide)
  · decide

/-- What a name is made of is ASCII, as its labels and the dots between them are. -/
theorem ascii_of_labels {name : Text} (h : (name.splitOn '.').all isValidLabel = true) :
    ∀ c ∈ name, c.toNat < 128 := by
  obtain ⟨labels, -, hlabels, rfl⟩ := all_splitOn_iff.mp h
  intro c hc
  obtain rfl | ⟨label, hlabel, hmem⟩ := mem_intercalate_dot hc
  · decide
  · exact ascii_of_inner ((hlabels label hlabel).inner c hmem)

/-- The evaluators' check of a string is the scan of its bytes. -/
theorem scanAccountName_ofString (name : String) :
    scanAccountName (Text.ofString name) = .ok (isValidAccountName name) := by
  rw [scanAccountName_eq, isValidAccountName, Text.length_ofString]
  by_cases hascii : ∀ c ∈ name.toList, c.toNat < 128
  · rw [Text.ofString_ascii hascii]
  · have hbytes : ¬ ∀ b ∈ Text.ofString name, b.toNat < 128 := by
      simp only [not_forall, not_lt] at hascii ⊢
      obtain ⟨c, hc, hhigh⟩ := hascii
      obtain ⟨b, hb, hhigh⟩ := Text.exists_mem_ofString hc hhigh
      exact ⟨b, hb, hhigh⟩
    have hscan : ((Text.ofString name).splitOn '.').all isValidLabel = false :=
      Bool.eq_false_iff.mpr fun h => hbytes (ascii_of_labels h)
    have hname : (name.toList.splitOn '.').all isValidLabel = false :=
      Bool.eq_false_iff.mpr fun h => hascii (ascii_of_labels h)
    rw [hscan, hname]

end BtcmChain
