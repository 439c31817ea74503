import BtcmChain.Chain.Genesis
import BtcmChain.Plugin.CustomTags
import Mathlib.Data.List.TakeWhile

set_option autoImplicit false

/-!
# What the custom tags plugin records

The documentation describes a set of tags that an operation edits. `add` and `remove` do so; `set`
keeps what is not listed, because the branches of its walk are the wrong way round. The recorded tags
are the documented ones as long as every `set` lists all accounts that have the tag
(`tags_refine_iff`).

`Tagging` is an operation as the documentation understands it, and `Tagging.apply` what it is said
to do with a set of tags; `Denotes` reads it off a custom operation and its JSON. What does not
denote a tagging is ignored by both. The theorem is about runs, operation by operation, and exact:
the first `set` that leaves out an account that has the tag makes the difference
(`set_keeps_charlie`).
-/

namespace BtcmChain

namespace TagKey

variable {k k' : TagKey} {tagger tag taggee : String}

@[simp] theorem tagger_tagKey : (tagKey tagger tag taggee).tagger = tagger := rfl
@[simp] theorem tag_tagKey : (tagKey tagger tag taggee).tag = tag := rfl
@[simp] theorem taggee_tagKey : (tagKey tagger tag taggee).taggee = taggee := rfl

theorem eta (k : TagKey) : tagKey k.tagger k.tag k.taggee = k := rfl

theorem eq_tagKey_iff : k = tagKey tagger tag taggee ↔
    k.tagger = tagger ∧ k.tag = tag ∧ k.taggee = taggee := by
  constructor
  · rintro rfl
    exact ⟨rfl, rfl, rfl⟩
  · rintro ⟨rfl, rfl, rfl⟩
    rfl

theorem le_iff : k ≤ k' ↔ k.tagger < k'.tagger ∨
    (k.tagger = k'.tagger ∧ (k.tag < k'.tag ∨ (k.tag = k'.tag ∧ k.taggee ≤ k'.taggee))) := by
  show toLex (k.tagger, toLex (k.tag, k.taggee)) ≤ toLex (k'.tagger, toLex (k'.tag, k'.taggee)) ↔ _
  rw [Prod.Lex.toLex_le_toLex, Prod.Lex.toLex_le_toLex]

theorem empty_le (a : String) : "" ≤ a := by
  rw [String.le_iff_toList_le]
  exact not_lt.mp (List.not_lt_nil _)

/-- The keys of a tagger and a tag are an interval. -/
theorem of_interval (hlow : tagKey tagger tag "" ≤ k) (hhigh : k ≤ tagKey tagger tag taggee) :
    k.tagger = tagger ∧ k.tag = tag := by
  rw [le_iff] at hlow hhigh
  simp only [tagger_tagKey, tag_tagKey, taggee_tagKey] at hlow hhigh
  rcases hlow with hlow | ⟨h1, hlow⟩ <;> rcases hhigh with hhigh | ⟨h2, hhigh⟩
  · exact absurd hlow hhigh.asymm
  · exact absurd h2 hlow.ne'
  · exact absurd h1 hhigh.ne'
  · refine ⟨h2, ?_⟩
    rcases hlow with hlow | ⟨h3, -⟩ <;> rcases hhigh with hhigh | ⟨h4, -⟩
    · exact absurd hlow hhigh.asymm
    · exact h4
    · exact h3.symm
    · exact h4

end TagKey

/-! ## The index as a set -/

def TagIndex.has (ix : TagIndex) (k : TagKey) : Bool := (ix.byTagger.find? k).isSome

/-- The tags that are recorded in the index, as a set of keys. -/
def TagIndex.tags (ix : TagIndex) : Set TagKey := {k | ix.has k = true}

section Programs

variable {ix : TagIndex} {tagger label name : String} {names : FlatSet String}

theorem has_set (ix : TagIndex) (k : TagKey) (id : Nat) (k' : TagKey) :
    TagIndex.has { ix with byTagger := ix.byTagger.set k id, nextId := ix.nextId + 1 } k' =
      (decide (k' = k) || ix.has k') := by
  unfold TagIndex.has
  rw [FlatMap.find?_set]
  by_cases h : k' = k <;> simp [h]

theorem has_erase (ix : TagIndex) (k k' : TagKey) :
    TagIndex.has { ix with byTagger := ix.byTagger.erase k } k' = (!decide (k' = k) && ix.has k') := by
  unfold TagIndex.has
  rw [FlatMap.find?_erase]
  by_cases h : k' = k <;> simp [h]

/-- Creating a tag that is new: it is recorded afterwards, and nothing else has changed. -/
theorem post_createTag (h : ix.has (tagKey tagger label name) = false) :
    Post (createTag tagger label name) ix
      (fun _ ix' => ∀ k, ix'.has k = (decide (k = tagKey tagger label name) || ix.has k))
      fun _ _ => False := by
  have hnew : (ix.byTagger.find? (tagKey tagger label name)).isSome = false := h
  unfold createTag
  simp only [post_bind, post_get, hnew, Bool.false_eq_true, if_false]
  exact fun k => has_set ix _ _ k

theorem post_removeTag {k : TagKey} : Post (removeTag k) ix
    (fun _ ix' => ∀ k', ix'.has k' = (!decide (k' = k) && ix.has k')) fun _ _ => False :=
  fun k' => has_erase ix k k'

/-- Creating some tags none of which exists: all of them are recorded afterwards, and nothing else
has changed. -/
theorem post_createTags {l : List String} (hl : l.Nodup)
    (h : ∀ a ∈ l, ix.has (tagKey tagger label a) = false) :
    Post (l.forM (createTag tagger label)) ix
      (fun _ ix' => ∀ k, ix'.has k = true ↔
        ix.has k = true ∨ (k.tagger = tagger ∧ k.tag = label ∧ k.taggee ∈ l))
      fun _ _ => False := by
  induction l generalizing ix with
  | nil => simp [List.forM]
  | cons a l ih =>
      obtain ⟨ha, hl⟩ := List.nodup_cons.mp hl
      show Post (createTag tagger label a >>= fun _ => l.forM (createTag tagger label)) ix _ _
      rw [post_bind]
      refine (post_createTag (h a List.mem_cons_self)).mono (fun _ ix1 h1 => ?_) fun _ _ hf => hf
      have hrest : ∀ b ∈ l, ix1.has (tagKey tagger label b) = false := by
        intro b hb
        have hne : tagKey tagger label b ≠ tagKey tagger label a := by
          intro heq
          obtain ⟨-, -, rfl⟩ := TagKey.eq_tagKey_iff.mp heq
          exact ha hb
        rw [h1, decide_eq_false hne, h b (List.mem_cons_of_mem _ hb)]
        rfl
      refine (ih hl hrest).mono (fun _ ix2 h2 k => ?_) fun _ _ hf => hf
      rw [h2, h1, Bool.or_eq_true, decide_eq_true_eq, TagKey.eq_tagKey_iff, List.mem_cons]
      grind

/-! ## Setting labels -/

/-- The entries that a walk over a tagger's tags of one label meets before it ends. -/
def metBy (tagger label : String) (l : List (TagKey × Nat)) : List (TagKey × Nat) :=
  l.takeWhile fun e => decide (e.1.tagger = tagger ∧ e.1.tag = label)

theorem of_mem_metBy {l : List (TagKey × Nat)} {e : TagKey × Nat} (he : e ∈ metBy tagger label l) :
    e.1.tagger = tagger ∧ e.1.tag = label := by
  have hmine := List.mem_takeWhile_imp he
  exact of_decide_eq_true hmine

/-- The walk removes the tags that are to be set, and leaves the others and the names. -/
theorem post_walkLabels (l : List (TagKey × Nat)) :
    Post (walkLabels tagger label l names) ix
      (fun names' ix' => (∀ a, names'.has a = names.has a) ∧ ∀ k, ix'.has k = true ↔
        ix.has k = true ∧ ¬ (names.has k.taggee = true ∧ k ∈ (metBy tagger label l).map Prod.fst))
      fun _ _ => False := by
  induction l generalizing names ix with
  | nil => simp [walkLabels, metBy]
  | cons e l ih =>
      unfold walkLabels metBy
      by_cases hmine : e.1.tagger = tagger ∧ e.1.tag = label
      swap
      · simp [hmine]
      rw [if_pos hmine]
      by_cases hnamed : names.has e.1.taggee = true
      · rw [if_pos hnamed, post_bind]
        refine post_removeTag.mono (fun _ ix1 h1 => ?_) fun _ _ hf => hf
        refine ih.mono (fun names' ix2 h2 => ⟨h2.1, fun k => ?_⟩) fun _ _ hf => hf
        rw [h2.2, h1]
        simp only [List.takeWhile_cons, decide_eq_true hmine, if_true, List.map_cons, List.mem_cons]
        unfold metBy
        by_cases hk : k = e.1
        · subst hk
          simp [hnamed]
        · simp [hk]
      · rw [if_neg hnamed]
        have hsame : ∀ a, FlatSet.has (names.erase e.1.taggee) a = names.has a := by
          intro a
          rw [FlatSet.has_erase]
          by_cases ha : a = e.1.taggee
          · subst ha
            simp [Bool.not_eq_true _ ▸ hnamed]
          · simp [ha]
        refine ih.mono (fun names' ix2 h2 => ⟨fun a => (h2.1 a).trans (hsame a), fun k => ?_⟩)
          fun _ _ hf => hf
        rw [h2.2, hsame]
        simp only [List.takeWhile_cons, decide_eq_true hmine, if_true, List.map_cons, List.mem_cons]
        unfold metBy
        by_cases hk : k = e.1
        · subst hk
          simp [hnamed]
        · simp [hk]

/-- **What `set_labels` does** is to add the names: nobody loses the label. -/
theorem post_setLabels : Post (setLabels tagger label names) ix
    (fun _ ix' => ∀ k, ix'.has k = true ↔
      ix.has k = true ∨ (k.tagger = tagger ∧ k.tag = label ∧ names.has k.taggee = true))
    fun _ _ => False := by
  unfold setLabels
  simp only [post_bind, post_get]
  refine (post_walkLabels _).mono (fun names' ix1 h1 => ?_) fun _ _ hf => hf
  obtain ⟨hnames, h1⟩ := h1
  -- the walk has met every tag of the tagger with the label
  have hmet : ∀ k, ix.has k = true → k.tagger = tagger → k.tag = label →
      k ∈ (metBy tagger label (ix.byTagger.entries.dropWhile fun e =>
        decide (e.1 < tagKey tagger label ""))).map Prod.fst := by
    rintro k hk rfl rfl
    obtain ⟨id, hid⟩ := Option.isSome_iff_exists.mp hk
    refine List.mem_map.mpr ⟨(k, id), ?_, rfl⟩
    refine FlatMap.mem_scan ix.byTagger.sorted (FlatMap.mem_entries_iff.mpr hid) ?_ ?_
    · exact TagKey.le_iff.mpr (.inr ⟨rfl, .inr ⟨rfl, TagKey.empty_le _⟩⟩)
    · exact fun x _ hlow hhigh => decide_eq_true (TagKey.of_interval hlow hhigh)
  refine (post_createTags (l := names'.keys)
    (List.Pairwise.imp (fun h => ne_of_lt h) (FlatMap.keys_sorted names')) ?_).mono
    (fun _ ix2 h2 k => ?_) fun _ _ hf => hf
  · intro a ha
    rw [FlatSet.mem_keys, hnames] at ha
    rw [← Bool.not_eq_true, h1]
    rintro ⟨hk, hnot⟩
    exact hnot ⟨ha, hmet _ hk rfl rfl⟩
  · rw [h2, h1, FlatSet.mem_keys, hnames]
    constructor
    · rintro (⟨hk, -⟩ | hk)
      · exact .inl hk
      · exact .inr hk
    · rintro (hk | hk)
      · by_cases hset : k.tagger = tagger ∧ k.tag = label ∧ names.has k.taggee = true
        · exact .inr hset
        · refine .inl ⟨hk, fun hmem => hset ?_⟩
          obtain ⟨hnamed, hin⟩ := hmem
          obtain ⟨e, he, rfl⟩ := List.mem_map.mp hin
          obtain ⟨htagger, htag⟩ := of_mem_metBy he
          exact ⟨htagger, htag, hnamed⟩
      · exact .inr hk

/-! ## Adding and removing -/

theorem post_addLabel : Post (addLabel tagger label name) ix
    (fun _ ix' => ∀ k, ix'.has k = (decide (k = tagKey tagger label name) || ix.has k))
    fun _ _ => False := by
  unfold addLabel
  simp only [post_bind, post_get]
  split
  case isTrue hnone =>
    refine post_createTag ?_
    unfold TagIndex.has
    rw [Option.isNone_iff_eq_none.mp hnone]
    rfl
  case isFalse hsome =>
    intro k
    have hsome : ix.has (tagKey tagger label name) = true := by
      rw [Option.isNone_iff_eq_none] at hsome
      exact Option.isSome_iff_ne_none.mpr hsome
    by_cases hk : k = tagKey tagger label name
    · subst hk
      simp [hsome]
    · rw [decide_eq_false hk, Bool.false_or]

theorem post_addLabels : Post (addLabels tagger label names) ix
    (fun _ ix' => ∀ k, ix'.has k = true ↔
      ix.has k = true ∨ (k.tagger = tagger ∧ k.tag = label ∧ names.has k.taggee = true))
    fun _ _ => False := by
  simp only [← FlatSet.mem_keys]
  unfold addLabels
  induction names.keys generalizing ix with
  | nil => simp [List.forM]
  | cons a l ih =>
      show Post (addLabel tagger label a >>= fun _ => l.forM (addLabel tagger label)) ix _ _
      rw [post_bind]
      refine post_addLabel.mono (fun _ ix1 h1 => ?_) fun _ _ hf => hf
      refine ih.mono (fun _ ix2 h2 k => ?_) fun _ _ hf => hf
      rw [h2, h1, Bool.or_eq_true, decide_eq_true_eq, TagKey.eq_tagKey_iff, List.mem_cons]
      grind

theorem post_removeLabel : Post (removeLabel tagger label name) ix
    (fun _ ix' => ∀ k, ix'.has k = (!decide (k = tagKey tagger label name) && ix.has k))
    fun _ _ => False := by
  unfold removeLabel
  simp only [post_bind, post_get]
  split
  case isTrue => exact post_removeTag
  case isFalse hnone =>
    intro k
    have hnone : ix.has (tagKey tagger label name) = false := Bool.not_eq_true _ ▸ hnone
    by_cases hk : k = tagKey tagger label name
    · subst hk
      simp [hnone]
    · rw [decide_eq_false hk, Bool.not_false, Bool.true_and]

theorem post_removeLabels : Post (removeLabels tagger label names) ix
    (fun _ ix' => ∀ k, ix'.has k = true ↔
      ix.has k = true ∧ ¬ (k.tagger = tagger ∧ k.tag = label ∧ names.has k.taggee = true))
    fun _ _ => False := by
  simp only [← FlatSet.mem_keys]
  unfold removeLabels
  induction names.keys generalizing ix with
  | nil => simp [List.forM]
  | cons a l ih =>
      show Post (removeLabel tagger label a >>= fun _ => l.forM (removeLabel tagger label)) ix _ _
      rw [post_bind]
      refine post_removeLabel.mono (fun _ ix1 h1 => ?_) fun _ _ hf => hf
      refine ih.mono (fun _ ix2 h2 k => ?_) fun _ _ hf => hf
      rw [h2, h1, Bool.and_eq_true, Bool.not_eq_true', decide_eq_false_iff_not, TagKey.eq_tagKey_iff,
        List.mem_cons]
      grind

end Programs

/-! ## The documented meaning -/

/-- What a tagging operation asks for. An empty list is as good as none. -/
structure Tagging where
  tagger : String
  label : String
  set : List String
  add : List String
  remove : List String

/-- The tags after it: `set` makes the tagged accounts exactly those listed, `add` and `remove` add
and remove what they list, and other taggers and labels are untouched. -/
def Tagging.apply (t : Tagging) (T : Set TagKey) : Set TagKey :=
  {k | if k.tagger = t.tagger ∧ k.tag = t.label then
    if t.set = [] then (k ∈ T ∨ k.taggee ∈ t.add) ∧ k.taggee ∉ t.remove else k.taggee ∈ t.set
    else k ∈ T}

theorem Tagging.mem_apply {t : Tagging} {T : Set TagKey} {k : TagKey} : k ∈ t.apply T ↔
    if k.tagger = t.tagger ∧ k.tag = t.label then
      if t.set = [] then (k ∈ T ∨ k.taggee ∈ t.add) ∧ k.taggee ∉ t.remove else k.taggee ∈ t.set
    else k ∈ T := Iff.rfl

/-- The key is missing, or has an array of names of existing accounts. -/
structure Lists (s : Database) (fields : List (String × Variant)) (key : String) (names : List String) :
    Prop where
  array : (Variant.field? fields key = none ∧ names = []) ∨
    Variant.field? fields key = some (.array (names.map .string))
  exist : ∀ n ∈ names, s.accounts.any (fun a => decide (a.name = n)) = true

section Meaning

variable {fromString : String → Except Exn Variant}

/-- A well-formed tagging operation: one authorizing account, and a JSON object with a label and
either `set` or `add` and `remove`. -/
structure Denotes (fromString : String → Except Exn Variant) (s : Database) (op : Operation)
    (t : Tagging) : Prop where
  operation : ∃ auths basics id json fields, op = .customJson auths basics id json ∧
    ((auths = [t.tagger] ∧ basics = []) ∨ (auths = [] ∧ basics = [t.tagger])) ∧
    fromString json = .ok (.object fields) ∧
    Variant.field? fields "label" = some (.string t.label) ∧
    Lists s fields "set" t.set ∧ Lists s fields "add" t.add ∧ Lists s fields "remove" t.remove
  either : t.set = [] ∨ (t.add = [] ∧ t.remove = [])

theorem collectAccounts_ok {s : Database} {vs : List Variant} {r0 r : FlatSet String} :
    collectAccounts s vs r0 = .ok r ↔ ∃ names : List String, vs = names.map .string ∧
      (∀ n ∈ names, s.accounts.any (fun a => decide (a.name = n)) = true) ∧
      r = names.foldl FlatSet.insert r0 := by
  induction vs generalizing r0 with
  | nil =>
      constructor
      · intro h
        exact ⟨[], rfl, fun n hn => absurd hn List.not_mem_nil, (Except.ok.inj h).symm⟩
      · rintro ⟨names, hnames, -, rfl⟩
        obtain rfl := List.map_eq_nil_iff.mp hnames.symm
        rfl
  | cons v vs ih =>
      simp only [collectAccounts, except_bind_ok]
      constructor
      · rintro ⟨name, hname, h⟩
        have hv : v = .string name := by
          cases v <;> simp_all [Variant.getString]
        split at h
        case isTrue hexists =>
          obtain ⟨names, rfl, hall, rfl⟩ := ih.mp h
          exact ⟨name :: names, by rw [hv, List.map_cons], List.forall_mem_cons.mpr ⟨hexists, hall⟩, rfl⟩
        case isFalse => cases h
      · rintro ⟨names, hnames, hall, rfl⟩
        obtain ⟨name, names, rfl, rfl, rfl⟩ := List.map_eq_cons_iff.mp hnames.symm
        obtain ⟨hexists, hall⟩ := List.forall_mem_cons.mp hall
        refine ⟨name, rfl, ?_⟩
        rw [if_pos hexists]
        exact ih.mpr ⟨names, rfl, hall, rfl⟩

theorem getAccounts_ok {s : Database} {fields : List (String × Variant)} {key : String}
    {r : FlatSet String} : getAccounts s fields key = .ok r ↔
      ∃ names, Lists s fields key names ∧ r = FlatSet.ofKeys names := by
  unfold getAccounts
  split
  case h_1 hnone =>
    constructor
    · intro h
      exact ⟨[], ⟨.inl ⟨hnone, rfl⟩, fun n hn => absurd hn List.not_mem_nil⟩, (Except.ok.inj h).symm⟩
    · rintro ⟨names, ⟨⟨-, rfl⟩ | hsome, -⟩, rfl⟩
      · rfl
      · rw [hnone] at hsome
        cases hsome
  case h_2 vs hsome =>
    rw [collectAccounts_ok]
    constructor
    · rintro ⟨names, rfl, hall, rfl⟩
      exact ⟨names, ⟨.inr hsome, hall⟩, rfl⟩
    · rintro ⟨names, ⟨⟨hnone, -⟩ | harray, hall⟩, rfl⟩
      · rw [hsome] at hnone
        cases hnone
      · rw [hsome] at harray
        cases harray
        exact ⟨names, rfl, hall, rfl⟩
  case h_3 v hother hsome =>
    constructor
    · intro h
      cases h
    · rintro ⟨names, ⟨⟨hnone, -⟩ | harray, -⟩, -⟩
      · rw [hsome] at hnone
        cases hnone
      · rw [hsome] at harray
        exact absurd (Option.some.inj harray) (hother _)

theorem isEmpty_ofKeys {names : List String} : (FlatSet.ofKeys names).keys.isEmpty = true ↔ names = [] := by
  rw [List.isEmpty_iff, List.eq_nil_iff_forall_not_mem, List.eq_nil_iff_forall_not_mem]
  simp only [FlatSet.mem_keys, FlatSet.has_ofKeys, decide_eq_true_eq]

theorem tagger?_eq_some {auths basics : List String} {tagger : String} :
    tagger? auths basics = some tagger ↔
      (auths = [tagger] ∧ basics = []) ∨ (auths = [] ∧ basics = [tagger]) := by
  unfold tagger?
  split <;> simp_all

variable {s : Database} {op : Operation} {t : Tagging} {ix : TagIndex}

/-- An operation that is no tagging operation changes nothing about the tags. -/
theorem onOperation_ignored (h : ¬ ∃ t, Denotes fromString s op t) :
    onOperationTags fromString s op ix = ix := by
  unfold onOperationTags
  split
  case h_2 => rfl
  case h_1 auths basics id json =>
    refine (post_after (R := fun ix' => ix' = ix)).mp ?_
    unfold applyCustomJson
    split
    case h_1 => exact rfl
    case h_2 tagger htagger =>
      simp only [post_bind, post_liftExcept]
      refine ⟨fun v hv => ?_, fun _ _ => trivial⟩
      split
      case h_2 => exact rfl
      case h_1 fields =>
        split
        case h_2 => exact rfl
        case h_1 label hlabel =>
          simp only [post_bind, post_liftExcept]
          refine ⟨fun toAdd hadd => ⟨fun toRemove hremove => ⟨fun toSet hset => ?_, fun _ _ => trivial⟩,
            fun _ _ => trivial⟩, fun _ _ => trivial⟩
          obtain ⟨add, hladd, rfl⟩ := getAccounts_ok.mp hadd
          obtain ⟨remove, hlremove, rfl⟩ := getAccounts_ok.mp hremove
          obtain ⟨set, hlset, rfl⟩ := getAccounts_ok.mp hset
          split
          case isTrue => exact rfl
          case isFalse heither =>
            rw [not_not, Bool.or_eq_true, Bool.and_eq_true, isEmpty_ofKeys, isEmpty_ofKeys,
              isEmpty_ofKeys] at heither
            exact absurd ⟨⟨tagger, label, set, add, remove⟩, ⟨auths, basics, id, json, fields, rfl,
              tagger?_eq_some.mp htagger, hv, hlabel, hlset, hladd, hlremove⟩, heither⟩ h

/-- What a tagging operation does to the tags: some names lose the label, others get it. -/
theorem onOperation_denoted (h : Denotes fromString s op t) (k : TagKey) :
    (onOperationTags fromString s op ix).has k = true ↔
      if k.tagger = t.tagger ∧ k.tag = t.label then
        if t.set = [] then (ix.has k = true ∨ k.taggee ∈ t.add) ∧ k.taggee ∉ t.remove
        else ix.has k = true ∨ k.taggee ∈ t.set
      else ix.has k = true := by
  obtain ⟨⟨auths, basics, id, json, fields, rfl, hauth, hjson, hlabel, hset, hadd, hremove⟩, heither⟩ := h
  have hset' := getAccounts_ok.mpr ⟨t.set, hset, rfl⟩
  have hadd' := getAccounts_ok.mpr ⟨t.add, hadd, rfl⟩
  have hremove' := getAccounts_ok.mpr ⟨t.remove, hremove, rfl⟩
  have hkeys : ∀ names : List String, (FlatSet.ofKeys names).has k.taggee = true ↔ k.taggee ∈ names := by
    intro names
    rw [FlatSet.has_ofKeys, decide_eq_true_eq]
  refine (post_after (R := fun ix' : TagIndex => ix'.has k = true ↔ _)).mp ?_
  unfold applyCustomJson
  rw [tagger?_eq_some.mpr hauth]
  simp only [hjson, hset', hadd', hremove', post_bind, post_liftExcept, Except.ok.injEq,
    forall_eq', reduceCtorEq, false_implies, implies_true, and_true, hlabel]
  have heither' : ¬¬((FlatSet.ofKeys t.set).keys.isEmpty ||
      ((FlatSet.ofKeys t.add).keys.isEmpty && (FlatSet.ofKeys t.remove).keys.isEmpty)) = true := by
    rwa [not_not, Bool.or_eq_true, Bool.and_eq_true, isEmpty_ofKeys, isEmpty_ofKeys, isEmpty_ofKeys]
  rw [if_neg heither']
  by_cases hnone : t.set = []
  · rw [isEmpty_ofKeys.mpr hnone]
    simp only [Bool.not_true, Bool.false_eq_true, if_false, post_bind]
    refine post_addLabels.mono (fun _ ix1 h1 => ?_) fun _ _ hf => hf.elim
    refine post_removeLabels.mono (fun _ ix2 h2 => ?_) fun _ _ hf => hf.elim
    rw [h2, h1, hkeys, hkeys, if_pos hnone]
    split <;> grind
  · have hsome : (FlatSet.ofKeys t.set).keys.isEmpty = false := by
      rw [← Bool.not_eq_true, isEmpty_ofKeys]
      exact hnone
    rw [hsome]
    simp only [Bool.not_false, if_true]
    refine post_setLabels.mono (fun _ ix1 h1 => ?_) fun _ _ hf => hf.elim
    rw [h1, hkeys, if_neg hnone]
    split <;> grind

theorem Lists.unique {fields : List (String × Variant)} {key : String} {l l' : List String}
    (h : Lists s fields key l) (h' : Lists s fields key l') : l = l' := by
  have hr := getAccounts_ok.mpr ⟨l, h, rfl⟩
  rcases h.array with ⟨hnone, rfl⟩ | harray <;> rcases h'.array with ⟨hnone', rfl⟩ | harray'
  · rfl
  · rw [hnone] at harray'
    cases harray'
  · rw [hnone'] at harray
    cases harray
  · rw [harray] at harray'
    injection harray' with heq
    injection heq with heq
    exact List.map_injective_iff.mpr (fun a b hab => by injection hab) heq

/-- An operation asks for one tagging only, whatever else is in its text. -/
theorem Denotes.unique {t' : Tagging} (h : Denotes fromString s op t) (h' : Denotes fromString s op t') :
    t = t' := by
  obtain ⟨⟨auths, basics, id, json, fields, rfl, hauth, hjson, hlabel, hset, hadd, hremove⟩, -⟩ := h
  obtain ⟨⟨_, _, _, _, fields', heq, hauth', hjson', hlabel', hset', hadd', hremove'⟩, -⟩ := h'
  cases heq
  obtain rfl : fields = fields' := by
    rw [hjson] at hjson'
    injection hjson' with heq
    injection heq
  have htagger : t.tagger = t'.tagger :=
    Option.some.inj ((tagger?_eq_some.mpr hauth).symm.trans (tagger?_eq_some.mpr hauth'))
  have hlabel : t.label = t'.label := by
    rw [hlabel] at hlabel'
    injection hlabel' with heq
    injection heq
  cases t
  cases t'
  cases htagger
  cases hlabel
  cases hset.unique hset'
  cases hadd.unique hadd'
  cases hremove.unique hremove'
  rfl

open Classical in
/-- The tags after an operation, by the documentation: setting replaces what was there. -/
noncomputable def documented (fromString : String → Except Exn Variant) (s : Database) (op : Operation)
    (T : Set TagKey) : Set TagKey :=
  if h : ∃ t, Denotes fromString s op t then h.choose.apply T else T

theorem documented_of_denotes (h : Denotes fromString s op t) (T : Set TagKey) :
    documented fromString s op T = t.apply T := by
  have hex : ∃ t, Denotes fromString s op t := ⟨t, h⟩
  rw [documented, dif_pos hex, hex.choose_spec.unique h]

/-- The tags after a run of operations, by the documentation. -/
noncomputable def documentedAfter (fromString : String → Except Exn Variant) (T : Set TagKey)
    (run : List (Database × Operation)) : Set TagKey :=
  run.foldl (fun T step => documented fromString step.1 step.2 T) T

/-- The operation does not take any tag away by `set`. -/
def KeepsTags (fromString : String → Except Exn Variant) (s : Database) (op : Operation)
    (ix : TagIndex) : Prop :=
  ∀ t, Denotes fromString s op t → t.set ≠ [] →
    ∀ a, ix.has (tagKey t.tagger t.label a) = true → a ∈ t.set

theorem onOperation_documented_iff : (onOperationTags fromString s op ix).tags =
    documented fromString s op ix.tags ↔ KeepsTags fromString s op ix := by
  by_cases hex : ∃ t, Denotes fromString s op t
  swap
  · rw [onOperation_ignored hex, documented, dif_neg hex]
    exact iff_of_true rfl fun t ht => absurd ⟨t, ht⟩ hex
  obtain ⟨t, ht⟩ := hex
  rw [documented_of_denotes ht]
  have hkeeps : KeepsTags fromString s op ix ↔
      (t.set ≠ [] → ∀ a, ix.has (tagKey t.tagger t.label a) = true → a ∈ t.set) :=
    ⟨fun h => h t ht, fun h t' ht' => ht.unique ht' ▸ h⟩
  rw [hkeeps]
  constructor
  · intro heq hset a ha
    have hk : tagKey t.tagger t.label a ∈ (onOperationTags fromString s op ix).tags := by
      refine (onOperation_denoted ht _).mpr ?_
      rw [if_pos ⟨rfl, rfl⟩, if_neg hset]
      exact .inl ha
    rwa [heq, Tagging.mem_apply, if_pos ⟨rfl, rfl⟩, if_neg hset] at hk
  · intro hsub
    ext k
    refine (onOperation_denoted ht k).trans ?_
    rw [Tagging.mem_apply]
    split
    case isFalse => exact Iff.rfl
    case isTrue hmine =>
      split
      case isTrue => exact Iff.rfl
      case isFalse hset =>
        refine ⟨fun h => h.elim (fun hk => hsub hset k.taggee ?_) id, .inr⟩
        rw [← hmine.1, ← hmine.2]
        exact hk

end Meaning

/-- **The recorded tags refine the documented ones** along a run just if no `set` takes a tag away:
it always lists all accounts its tagger has given the label. -/
theorem tags_refine_iff (fromString : String → Except Exn Variant) (ix : TagIndex)
    (run : List (Database × Operation)) :
    (∀ n ≤ run.length, (tagsAfter fromString ix (run.take n)).tags =
      documentedAfter fromString ix.tags (run.take n)) ↔
    ∀ n, (hn : n < run.length) →
      KeepsTags fromString run[n].1 run[n].2 (tagsAfter fromString ix (run.take n)) := by
  have hstep : ∀ n, (hn : n < run.length) → tagsAfter fromString ix (run.take (n + 1)) =
      onOperationTags fromString run[n].1 run[n].2 (tagsAfter fromString ix (run.take n)) := by
    intro n hn
    rw [tagsAfter, List.take_succ_eq_append_getElem hn, List.foldl_append]
    rfl
  have hideal : ∀ n, (hn : n < run.length) → documentedAfter fromString ix.tags (run.take (n + 1)) =
      documented fromString run[n].1 run[n].2 (documentedAfter fromString ix.tags (run.take n)) := by
    intro n hn
    rw [documentedAfter, List.take_succ_eq_append_getElem hn, List.foldl_append]
    rfl
  constructor
  · intro h n hn
    have hnext := h (n + 1) hn
    rw [hstep n hn, hideal n hn, ← h n hn.le] at hnext
    exact onOperation_documented_iff.mp hnext
  · intro h n hn
    induction n with
    | zero => rfl
    | succ n ih =>
        rw [hstep n hn, hideal n hn, ← ih (Nat.le_of_succ_le hn)]
        exact onOperation_documented_iff.mpr (h n hn)

/-! ### The fourth example of the documentation -/

/-- A state in which Charlie and Dora have accounts. -/
def taggable : Database where
  accounts := (ObjectIndex.empty.create (keylessAccount "charlie" 1)).create (keylessAccount "dora" 1)

/-- A parser that knows two texts, as much as the run needs. -/
def parseExamples (json : String) : Except Exn Variant :=
  if json = "\x7b\"label\":\"y\",\"add\":[\"charlie\"]\x7d" then
    .ok (.object [("label", .string "y"), ("add", .array [.string "charlie"])])
  else if json = "\x7b\"label\":\"y\",\"set\":[\"dora\"]\x7d" then
    .ok (.object [("label", .string "y"), ("set", .array [.string "dora"])])
  else .error (.assert "not modelled")

/-- Alice tags Charlie, and then sets the tag to Dora alone. -/
def retag : List (Database × Operation) :=
  [(taggable, .customJson [] ["alice"] "tags" "\x7b\"label\":\"y\",\"add\":[\"charlie\"]\x7d"),
    (taggable, .customJson [] ["alice"] "tags" "\x7b\"label\":\"y\",\"set\":[\"dora\"]\x7d")]

/-- Charlie keeps the tag, although the list that Alice sets has only Dora on it. -/
theorem set_keeps_charlie : ¬ ∀ (fromString : String → Except Exn Variant) (ix : TagIndex)
    (run : List (Database × Operation)), ∀ n ≤ run.length,
      (tagsAfter fromString ix (run.take n)).tags = documentedAfter fromString ix.tags (run.take n) := by
  intro hclaim
  have heq := hclaim parseExamples {} retag 2 (by decide)
  have hkept : (tagsAfter parseExamples {} (retag.take 2)).has (tagKey "alice" "y" "charlie") = true := by
    decide +kernel
  have hkept : tagKey "alice" "y" "charlie" ∈ (tagsAfter parseExamples {} (retag.take 2)).tags := hkept
  rw [heq] at hkept
  have hset : Denotes parseExamples taggable
      (.customJson [] ["alice"] "tags" "\x7b\"label\":\"y\",\"set\":[\"dora\"]\x7d")
      ⟨"alice", "y", ["dora"], [], []⟩ :=
    ⟨⟨[], ["alice"], "tags", _, [("label", .string "y"), ("set", .array [.string "dora"])], rfl,
      .inr ⟨rfl, rfl⟩, rfl, rfl, ⟨.inr rfl, by decide +kernel⟩, ⟨.inl ⟨rfl, rfl⟩, by simp⟩,
      ⟨.inl ⟨rfl, rfl⟩, by simp⟩⟩, .inr ⟨rfl, rfl⟩⟩
  have hideal : documentedAfter parseExamples ({} : TagIndex).tags (retag.take 2) =
      documented parseExamples taggable
        (.customJson [] ["alice"] "tags" "\x7b\"label\":\"y\",\"set\":[\"dora\"]\x7d")
        (documentedAfter parseExamples ({} : TagIndex).tags (retag.take 1)) := rfl
  rw [hideal, documented_of_denotes hset, Tagging.mem_apply, if_pos ⟨rfl, rfl⟩, if_neg (by simp)] at hkept
  have hmem : "charlie" ∈ ["dora"] := hkept
  revert hmem
  decide

end BtcmChain
