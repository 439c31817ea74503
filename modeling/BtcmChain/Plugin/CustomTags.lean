import BtcmChain.Chain.Database
import BtcmChain.Lib.Attempt
import BtcmChain.Lib.FlatSet
import Mathlib.Data.Prod.Lex

set_option autoImplicit false

/-!
# The custom tags plugin

After every operation the plugin looks whether it is a `custom_json_operation` that tags accounts,
and edits its `tag_object`s. The chain knows nothing of it: what is wrong with the operation is
logged, and what has been edited until then stays. The JSON parser is a parameter.

`Variant` is what a parsed text of JSON consists of. Tags are kept by tagger, tag and taggee
(`tagKey`), as in the index of the source. An operation asks to set, or to add and remove; what is
done for `set` is `setLabels`, a walk over the tags of one label (`walkLabels`) with its two
branches in the places the source has them, behind which the names that are left get the tag.
-/

namespace BtcmChain

/-- `fc::variant`, as a parsed text of JSON makes it. -/
inductive Variant where
  | null
  | boolean (b : Bool)
  | number (n : ℤ)
  | string (s : String)
  | array (elements : List Variant)
  | object (fields : List (String × Variant))
  deriving Inhabited

/-- `variant_object::find`: the value of the first field with this key. -/
def Variant.field? (fields : List (String × Variant)) (key : String) : Option Variant :=
  (fields.find? fun f => decide (f.1 = key)).map Prod.snd

/-- `get_string` of a variant, which throws when it is something else. -/
def Variant.getString : Variant → Except Exn String
  | .string s => .ok s
  | _ => .error (.assert "Invalid cast from type to string")

/-! ## The index -/

/-- The key of `by_tagger`: tagger, tag and taggee, in this order. -/
abbrev TagKey := String ×ₗ String ×ₗ String

def tagKey (tagger tag taggee : String) : TagKey := toLex (tagger, toLex (tag, taggee))

namespace TagKey

def tagger (k : TagKey) : String := (ofLex k).1
def tag (k : TagKey) : String := (ofLex (ofLex k).2).1
def taggee (k : TagKey) : String := (ofLex (ofLex k).2).2

end TagKey

/-- `custom_tags_index`: the ids of the `tag_object`s. The other index has the same fields in another
order. -/
structure TagIndex where
  byTagger : FlatMap TagKey Nat := .empty
  nextId : Nat := 0
  deriving Inhabited

/-- Programs of the plugin, where an exception leaves what was done before it. -/
abbrev TagM := EStateM Exn TagIndex

/-- `create<tag_object>`; both indexes are unique, so it throws when the tag is there. -/
def createTag (tagger tag taggee : String) : TagM Unit := do
  let ix ← get
  if (ix.byTagger.find? (tagKey tagger tag taggee)).isSome then
    throw (.assert "Could not create object! Most likely a uniqueness constraint was violated.")
  set { ix with byTagger := ix.byTagger.set (tagKey tagger tag taggee) ix.nextId, nextId := ix.nextId + 1 }

def removeTag (k : TagKey) : TagM Unit := modify fun ix => { ix with byTagger := ix.byTagger.erase k }

/-! ## Editing -/

/-- The walk of `set_labels` from an iterator on. It returns the names that are left to set. -/
def walkLabels (tagger label : String) : List (TagKey × Nat) → FlatSet String → TagM (FlatSet String)
  | [], names => return names
  | e :: rest, names => do
    if e.1.tagger = tagger ∧ e.1.tag = label then
      if names.has e.1.taggee then
        removeTag e.1
        walkLabels tagger label rest names
      else walkLabels tagger label rest (names.erase e.1.taggee)
    else return names

/-- `set_labels`: the tags of one label are walked through, and the names that are left get it. -/
def setLabels (tagger label : String) (names : FlatSet String) : TagM Unit := do
  let ix ← get
  let start := ix.byTagger.entries.dropWhile fun e => decide (e.1 < tagKey tagger label "")
  let names ← walkLabels tagger label start names
  names.keys.forM (createTag tagger label)

/-- A round of `add_labels`: the name gets the label unless it has it. -/
def addLabel (tagger label name : String) : TagM Unit := do
  let ix ← get
  if (ix.byTagger.find? (tagKey tagger label name)).isNone then createTag tagger label name

/-- `add_labels`: every one of the names gets the label. -/
def addLabels (tagger label : String) (names : FlatSet String) : TagM Unit :=
  names.keys.forM (addLabel tagger label)

/-- A round of `remove_labels`: the name loses the label if it has it. -/
def removeLabel (tagger label name : String) : TagM Unit := do
  let ix ← get
  if (ix.byTagger.find? (tagKey tagger label name)).isSome then removeTag (tagKey tagger label name)

/-- `remove_labels`: every one of the names loses the label. -/
def removeLabels (tagger label : String) (names : FlatSet String) : TagM Unit :=
  names.keys.forM (removeLabel tagger label)

/-! ## The operation -/

/-- The loop of `get_accounts`, which collects the names of accounts and throws at the first unknown
one. -/
def collectAccounts (s : Database) : List Variant → FlatSet String → Except Exn (FlatSet String)
  | [], result => .ok result
  | v :: vs, result => do
    let name ← v.getString
    if s.accounts.any fun a => decide (a.name = name) then collectAccounts s vs (result.insert name)
    else .error (.assert "unknown account")

/-- `get_accounts`: the accounts that a field of the operation names, none if the field is missing.
-/
def getAccounts (s : Database) (fields : List (String × Variant)) (key : String) :
    Except Exn (FlatSet String) :=
  match Variant.field? fields key with
  | none => .ok .empty
  | some (.array names) => collectAccounts s names .empty
  | some _ => .error (.assert "${key} is not an array - ignoring op")

/-- Who authorized the operation, if it is a single account. -/
def tagger? (requiredAuths requiredBasicAuths : List String) : Option String :=
  match requiredAuths, requiredBasicAuths with
  | [tagger], [] => some tagger
  | [], [tagger] => some tagger
  | _, _ => none

section Operations

variable (fromString : String → Except Exn Variant)

/-- `operator()( custom_json_operation )`, without the log: the lists of an operation are set, added
and removed. -/
def applyCustomJson (s : Database) (requiredAuths requiredBasicAuths : List String) (json : String) :
    TagM Unit :=
  match tagger? requiredAuths requiredBasicAuths with
  | none => return ()
  | some tagger => do
    let jsonData ← liftExcept (fromString json)
    match jsonData with
    | .object fields =>
      match Variant.field? fields "label" with
      | some (.string label) => do
        let toAdd ← liftExcept (getAccounts s fields "add")
        let toRemove ← liftExcept (getAccounts s fields "remove")
        let toSet ← liftExcept (getAccounts s fields "set")
        if ¬(toSet.keys.isEmpty || (toAdd.keys.isEmpty && toRemove.keys.isEmpty)) then
          throw (.assert "custom_json should use either set or add/remove!")
        if !toSet.keys.isEmpty then setLabels tagger label toSet
        else do
          addLabels tagger label toAdd
          removeLabels tagger label toRemove
      | _ => return ()
    | _ => return ()

/-- `on_operation`. An exception is logged; what was edited before it stays. -/
def onOperationTags (s : Database) (op : Operation) (ix : TagIndex) : TagIndex :=
  match op with
  | .customJson requiredAuths requiredBasicAuths _ json =>
    after (applyCustomJson fromString s requiredAuths requiredBasicAuths json) ix
  | _ => ix

/-- The index after a run of operations, each with the state it has led to. -/
def tagsAfter (ix : TagIndex) (run : List (Database × Operation)) : TagIndex :=
  run.foldl (fun ix step => onOperationTags fromString step.1 step.2 ix) ix

end Operations

end BtcmChain
