import BtcmChain.Fc.Safe
import BtcmChain.Lib.FlatMap
import Mathlib.Data.Prod.Lex

set_option autoImplicit false

/-!
# The object store under the undo database

What `graphene::db` keeps: objects by id, and for each index the number its next
object gets. An index may have unique secondary keys. `boost::multi_index` refuses a
write exactly when the new value shares such a key with another object, and that is
the only thing it refuses; the primitives below are the ones the undo database calls.
-/

namespace BtcmChain

/-! ## Object ids -/

/-- `object_id_type`: the index an object belongs to (its space and type), and its
number there. -/
structure ObjectId where
  index : Nat
  number : Nat
  deriving Repr

namespace ObjectId

/-- Ids in the order of their packed representation: by index first, then by number. -/
def toPair (id : ObjectId) : Nat ×ₗ Nat := toLex (id.index, id.number)

theorem toPair_injective : Function.Injective toPair := by
  rintro ⟨i, n⟩ ⟨j, m⟩ h
  have h : (i, n) = (j, m) := h
  cases h
  rfl

instance : LinearOrder ObjectId := LinearOrder.lift' toPair toPair_injective

end ObjectId

/-! ## Unique keys -/

/-- The unique secondary keys of the objects of each index. -/
class UniqueKeys (α : Type) where
  /-- What a key of an object may be. -/
  Key : Type
  /-- Two keys can be compared, as finding a duplicate needs. -/
  decEq : DecidableEq Key
  /-- The keys that have to be unique within an index, each as a function of the object. -/
  keys : Nat → List (α → Key)

attribute [reducible, instance] UniqueKeys.decEq

/-- Two values of an index share one of the keys that have to be unique there. -/
def clash {α : Type} [UniqueKeys α] (index : Nat) (a b : α) : Bool :=
  (UniqueKeys.keys index).any fun key => decide (key a = key b)

theorem clash_comm {α : Type} [UniqueKeys α] (index : Nat) (a b : α) :
    clash index a b = clash index b a := by
  simp only [clash, eq_comm]

/-! ## The store -/

/-- A store: the objects of all indexes, and the next number of each index. -/
@[ext] structure Store (α : Type) where
  objs : FlatMap ObjectId α := .empty
  nextId : Nat → Nat := fun _ => 0

namespace Store

variable {α : Type}

/-- The object with this id, if there is one in the store. -/
def find? (s : Store α) (id : ObjectId) : Option α := s.objs.find? id

/-- The id that the next object of an index gets. -/
def freshId (s : Store α) (index : Nat) : ObjectId := ⟨index, s.nextId index⟩

/-- `set_next_id`: from now on the objects of the index are numbered from `n` on. -/
def setNextId (s : Store α) (index n : Nat) : Store α :=
  { s with nextId := Function.update s.nextId index n }

variable [UniqueKeys α]

/-- Whether a value would share a unique key with another object. -/
def collides (s : Store α) (id : ObjectId) (v : α) : Bool :=
  s.objs.entries.any fun e => decide (e.1 ≠ id ∧ e.1.index = id.index) && clash id.index e.2 v

/-- `insert`: refused when the id or a unique key is taken. -/
def insert (s : Store α) (id : ObjectId) (v : α) : Except Exn (Store α) :=
  if (s.find? id).isSome ∨ s.collides id v then
    .error (.assert "Could not insert object, most likely a uniqueness constraint was violated")
  else .ok { s with objs := s.objs.set id v }

/-- `create`: insert the object under the next number of its index, unless the id or a unique key is
taken. -/
def create (s : Store α) (index : Nat) (v : α) : Except Exn (Store α) :=
  if (s.find? (s.freshId index)).isSome ∨ s.collides (s.freshId index) v then
    .error (.assert "Could not create object! Most likely a uniqueness constraint is violated.")
  else .ok ({ s with objs := s.objs.set (s.freshId index) v }.setNextId index (s.nextId index + 1))

/-- `modify`, with the value that the modifier leaves; it fails when another object has one of its
unique keys. -/
def modify (s : Store α) (id : ObjectId) (v : α) : Except Exn (Store α) :=
  if (s.find? id).isNone then .error (.assert "Unable to find Object")
  else if s.collides id v then
    .error (.assert "Could not modify object, most likely an index constraint was violated")
  else .ok { s with objs := s.objs.set id v }

omit [UniqueKeys α] in
/-- `remove` of an object, which has to be there. -/
def remove (s : Store α) (id : ObjectId) : Except Exn (Store α) :=
  if (s.find? id).isNone then .error (.assert "Unable to find Object")
  else .ok { s with objs := s.objs.erase id }

/-! ## Well-formed stores -/

/-- Numbers in use are below the next one, and no two objects share a unique key. -/
structure WF (s : Store α) : Prop where
  bound : ∀ {id v}, s.find? id = some v → id.number < s.nextId id.index
  unique : ∀ {id id' v v'}, s.find? id = some v → s.find? id' = some v' → id ≠ id' →
    id.index = id'.index → clash id.index v v' = false

variable {s t : Store α} {id : ObjectId} {v : α}

theorem collides_iff : s.collides id v = true ↔
    ∃ id' v', s.find? id' = some v' ∧ id' ≠ id ∧ id'.index = id.index ∧
      clash id.index v' v = true := by
  simp only [collides, List.any_eq_true, Bool.and_eq_true, decide_eq_true_eq, Prod.exists, find?,
    ← FlatMap.mem_entries_iff]
  exact ⟨fun ⟨a, b, h, ⟨h1, h2⟩, h3⟩ => ⟨a, b, h, h1, h2, h3⟩,
    fun ⟨a, b, h, h1, h2, h3⟩ => ⟨a, b, h, ⟨h1, h2⟩, h3⟩⟩

omit [UniqueKeys α] in
/-- Stores with the same objects and the same next numbers are the same. -/
theorem ext_find? (hobjs : ∀ id, s.find? id = t.find? id)
    (hnext : ∀ i, s.nextId i = t.nextId i) : s = t :=
  Store.ext (FlatMap.ext_find? hobjs) (funext hnext)

theorem modify_ok : s.modify id v = .ok t ↔
    (∃ a, s.find? id = some a) ∧ s.collides id v = false ∧ t = { s with objs := s.objs.set id v } := by
  rw [modify]
  split
  case isTrue hnone =>
    have hnone : s.find? id = none := by simpa using hnone
    simp [hnone]
  case isFalse hsome =>
    obtain ⟨a, ha⟩ : ∃ a, s.find? id = some a := by
      cases h : s.find? id with
      | none => exact absurd (by simp [h]) hsome
      | some a => exact ⟨a, rfl⟩
    split
    case isTrue hc => simp [hc]
    case isFalse hc =>
      have hc : s.collides id v = false := by simpa using hc
      simp only [Except.ok.injEq, ha, hc, true_and, Option.some.injEq, exists_eq']
      exact eq_comm

omit [UniqueKeys α] in
theorem remove_ok : s.remove id = .ok t ↔
    (∃ a, s.find? id = some a) ∧ t = { s with objs := s.objs.erase id } := by
  rw [remove]
  cases h : s.find? id with
  | none => simp
  | some a =>
      simp only [Option.isNone_some, Bool.false_eq_true, if_false, Except.ok.injEq,
        Option.some.injEq, exists_eq', true_and]
      exact eq_comm

theorem insert_ok : s.insert id v = .ok t ↔
    s.find? id = none ∧ s.collides id v = false ∧ t = { s with objs := s.objs.set id v } := by
  rw [insert]
  cases h : s.find? id with
  | some a => simp
  | none =>
      simp only [Option.isSome_none, Bool.false_eq_true, false_or, true_and]
      cases s.collides id v with
      | true => simp
      | false =>
          simp only [Bool.false_eq_true, if_false, Except.ok.injEq, true_and]
          exact eq_comm

theorem create_ok {index : Nat} : s.create index v = .ok t ↔
    s.find? (s.freshId index) = none ∧ s.collides (s.freshId index) v = false ∧
      t = Store.setNextId { s with objs := s.objs.set (s.freshId index) v } index
        (s.nextId index + 1) := by
  rw [create]
  cases h : s.find? (s.freshId index) with
  | some a => simp
  | none =>
      simp only [Option.isSome_none, Bool.false_eq_true, false_or, true_and]
      cases s.collides (s.freshId index) v with
      | true => simp
      | false =>
          simp only [Bool.false_eq_true, if_false, Except.ok.injEq, true_and]
          exact eq_comm

/-! ## Lookups after a write -/

omit [UniqueKeys α] in
theorem find?_set (id' : ObjectId) :
    find? { s with objs := s.objs.set id v } id' = if id' = id then some v else s.find? id' :=
  FlatMap.find?_set _ _ _ _

omit [UniqueKeys α] in
theorem find?_erase (id' : ObjectId) :
    find? { s with objs := s.objs.erase id } id' = if id' = id then none else s.find? id' :=
  FlatMap.find?_erase _ _ _

omit [UniqueKeys α] in
@[simp] theorem find?_setNextId (index n : Nat) : (s.setNextId index n).find? id = s.find? id := rfl

omit [UniqueKeys α] in
theorem nextId_setNextId (index n i : Nat) :
    (s.setNextId index n).nextId i = if i = index then n else s.nextId i := by
  simp only [setNextId, Function.update_apply]

/-! ## The primitives keep stores well formed -/

/-- A write that does not collide with other objects keeps the unique keys of the store unique. -/
theorem WF.set (h : s.WF) (hc : s.collides id v = false) {next : Nat → Nat}
    (hnext : ∀ i, s.nextId i ≤ next i) (hid : id.number < next id.index) :
    WF { objs := s.objs.set id v, nextId := next } where
  bound {id' w} hw := by
    have hw : (s.objs.set id v).find? id' = some w := hw
    rw [FlatMap.find?_set] at hw
    split at hw
    case isTrue heq => exact heq ▸ hid
    case isFalse => exact lt_of_lt_of_le (h.bound hw) (hnext _)
  unique {a b x y} hx hy hne hindex := by
    replace hx : (s.objs.set id v).find? a = some x := hx
    replace hy : (s.objs.set id v).find? b = some y := hy
    rw [FlatMap.find?_set] at hx hy
    have hfree : ∀ id' v', s.find? id' = some v' → id' ≠ id → id'.index = id.index →
        clash id.index v' v = false := by
      intro id' v' h1 h2 h3
      cases hcl : clash id.index v' v with
      | false => rfl
      | true => exact absurd (collides_iff.mpr ⟨id', v', h1, h2, h3, hcl⟩) (by simp [hc])
    split at hx
    case isTrue ha =>
      subst ha
      obtain rfl := Option.some.inj hx
      rw [if_neg (Ne.symm hne)] at hy
      rw [clash_comm]
      exact hfree b y hy (Ne.symm hne) hindex.symm
    case isFalse ha =>
      split at hy
      case isTrue hb =>
        subst hb
        obtain rfl := Option.some.inj hy
        rw [hindex]
        exact hfree a x hx ha hindex
      case isFalse hb => exact h.unique hx hy hne hindex

theorem WF.modify (h : s.WF) (hm : s.modify id v = .ok t) : t.WF := by
  obtain ⟨⟨a, ha⟩, hc, rfl⟩ := modify_ok.mp hm
  exact h.set hc (fun _ => le_refl _) (h.bound ha)

theorem WF.create (h : s.WF) {index : Nat} (hm : s.create index v = .ok t) : t.WF := by
  obtain ⟨-, hc, rfl⟩ := create_ok.mp hm
  refine h.set hc (fun i => ?_) ?_
  · rw [Function.update_apply]
    split
    case isTrue heq => exact heq ▸ Nat.le_succ _
    case isFalse => exact le_refl _
  · simp [freshId]

theorem WF.remove (h : s.WF) (hm : s.remove id = .ok t) : t.WF := by
  obtain ⟨-, rfl⟩ := remove_ok.mp hm
  have hold : ∀ {id' w}, find? { s with objs := s.objs.erase id } id' = some w →
      s.find? id' = some w := by
    intro id' w hw
    rw [find?_erase] at hw
    split at hw
    · cases hw
    · exact hw
  exact ⟨fun hw => h.bound (hold hw), fun hx hy => h.unique (hold hx) (hold hy)⟩

end Store

end BtcmChain
