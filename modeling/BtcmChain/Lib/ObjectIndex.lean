import BtcmChain.Lib.FlatMap

set_option autoImplicit false

/-!
# Object indices

An `ObjectIndex α` is a table of objects under ever-growing instance numbers: the
next free number is larger than every number in use, so a created object never
collides with an existing one and a removed number is never reused. Secondary
indices of the table are modelled as searches (`findBy?`) over the entries in
instance order.

Sums over the objects of an index (`sum`) are what invariants about totals are made of:
`sum_create`, `sum_update` and `sum_remove` say how each operation changes such a sum, for any
integer weight of an object and its number. A weight may be a condition as well, so counting
objects is a case of it.
-/

namespace BtcmChain

/-- Objects by instance number, together with the next free number. -/
structure ObjectIndex (α : Type) where
  /-- The live objects, by their instance numbers. -/
  objs : FlatMap Nat α
  /-- The instance number that the next created object gets. -/
  nextId : Nat
  /-- Every number in use is below the next free one, so that a created object never replaces
  another. -/
  bound : ∀ k v, objs.find? k = some v → k < nextId

namespace ObjectIndex

variable {α β : Type}

/-- The index with no objects, in which number 0 is the next free one. -/
def empty : ObjectIndex α := ⟨FlatMap.empty, 0, by simp⟩

instance : Inhabited (ObjectIndex α) := ⟨empty⟩

/-- The live object with instance number `k`, if there is one. -/
def find? (ix : ObjectIndex α) (k : Nat) : Option α := ix.objs.find? k

/-- Number and value of the first object, in the order of the numbers, that satisfies `p`. -/
def findBy? (ix : ObjectIndex α) (p : α → Bool) : Option (Nat × α) :=
  ix.objs.entries.find? fun e => p e.2

/-- The live objects with their numbers, in the order of the numbers. -/
def entries (ix : ObjectIndex α) : List (Nat × α) := ix.objs.entries

/-- Whether there is any live object that satisfies `p`. -/
def any (ix : ObjectIndex α) (p : α → Bool) : Bool := (ix.findBy? p).isSome

theorem find?_nextId (ix : ObjectIndex α) : ix.objs.find? ix.nextId = none := by
  cases h : ix.objs.find? ix.nextId with
  | none => rfl
  | some v => exact absurd (ix.bound _ _ h) (lt_irrefl _)

/-- Add an object under the next free number, which no live object has. -/
def create (ix : ObjectIndex α) (a : α) : ObjectIndex α where
  objs := ix.objs.set ix.nextId a
  nextId := ix.nextId + 1
  bound := fun k v h => by
    rw [FlatMap.find?_set] at h
    split at h
    case isTrue heq => exact heq ▸ Nat.lt_succ_self _
    case isFalse => exact Nat.lt_succ_of_lt (ix.bound k v h)

/-- Apply `f` to the object with number `k`; where there is none, the index stays as it is. -/
def update (ix : ObjectIndex α) (k : Nat) (f : α → α) : ObjectIndex α where
  objs := ix.objs.update k f
  nextId := ix.nextId
  bound := fun k' v h => by
    rw [FlatMap.find?_update] at h
    split at h
    case isTrue heq =>
      obtain ⟨w, hw, -⟩ := Option.map_eq_some_iff.mp h
      exact heq ▸ ix.bound k w hw
    case isFalse => exact ix.bound k' v h

/-- Remove the object with number `k`. Its number is not given out again. -/
def remove (ix : ObjectIndex α) (k : Nat) : ObjectIndex α where
  objs := ix.objs.erase k
  nextId := ix.nextId
  bound := fun k' v h => by
    rw [FlatMap.find?_erase] at h
    split at h
    · cases h
    · exact ix.bound k' v h

/-- The sum of a weight over all live objects, where the weight may depend on the number. -/
def sum (ix : ObjectIndex α) (w : Nat → α → ℤ) : ℤ := ix.objs.sum w

/-! ## Lookup -/

@[simp] theorem find?_empty (k : Nat) : (empty : ObjectIndex α).find? k = none := rfl

theorem find?_create (ix : ObjectIndex α) (a : α) (k : Nat) :
    (ix.create a).find? k = if k = ix.nextId then some a else ix.find? k :=
  FlatMap.find?_set ..

theorem find?_update (ix : ObjectIndex α) (k k' : Nat) (f : α → α) :
    (ix.update k f).find? k' = if k' = k then (ix.find? k).map f else ix.find? k' :=
  FlatMap.find?_update ..

theorem find?_remove (ix : ObjectIndex α) (k k' : Nat) :
    (ix.remove k).find? k' = if k' = k then none else ix.find? k' :=
  FlatMap.find?_erase ..

theorem find?_of_findBy? {ix : ObjectIndex α} {p : α → Bool} {k : Nat} {a : α}
    (h : ix.findBy? p = some (k, a)) : ix.find? k = some a ∧ p a = true :=
  ⟨FlatMap.mem_entries_iff.mp (List.mem_of_find?_eq_some h),
    by simpa using List.find?_some h⟩

theorem findBy?_eq_none {ix : ObjectIndex α} {p : α → Bool} :
    ix.findBy? p = none ↔ ∀ k a, ix.find? k = some a → p a = false := by
  simp only [findBy?, List.find?_eq_none, Bool.not_eq_true]
  exact ⟨fun h k a hk => h (k, a) (FlatMap.mem_entries_iff.mpr hk),
    fun h e he => h e.1 e.2 (FlatMap.mem_entries_iff.mp he)⟩

theorem mem_entries_iff {ix : ObjectIndex α} {k : Nat} {a : α} :
    (k, a) ∈ ix.entries ↔ ix.find? k = some a := FlatMap.mem_entries_iff

/-- Overwriting an object by one that looks the same leaves the view as it was. -/
theorem mapVals_update_const {ix : ObjectIndex α} {k : Nat} {a b : α} {obs : α → β}
    (ha : ix.find? k = some a) (h : obs b = obs a) :
    (ix.update k fun _ => b).objs.mapVals obs = ix.objs.mapVals obs :=
  FlatMap.mapVals_update_eq fun v hv => by
    obtain rfl := Option.some.inj (ha.symm.trans hv)
    exact h

/-! ## Sums -/

@[simp] theorem sum_empty (w : Nat → α → ℤ) : (empty : ObjectIndex α).sum w = 0 := rfl

theorem sum_create (ix : ObjectIndex α) (a : α) (w : Nat → α → ℤ) :
    (ix.create a).sum w = ix.sum w + w ix.nextId a :=
  FlatMap.sum_set_new ix.find?_nextId

theorem sum_update {ix : ObjectIndex α} {k : Nat} {a : α} {f : α → α} {w : Nat → α → ℤ}
    (h : ix.find? k = some a) : (ix.update k f).sum w = ix.sum w + (w k (f a) - w k a) :=
  FlatMap.sum_update h

theorem sum_remove {ix : ObjectIndex α} {k : Nat} {a : α} {w : Nat → α → ℤ}
    (h : ix.find? k = some a) : (ix.remove k).sum w = ix.sum w - w k a :=
  FlatMap.sum_erase h

theorem sum_congr {ix : ObjectIndex α} {w w' : Nat → α → ℤ}
    (h : ∀ k a, ix.find? k = some a → w k a = w' k a) : ix.sum w = ix.sum w' :=
  FlatMap.sum_congr h

theorem sum_add (ix : ObjectIndex α) (w w' : Nat → α → ℤ) :
    ix.sum (fun k a => w k a + w' k a) = ix.sum w + ix.sum w' :=
  FlatMap.sum_add ..

theorem sum_eq_zero {ix : ObjectIndex α} {w : Nat → α → ℤ}
    (h : ∀ k a, ix.find? k = some a → w k a = 0) : ix.sum w = 0 :=
  FlatMap.sum_eq_zero h

end ObjectIndex

end BtcmChain
