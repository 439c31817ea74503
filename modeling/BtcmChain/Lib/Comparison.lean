import Mathlib.Order.Basic
import Mathlib.Order.Defs.Unbundled
import Mathlib.Order.Lattice

set_option autoImplicit false

/-!
# Comparison operators

A type with hand-written comparison operators is ordered by them, up to its `==`, if they all go
back to one key in a linear order (`Comparison.Lawful.of_key`). The operators need only make sense
on some values of the type.

`Comparison` packs the six operators and `Comparison.Lawful` says what is expected of them on the
values that make sense: less-than is a strict weak order whose equivalence is `==`, and the other
operators are what their names say in terms of these two. A type whose operators take part in
sorting and searching needs no more than that.
-/

namespace BtcmChain

/-- The six comparison operators of a type, as functions with a yes or no for an answer. -/
structure Comparison (α : Type) where
  lt : α → α → Bool
  le : α → α → Bool
  gt : α → α → Bool
  ge : α → α → Bool
  eq : α → α → Bool
  ne : α → α → Bool

variable {α κ : Type}

/-- On the values in `P` the operators agree, and `<` is a strict weak order whose equivalence is
`==`. -/
structure Comparison.Lawful (c : Comparison α) (P : α → Prop) : Prop where
  weak : IsStrictWeakOrder {a // P a} fun a b => c.lt a b = true
  eq_iff : ∀ a b, P a → P b → (c.eq a b = true ↔ c.lt a b = false ∧ c.lt b a = false)
  ne_eq : ∀ a b, P a → P b → c.ne a b = !c.eq a b
  le_iff : ∀ a b, P a → P b → (c.le a b = true ↔ c.lt a b = true ∨ c.eq a b = true)
  le_eq : ∀ a b, P a → P b → c.le a b = !c.lt b a
  gt_eq : ∀ a b, P a → P b → c.gt a b = c.lt b a
  ge_eq : ∀ a b, P a → P b → c.ge a b = c.le b a

/-- A relation that goes back to a key is a strict weak order. -/
theorem isStrictWeakOrder_of_key [LinearOrder κ] {lt : α → α → Prop} (key : α → κ)
    (hlt : ∀ a b, lt a b ↔ key a < key b) : IsStrictWeakOrder α lt where
  irrefl a h := lt_irrefl (key a) ((hlt a a).mp h)
  trans a b c hab hbc := (hlt a c).mpr (((hlt a b).mp hab).trans ((hlt b c).mp hbc))
  incomp_trans a b c hab hbc := by
    simp only [hlt, not_lt] at hab hbc ⊢
    exact ⟨hbc.1.trans hab.1, hab.2.trans hbc.2⟩

/-- The operators are lawful if `<` and `==` compare a key and the others are written with them. -/
theorem Comparison.Lawful.of_key [LinearOrder κ] {c : Comparison α} {P : α → Prop} (key : α → κ)
    (hlt : ∀ a b, P a → P b → (c.lt a b = true ↔ key a < key b))
    (heq : ∀ a b, P a → P b → (c.eq a b = true ↔ key a = key b))
    (hne : ∀ a b, c.ne a b = !c.eq a b) (hle : ∀ a b, c.le a b = (c.eq a b || c.lt a b))
    (hgt : ∀ a b, c.gt a b = !c.le a b) (hge : ∀ a b, c.ge a b = !c.lt a b) : c.Lawful P := by
  have hnlt : ∀ a b, P a → P b → (c.lt a b = false ↔ key b ≤ key a) := by
    intro a b ha hb
    rw [← Bool.not_eq_true, hlt a b ha hb, not_lt]
  have hle' : ∀ a b, P a → P b → (c.le a b = true ↔ key a ≤ key b) := by
    intro a b ha hb
    rw [hle, Bool.or_eq_true, heq a b ha hb, hlt a b ha hb, le_iff_eq_or_lt]
  have hflip : ∀ a b, P a → P b → c.le a b = !c.lt b a := by
    intro a b ha hb
    rw [Bool.eq_iff_iff, hle' a b ha hb, Bool.not_eq_true', hnlt b a hb ha]
  refine ⟨isStrictWeakOrder_of_key (fun a => key a) fun a b => hlt a b a.2 b.2, ?_, ?_, ?_, hflip,
    ?_, ?_⟩
  · intro a b ha hb
    rw [heq a b ha hb, hnlt a b ha hb, hnlt b a hb ha, and_comm]
    exact le_antisymm_iff
  · exact fun a b _ _ => hne a b
  · intro a b _ _
    rw [hle, Bool.or_eq_true, or_comm]
  · intro a b ha hb
    rw [hgt, hflip a b ha hb, Bool.not_not]
  · intro a b ha hb
    rw [hge, hflip b a hb ha]

end BtcmChain
