import Mathlib.Data.List.Basic

set_option autoImplicit false

/-!
# Pairing trees

A list is brought to one element by joining neighbours, level after level; an odd last element goes
up as it is. Done with trees this builds the pairing tree of the list, and whatever the joining
computes, it computes along that tree.

`pairUp` is one level and `collapse` all of them. `pairingTree` is the tree, with the elements of
the list at its leaves, and `collapse_eq_digest` says that collapsing a list of values is
evaluating this tree, for every joining operation, associative or not. The recursion is on the
length, which a level makes smaller.
-/

namespace BtcmChain

variable {α β : Type}

/-- One level up: neighbours are joined, an odd last element stays. -/
def pairUp (join : β → β → β) : List β → List β
  | a :: b :: rest => join a b :: pairUp join rest
  | rest => rest

@[simp] theorem pairUp_cons_cons {join : β → β → β} {a b : β} {rest : List β} :
    pairUp join (a :: b :: rest) = join a b :: pairUp join rest := rfl

@[simp] theorem pairUp_nil {join : β → β → β} : pairUp join [] = [] := rfl

@[simp] theorem pairUp_singleton {join : β → β → β} {a : β} : pairUp join [a] = [a] := rfl

@[simp] theorem length_pairUp (join : β → β → β) :
    ∀ l : List β, (pairUp join l).length = (l.length + 1) / 2
  | [] => by simp
  | [_] => by simp
  | _ :: _ :: rest => by
      simp only [pairUp_cons_cons, List.length_cons, length_pairUp join rest]
      omega

/-- What is joined at the front does not depend on what follows. -/
theorem pairUp_append {join : β → β → β} {m : ℕ} {l l' : List β} (h : l.length = 2 * m) :
    pairUp join (l ++ l') = pairUp join l ++ pairUp join l' := by
  induction m generalizing l with
  | zero =>
      rw [List.length_eq_zero_iff.mp h]
      rfl
  | succ m ih =>
      match l, h with
      | a :: b :: rest, h =>
          have hrest : rest.length = 2 * m := by
            simp only [List.length_cons] at h
            omega
          simp only [List.cons_append, pairUp_cons_cons, ih hrest]

/-- Join neighbours over and over, until a single element is left; an empty list has none. -/
def collapse (join : β → β → β) : List β → Option β
  | [] => none
  | [a] => some a
  | a :: b :: rest => collapse join (pairUp join (a :: b :: rest))
termination_by l => l.length
decreasing_by
  simp only [length_pairUp, List.length_cons]
  omega

@[simp] theorem collapse_nil {join : β → β → β} : collapse join [] = none := by
  rw [collapse]

@[simp] theorem collapse_singleton {join : β → β → β} {a : β} : collapse join [a] = some a := by
  rw [collapse]

/-- Where there is something to join, going up a level changes nothing. -/
theorem collapse_pairUp {join : β → β → β} {l : List β} (h : 1 < l.length) :
    collapse join (pairUp join l) = collapse join l := by
  match l, h with
  | a :: b :: rest, _ => rw [collapse.eq_def join (a :: b :: rest)]

section Map

variable {join : α → α → α} {join' : β → β → β} {f : α → β}

theorem map_pairUp (hf : ∀ a b, f (join a b) = join' (f a) (f b)) :
    ∀ l : List α, (pairUp join l).map f = pairUp join' (l.map f)
  | [] => rfl
  | [_] => rfl
  | a :: b :: rest => by
      simp only [pairUp_cons_cons, List.map_cons, hf, map_pairUp hf rest]

/-- What carries one joining over to another carries the result over. -/
theorem map_collapse (hf : ∀ a b, f (join a b) = join' (f a) (f b)) (l : List α) :
    (collapse join l).map f = collapse join' (l.map f) := by
  induction l using collapse.induct join with
  | case1 => simp
  | case2 a => simp
  | case3 a b rest ih =>
      rw [← collapse_pairUp (l := a :: b :: rest) (by simp), ih, map_pairUp hf,
        collapse_pairUp (by simp)]

end Map

/-- A binary tree with its elements at the leaves, as joining neighbours over and over builds it. -/
inductive PairingTree (α : Type) where
  | leaf (a : α)
  | node (left right : PairingTree α)
  deriving Repr, DecidableEq

/-- What joining gives along the tree, from the leaves up to its root. -/
def PairingTree.digest (join : α → α → α) : PairingTree α → α
  | .leaf a => a
  | .node left right => join (left.digest join) (right.digest join)

/-- The pairing tree of a list; the empty list has none. -/
def pairingTree (l : List α) : Option (PairingTree α) := collapse .node (l.map .leaf)

/-- Joining the elements of a list level by level is joining along its tree. -/
theorem collapse_eq_digest (join : α → α → α) (l : List α) :
    collapse join l = (pairingTree l).map (PairingTree.digest join) := by
  have hleaves : (l.map PairingTree.leaf).map (PairingTree.digest join) = l := by
    rw [List.map_map]
    exact List.map_id l
  have hnode : ∀ a b : PairingTree α, (PairingTree.node a b).digest join =
      join (a.digest join) (b.digest join) := fun _ _ => rfl
  rw [pairingTree, map_collapse hnode, hleaves]

end BtcmChain
