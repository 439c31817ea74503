import BtcmChain.Lib.FlatMap
import Mathlib.Data.List.Induction

set_option autoImplicit false

/-!
# Entries written to a map in turn

`map[key] = value` for one item after the other: of the items with one key, the last one counts.
The weights of all items are the weights of the keys added up.

`ofItems` is the map that is left, and `amountOf` what the items with one key weigh together. The
two answer different questions: a map that is overwritten knows the last item with a key
(`find?_ofItems`), while the weights are those of all items (`sum_amountOf`); they agree where no
key occurs twice.
-/

namespace BtcmChain

namespace FlatMap

variable {κ α β : Type} [LinearOrder κ] {key : β → κ} {value : β → α}

/-- The map that a list of items leaves when each item writes its value at its key, the later over
the earlier. -/
def ofItems (key : β → κ) (value : β → α) (items : List β) : FlatMap κ α :=
  items.foldl (fun m b => m.set (key b) (value b)) .empty

theorem find?_ofItems (items : List β) (k : κ) :
    (ofItems key value items).find? k = ((items.filter (key · = k)).getLast?).map value := by
  induction items using List.reverseRecOn with
  | nil => rfl
  | append_singleton items b ih =>
      have hset : ofItems key value (items ++ [b]) = (ofItems key value items).set (key b) (value b) := by
        rw [ofItems, List.foldl_append]
        rfl
      rw [hset, find?_set, List.filter_append]
      by_cases hk : key b = k
      · simp [hk]
      · simp [hk, Ne.symm hk, ih]

/-- Every item of the list has its key in the map, though perhaps not with its own value. -/
theorem find?_ofItems_ne_none {items : List β} {b : β} (hb : b ∈ items) :
    (ofItems key value items).find? (key b) ≠ none := by
  have hmem : b ∈ items.filter (key · = key b) := List.mem_filter.mpr ⟨hb, decide_eq_true rfl⟩
  rw [find?_ofItems]
  intro hnone
  rw [Option.map_eq_none_iff, List.getLast?_eq_none_iff] at hnone
  rw [hnone] at hmem
  cases hmem

/-- The amount that the items of one key have together. -/
def amountOf (key : β → κ) (w : β → ℕ) (items : List β) (k : κ) : ℕ :=
  ((items.filter (key · = k)).map w).sum

/-- Over the entries of a map, one key that is in use gives just one summand. -/
theorem sum_single {m : FlatMap κ α} {k : κ} (hk : m.find? k ≠ none) (x : ℤ) :
    m.sum (fun k' _ => if k' = k then x else 0) = x := by
  obtain ⟨v, hv⟩ := Option.ne_none_iff_exists'.mp hk
  have hrest : (m.erase k).sum (fun k' _ => if k' = k then x else 0) = 0 := by
    refine sum_eq_zero fun k' v' h' => if_neg fun heq => ?_
    rw [heq, find?_erase, if_pos rfl] at h'
    cases h'
  rw [sum_erase hv, if_pos rfl] at hrest
  linarith

/-- The amounts of the keys add up to that of all items. -/
theorem sum_amountOf {m : FlatMap κ α} (key : β → κ) (w : β → ℕ) {items : List β}
    (hkeys : ∀ b ∈ items, m.find? (key b) ≠ none) :
    m.sum (fun k _ => (amountOf key w items k : ℤ)) = (items.map w).sum := by
  induction items with
  | nil => exact sum_eq_zero fun _ _ _ => rfl
  | cons b items ih =>
      have hsplit : ∀ k, (amountOf key w (b :: items) k : ℤ) =
          (if k = key b then (w b : ℤ) else 0) + amountOf key w items k := by
        intro k
        by_cases hk : key b = k
        · simp [amountOf, hk]
        · simp [amountOf, hk, Ne.symm hk]
      simp only [hsplit, sum_add, List.map_cons, List.sum_cons, Nat.cast_add]
      rw [sum_single (hkeys b List.mem_cons_self),
        ih fun c hc => hkeys c (List.mem_cons_of_mem b hc)]

end FlatMap

end BtcmChain
