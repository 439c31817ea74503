import Mathlib.Algebra.Ring.Nat
import Mathlib.Data.List.Basic
import Mathlib.Data.Nat.Size
import Mathlib.Tactic.Common

set_option autoImplicit false

/-!
# Halving what is left

A stretch of numbers that ends with `high` is summed up by few of them: from its first one on, one
goes over half of what is left at every step. The numbers lie the denser the nearer the end is.

`halving` is that sequence of numbers, and `summary` keeps of a list the elements at its places.
The last element is among them (`getLast?_summary`), their number grows with the logarithm of the
length (`length_summary_le`), and before every element there is one in the summary that is no
farther away than the end (`exists_summary_near`): who has the list up to some element finds one he
has, and is sent at most twice what he misses.
-/

namespace BtcmChain

/-- The numbers one steps on, where the last `n` numbers up to `high` are left. -/
def halving (high n : Nat) : List Nat := (List.range n.size).map fun j => high + 1 - n / 2 ^ j

variable {high n m t : Nat}

@[simp] theorem halving_zero (high : Nat) : halving high 0 = [] := by simp [halving]

theorem size_of_pos (h : 0 < n) : n.size = (n / 2).size + 1 := by
  obtain ⟨k, b, hb⟩ : ∃ k b, Nat.bit b k = n := ⟨n / 2, n.bodd, by
    rw [← Nat.div2_val]
    exact Nat.bit_bodd_div2 n⟩
  have hhalf : n / 2 = k := by rw [← hb, Nat.bit_div_two]
  rw [hhalf, ← hb]
  exact Nat.size_bit (by omega)

theorem halving_of_pos (h : 0 < n) :
    halving high n = (high + 1 - n) :: halving high (n / 2) := by
  have hstep (j : Nat) : n / 2 ^ (j + 1) = n / 2 / 2 ^ j := by
    rw [Nat.div_div_eq_div_mul, ← Nat.pow_succ']
  rw [halving, size_of_pos h, List.range_succ_eq_map]
  simp [halving, hstep]

/-- The step from one number of the halving to the next: the stretch that is left is about half as
long. -/
theorem halving_step (n high : Nat) (h : 0 < n) (hn : n ≤ high + 1) :
    high + 1 - n + (high - (high + 1 - n) + 2) / 2 = high + 1 - n / 2 := by omega

/-- What half of a number inherits to it holds of all. -/
theorem halving_induction {P : Nat → Prop} (zero : P 0) (half : ∀ n, 0 < n → P (n / 2) → P n)
    (n : Nat) : P n := by
  induction n using Nat.strongRecOn with
  | ind n ih =>
      rcases Nat.eq_zero_or_pos n with hzero | hpos
      · rw [hzero]
        exact zero
      · exact half n hpos (ih (n / 2) (by omega))

theorem length_halving (high n : Nat) : (halving high n).length = n.size := by simp [halving]

/-- Few numbers are enough: a stretch shorter than `2 ^ k` is summed up by at most `k` of them. -/
theorem length_halving_le {k : Nat} (h : n < 2 ^ k) : (halving high n).length ≤ k := by
  rw [length_halving]
  exact Nat.size_le.mpr h

theorem mem_halving (hn : n ≤ high + 1) (h : m ∈ halving high n) :
    high + 1 - n ≤ m ∧ m ≤ high := by
  induction n using halving_induction with
  | zero => simp at h
  | half n hpos ih =>
      rw [halving_of_pos hpos] at h
      cases List.mem_cons.mp h with
      | inl hm => omega
      | inr hm =>
          have hrest := ih (by omega) hm
          omega

/-- The numbers of a halving ascend, each one strictly above the number before. -/
theorem pairwise_halving (hn : n ≤ high + 1) : (halving high n).Pairwise (· < ·) := by
  induction n using halving_induction with
  | zero => simp
  | half n hpos ih =>
      rw [halving_of_pos hpos, List.pairwise_cons]
      refine ⟨fun m hm => ?_, ih (by omega)⟩
      have hrest := mem_halving (by omega) hm
      omega

/-- The last number of a halving is the end of the stretch, whatever the stretch is. -/
theorem getLast?_halving (high : Nat) (h : 0 < n) : (halving high n).getLast? = some high := by
  induction n using halving_induction with
  | zero => exact absurd h (Nat.lt_irrefl 0)
  | half n hpos ih =>
      rw [halving_of_pos hpos]
      rcases Nat.eq_zero_or_pos (n / 2) with hzero | hhalf
      · have hone : n = 1 := by omega
        simp [hone]
      · rw [List.getLast?_cons, ih hhalf]
        rfl

/-- **Dense near the end**: below every number of the stretch, one steps on a number that is no
farther away than the end. -/
theorem exists_halving_near (hn : n ≤ high + 1) (hlow : high + 1 - n ≤ t) (hhigh : t ≤ high) :
    ∃ m ∈ halving high n, m ≤ t ∧ t - m ≤ high - t := by
  induction n using halving_induction with
  | zero => omega
  | half n hpos ih =>
      rw [halving_of_pos hpos]
      by_cases hnext : high + 1 - n / 2 ≤ t
      · obtain ⟨m, hm, hle⟩ := ih (by omega) hnext
        exact ⟨m, List.mem_cons_of_mem _ hm, hle⟩
      · exact ⟨high + 1 - n, List.mem_cons_self, hlow, by omega⟩

/-- In an ascending list, the numbers up to a bound come first and the numbers above it behind them.
-/
theorem filter_le_append {l : List Nat} (h : l.Pairwise (· < ·)) (b : Nat) :
    l.filter (fun k => decide (k ≤ b)) ++ l.filter (fun k => decide (b < k)) = l := by
  induction l with
  | nil => rfl
  | cons a l ih =>
      obtain ⟨hle, hrest⟩ := List.pairwise_cons.mp h
      by_cases ha : a ≤ b
      · simp [ha, ih hrest]
      · have hnone : l.filter (fun k => decide (k ≤ b)) = [] := by
          refine List.filter_eq_nil_iff.mpr fun k hk => ?_
          have hlt := hle k hk
          simp
          omega
        have hall : l.filter (fun k => decide (b < k)) = l := by
          refine List.filter_eq_self.mpr fun k hk => ?_
          have hlt := hle k hk
          simp
          omega
        simp [ha, hnone, hall, Nat.lt_of_not_le ha]

/-! ## Few of a list -/

variable {α : Type} {l : List α} {low : Nat}

/-- Few elements of a list, whose places are counted from one, the first of them at `low`. -/
def summary (l : List α) (low : Nat) : List α :=
  (halving l.length (l.length + 1 - low)).filterMap fun k => l[k - 1]?

theorem length_summary_le {k : Nat} (h : l.length < 2 ^ k) (hlow : 0 < low) :
    (summary l low).length ≤ k := by
  refine Nat.le_trans (List.length_filterMap_le _ _) (length_halving_le ?_)
  omega

/-- The summary of a list ends with the entry that the list itself ends with. -/
theorem getLast?_summary (h : low ≤ l.length) : (summary l low).getLast? = l.getLast? := by
  have hlast := getLast?_halving (n := l.length + 1 - low) l.length (by omega)
  obtain ⟨init, hinit⟩ := List.getLast?_eq_some_iff.mp hlast
  rw [summary, hinit, List.filterMap_append]
  cases hl : l.getLast? with
  | none =>
      rw [List.getLast?_eq_none_iff] at hl
      simp [hl]
  | some x =>
      have hx : l[l.length - 1]? = some x := by rw [← hl, List.getLast?_eq_getElem?]
      simp [hx]

theorem getElem?_mem_summary {k : Nat} {x : α} (hk : k ∈ halving l.length (l.length + 1 - low))
    (hx : l[k - 1]? = some x) : x ∈ summary l low := List.mem_filterMap.mpr ⟨k, hk, hx⟩

/-- Before every element of the list, counted from one, there is one in the summary that is no
farther away than the end. -/
theorem exists_summary_near (hpos : 0 < low) (hlow : low ≤ t) (ht : t ≤ l.length) :
    ∃ k x, x ∈ summary l low ∧ l[k - 1]? = some x ∧ low ≤ k ∧ k ≤ t ∧ t - k ≤ l.length - t := by
  obtain ⟨k, hk, hle, hnear⟩ := exists_halving_near (n := l.length + 1 - low) (t := t)
    (by omega) (by omega) ht
  have hge := (mem_halving (by omega) hk).1
  have hx : l[k - 1]? = some l[k - 1] := List.getElem?_eq_getElem (by omega)
  exact ⟨k, _, getElem?_mem_summary hk hx, hx, by omega, hle, hnear⟩

/-- A summary of two lists, part by part: the elements of the first list and those of the second. -/
theorem summary_append (front back : List α) (hlow : 0 < low) :
    summary (front ++ back) low =
      ((halving (front ++ back).length ((front ++ back).length + 1 - low)).filter
          fun k => decide (k ≤ front.length)).filterMap (fun k => front[k - 1]?) ++
        ((halving (front ++ back).length ((front ++ back).length + 1 - low)).filter
          fun k => decide (front.length + 1 ≤ k)).filterMap
            fun k => back[k - (front.length + 1)]? := by
  have hle : (front ++ back).length + 1 - low ≤ (front ++ back).length + 1 := Nat.sub_le _ _
  have hparts := filter_le_append (pairwise_halving hle) front.length
  rw [summary]
  conv_lhs => rw [← hparts]
  rw [List.filterMap_append]
  congr 1
  · refine List.filterMap_congr fun k hk => ?_
    obtain ⟨hmem, hk⟩ := List.mem_filter.mp hk
    have hge := (mem_halving hle hmem).1
    have hk := of_decide_eq_true hk
    by_cases hend : k - 1 < front.length
    · rw [List.getElem?_append_left hend]
    · omega
  · refine List.filterMap_congr fun k hk => ?_
    have hk := of_decide_eq_true (List.mem_filter.mp hk).2
    rw [List.getElem?_append_right (by omega), Nat.sub_sub, Nat.add_comm 1]

end BtcmChain
