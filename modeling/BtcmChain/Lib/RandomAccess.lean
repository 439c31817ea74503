import Mathlib.Data.List.Basic
import Mathlib.Tactic.Ring

set_option autoImplicit false

/-!
# Random access

A file as the list of what stands in it. Writing behind the end leaves a gap, which is filled up;
what a write does not reach can be read as before. A file of records, all of one size, is read and
written record by record.

`readAt` takes what is there and reads less at the end of a file; `writeAt` first fills the gap up
to its position. The lemmas come in the four cases of a read and a write: the same stretch, one
before it, one behind it, and the gap. `record` is one record by its number, and a file that
consists of whole records does so after a record is written (`length_writeAt_record`,
`record_writeAt`).
-/

namespace BtcmChain

namespace RandomAccess

variable {α : Type} {z : α} {f g bs : List α} {pos q n m w k j : Nat}

/-- `n` symbols from `pos` on; fewer where the file ends. -/
def readAt (f : List α) (pos n : Nat) : List α := (f.drop pos).take n

/-- Write at `pos`; a gap before it is filled with `z`. -/
def writeAt (z : α) (f : List α) (pos : Nat) (bs : List α) : List α :=
  f.take pos ++ List.replicate (pos - f.length) z ++ bs ++ f.drop (pos + bs.length)

/-- The record of width `w` at place `k` of a file of such records. -/
def record (w : Nat) (f : List α) (k : Nat) : List α := readAt f (w * k) w

theorem length_readAt (h : pos + n ≤ f.length) : (readAt f pos n).length = n := by
  rw [readAt, List.length_take, List.length_drop]
  omega

theorem length_writeAt : (writeAt z f pos bs).length = max f.length (pos + bs.length) := by
  simp only [writeAt, List.length_append, List.length_take, List.length_replicate,
    List.length_drop]
  omega

theorem readAt_append_left (h : pos + n ≤ f.length) : readAt (f ++ g) pos n = readAt f pos n := by
  rw [readAt, readAt, List.drop_append_of_le_length (by omega),
    List.take_append_of_le_length (by rw [List.length_drop]; omega)]

theorem readAt_append_right : readAt (f ++ g) f.length g.length = g := by
  rw [readAt, List.drop_left, List.take_length]

theorem readAt_take (h : pos + n ≤ m) : readAt (f.take m) pos n = readAt f pos n := by
  rw [readAt, readAt, List.drop_take, List.take_take, Nat.min_eq_left (by omega)]

/-- What stands where in a file that was written to. -/
theorem getElem?_writeAt (i : Nat) : (writeAt z f pos bs)[i]? =
    if i < pos then if i < f.length then f[i]? else some z
    else if i < pos + bs.length then bs[i - pos]? else f[i]? := by
  have hfront : (f.take pos ++ List.replicate (pos - f.length) z).length = pos := by
    simp only [List.length_append, List.length_take, List.length_replicate]
    omega
  rw [writeAt, List.append_assoc, List.getElem?_append, hfront]
  by_cases hi : i < pos
  · rw [if_pos hi, if_pos hi, List.getElem?_append, List.length_take]
    by_cases hf : i < f.length
    · rw [if_pos hf, if_pos (by omega), List.getElem?_take_of_lt hi]
    · rw [if_neg hf, if_neg (by omega), List.getElem?_replicate, if_pos (by omega)]
  · rw [if_neg hi, if_neg hi, List.getElem?_append]
    by_cases hb : i < pos + bs.length
    · rw [if_pos hb, if_pos (by omega)]
    · rw [if_neg hb, if_neg (by omega), List.getElem?_drop]
      congr 1
      omega

theorem getElem?_readAt (i : Nat) :
    (readAt f pos n)[i]? = if i < n then f[pos + i]? else none := by
  rw [readAt, List.getElem?_take, List.getElem?_drop]

/-- A write at the end of the file appends to it, with nothing filled in between. -/
theorem writeAt_length : writeAt z f f.length bs = f ++ bs := by
  rw [writeAt, List.take_length, Nat.sub_self, List.drop_of_length_le (by omega)]
  simp

/-- What was written at a position is read back from there. -/
theorem readAt_writeAt_self : readAt (writeAt z f pos bs) pos bs.length = bs := by
  apply List.ext_getElem?
  intro i
  rw [getElem?_readAt, getElem?_writeAt]
  by_cases hi : i < bs.length
  · rw [if_pos hi, if_neg (by omega), if_pos (by omega), Nat.add_sub_cancel_left]
  · rw [if_neg hi, List.getElem?_eq_none (by omega)]

/-- A write does not reach what stands before its position: reading there gives what it gave. -/
theorem readAt_writeAt_before (hq : q + n ≤ pos) (hf : q + n ≤ f.length) :
    readAt (writeAt z f pos bs) q n = readAt f q n := by
  apply List.ext_getElem?
  intro i
  rw [getElem?_readAt, getElem?_readAt, getElem?_writeAt]
  by_cases hi : i < n
  · rw [if_pos hi, if_pos hi, if_pos (by omega), if_pos (by omega)]
  · rw [if_neg hi, if_neg hi]

/-- A write does not reach what stands behind its last byte either. -/
theorem readAt_writeAt_behind (hq : pos + bs.length ≤ q) :
    readAt (writeAt z f pos bs) q n = readAt f q n := by
  apply List.ext_getElem?
  intro i
  rw [getElem?_readAt, getElem?_readAt, getElem?_writeAt]
  by_cases hi : i < n
  · rw [if_pos hi, if_pos hi, if_neg (by omega), if_neg (by omega)]
  · rw [if_neg hi, if_neg hi]

/-- When a write begins behind the end of the file, the gap between them is filled up with `z`. -/
theorem readAt_writeAt_gap (hf : f.length ≤ q) (hq : q + n ≤ pos) :
    readAt (writeAt z f pos bs) q n = List.replicate n z := by
  apply List.ext_getElem?
  intro i
  rw [getElem?_readAt, getElem?_writeAt, List.getElem?_replicate]
  by_cases hi : i < n
  · rw [if_pos hi, if_pos hi, if_pos (by omega), if_neg (by omega)]
  · rw [if_neg hi, if_neg hi]

/-! ## Records -/

theorem record_take (h : k < m) : record w (f.take (w * m)) k = record w f k := by
  have hfit : w * k + w ≤ w * m := by
    calc w * k + w = w * (k + 1) := by ring
      _ ≤ w * m := Nat.mul_le_mul_left w h
  exact readAt_take hfit

/-- A file of `m` records has `max m (k + 1)` after a write at place `k`. -/
theorem length_writeAt_record (hf : f.length = w * m) (hbs : bs.length = w) :
    (writeAt z f (w * k) bs).length = w * max m (k + 1) := by
  have hend : w * k + w = w * (k + 1) := by ring
  rw [length_writeAt, hf, hbs, hend, Nat.mul_max_mul_left]

/-- The records of a file after one record was written: the new one at its place, the old ones at
theirs, and filling in between. -/
theorem record_writeAt (hf : f.length = w * m) (hbs : bs.length = w) (hj : j < max m (k + 1)) :
    record w (writeAt z f (w * k) bs) j =
      if j = k then bs else if j < m then record w f j else List.replicate w z := by
  subst hbs
  have hend (a : Nat) : bs.length * a + bs.length = bs.length * (a + 1) := by ring
  by_cases hjk : j = k
  · subst hjk
    rw [if_pos rfl]
    exact readAt_writeAt_self
  rw [if_neg hjk]
  by_cases hbefore : j < k
  · have hwrite : bs.length * j + bs.length ≤ bs.length * k := by
      rw [hend]
      exact Nat.mul_le_mul_left _ hbefore
    by_cases hjm : j < m
    · rw [if_pos hjm]
      refine readAt_writeAt_before hwrite ?_
      rw [hf, hend]
      exact Nat.mul_le_mul_left _ hjm
    · rw [if_neg hjm]
      refine readAt_writeAt_gap ?_ hwrite
      rw [hf]
      exact Nat.mul_le_mul_left _ (by omega)
  · rw [if_pos (by omega)]
    refine readAt_writeAt_behind ?_
    rw [hend]
    exact Nat.mul_le_mul_left _ (by omega)

end RandomAccess

end BtcmChain
