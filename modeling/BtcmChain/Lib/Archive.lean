import Mathlib.Data.Nat.Basic
import Mathlib.Logic.Function.Basic

set_option autoImplicit false

/-!
# Archives

Numbered places. A place that is in use has a label, and holds a document or has lost it. A
document may be put at any place, which makes the archive as large as that takes; a document that
is struck out leaves its label behind. To settle is to give up the places behind the last document.

A reader sees the labels and the documents: a label may outlive its document. After settling,
everything behind the last document is as if it had never been (`settle_cut_settle`), and a stretch
of documents, which ends at the first gap, can be read in parts (`stretch_add`).
-/

namespace BtcmChain

/-- An archive of numbered places. A place in use has a label of `κ` and, unless it was struck out,
a document of `β`; from `size` on no place is in use. -/
@[ext] structure Archive (κ β : Type) where
  size : Nat
  slot : Nat → Option (κ × Option β)
  unused : ∀ n, size ≤ n → slot n = none

namespace Archive

variable {κ β : Type} {a : Archive κ β} {n m : Nat} {k : κ} {b : β}

/-- The archive of size zero, in which no place has ever been used. -/
def empty : Archive κ β := ⟨0, fun _ => none, fun _ _ => rfl⟩

/-- The document at place `n`; there is none when the place is not in use or was struck out. -/
def document (a : Archive κ β) (n : Nat) : Option β := (a.slot n).bind Prod.snd

/-- The label of place `n`, if it is in use. A place that was struck out keeps its label. -/
def label (a : Archive κ β) (n : Nat) : Option κ := (a.slot n).map Prod.fst

/-- Put the document `b` at place `n` under the label `k`, over whatever was there; the archive
grows to hold the place. -/
def put (a : Archive κ β) (n : Nat) (k : κ) (b : β) : Archive κ β where
  size := max a.size (n + 1)
  slot := Function.update a.slot n (some (k, some b))
  unused m hm := by
    rw [Function.update_of_ne (by omega), a.unused m (by omega)]

/-- Strike out what place `n` holds: its document is gone, its label and the size of the archive
stay. -/
def strike (a : Archive κ β) (n : Nat) : Archive κ β where
  size := a.size
  slot := Function.update a.slot n ((a.slot n).map fun x => (x.1, none))
  unused m hm := by
    by_cases h : m = n
    · subst h
      rw [Function.update_self, a.unused m hm]
      rfl
    · rw [Function.update_of_ne h, a.unused m hm]

/-- Give up the places from `m` on, documents and labels alike; the archive is no longer than `m`
places afterwards. -/
def cut (a : Archive κ β) (m : Nat) : Archive κ β where
  size := min a.size m
  slot n := if n < m then a.slot n else none
  unused n hn := by
    by_cases h : n < m
    · rw [if_pos h, a.unused n (by omega)]
    · rw [if_neg h]

/-- The last place below `n` that holds a document, looked for downwards one place after the other.
-/
def topBelow (a : Archive κ β) : Nat → Option Nat
  | 0 => none
  | n + 1 => if (a.document n).isSome then some n else topBelow a n

/-- The last place of the whole archive that holds a document, if there is one at all. -/
def top (a : Archive κ β) : Option Nat := a.topBelow a.size

/-- The document at the last place that holds one, which is what the archive was filled with
furthest up. -/
def last (a : Archive κ β) : Option β := a.top.bind a.document

/-- Give up the places behind the last document, so that the archive ends with a document or is
empty. -/
def settle (a : Archive κ β) : Archive κ β := a.cut (a.top.elim 0 (· + 1))

theorem lt_size_of_document (h : a.document n = some b) : n < a.size := by
  by_contra hn
  rw [document, a.unused n (by omega)] at h
  cases h

@[simp] theorem document_put :
    (a.put n k b).document m = if m = n then some b else a.document m := by
  by_cases h : m = n
  · simp [document, put, h]
  · simp [document, put, h]

@[simp] theorem document_strike :
    (a.strike n).document m = if m = n then none else a.document m := by
  by_cases h : m = n
  · subst h
    cases hs : a.slot m <;> simp [document, strike, hs]
  · simp [document, strike, h]

theorem document_cut : (a.cut m).document n = if n < m then a.document n else none := by
  by_cases h : n < m <;> simp [document, cut, h]

theorem lt_size_of_label (h : a.label n = some k) : n < a.size := by
  by_contra hn
  rw [label, a.unused n (by omega)] at h
  cases h

/-- To put a document where it stands already changes nothing. -/
theorem put_of_slot (h : a.slot n = some (k, some b)) : a.put n k b = a := by
  have hn : n < a.size := by
    by_contra hn
    rw [a.unused n (by omega)] at h
    cases h
  ext1
  · show max a.size (n + 1) = a.size
    omega
  · exact Function.update_eq_self_iff.mpr h.symm

/-- What `topBelow` finds: a place below `n` that holds a document, with no document between it and
`n`. -/
theorem topBelow_eq_some : a.topBelow n = some m ↔
    m < n ∧ (a.document m).isSome ∧ ∀ j, m < j → j < n → a.document j = none := by
  induction n with
  | zero => simp [topBelow]
  | succ n ih =>
      rw [topBelow]
      by_cases hn : (a.document n).isSome
      · rw [if_pos hn, Option.some.injEq]
        constructor
        · intro h
          subst h
          exact ⟨by omega, hn, fun j _ _ => by omega⟩
        · intro ⟨hm, _, hnone⟩
          by_contra hne
          rw [hnone n (by omega) (by omega)] at hn
          cases hn
      · rw [if_neg hn, ih]
        constructor
        · intro ⟨hm, hsome, hnone⟩
          refine ⟨by omega, hsome, fun j hj hjn => ?_⟩
          by_cases h : j = n
          · subst h
            simpa using hn
          · exact hnone j hj (by omega)
        · intro ⟨hm, hsome, hnone⟩
          have hne : m ≠ n := fun h => hn (h ▸ hsome)
          exact ⟨by omega, hsome, fun j hj hjn => hnone j hj (by omega)⟩

theorem topBelow_eq_none : a.topBelow n = none ↔ ∀ j, j < n → a.document j = none := by
  induction n with
  | zero => simp [topBelow]
  | succ n ih =>
      rw [topBelow]
      by_cases hn : (a.document n).isSome
      · rw [if_pos hn]
        constructor
        · intro h
          cases h
        · intro h
          rw [h n (by omega)] at hn
          cases hn
      · rw [if_neg hn, ih]
        constructor
        · intro h j hj
          by_cases hjn : j = n
          · subst hjn
            simpa using hn
          · exact h j (by omega)
        · exact fun h j hj => h j (by omega)

/-- The last document stands at `m`: there is one, and none behind it. -/
theorem top_eq_some :
    a.top = some m ↔ (a.document m).isSome ∧ ∀ j, m < j → a.document j = none := by
  rw [top, topBelow_eq_some]
  constructor
  · intro ⟨_, hsome, hnone⟩
    refine ⟨hsome, fun j hj => ?_⟩
    by_cases hs : j < a.size
    · exact hnone j hj hs
    · rw [document, a.unused j (by omega)]
      rfl
  · intro ⟨hsome, hnone⟩
    obtain ⟨b, hb⟩ := Option.isSome_iff_exists.mp hsome
    exact ⟨lt_size_of_document hb, hsome, fun j hj _ => hnone j hj⟩

theorem top_eq_none : a.top = none ↔ ∀ j, a.document j = none := by
  rw [top, topBelow_eq_none]
  constructor
  · intro h j
    by_cases hs : j < a.size
    · exact h j hs
    · rw [document, a.unused j (by omega)]
      rfl
  · exact fun h j _ => h j

theorem lt_of_top_cut (h : (a.cut n).top = some m) : m < n := by
  obtain ⟨hsome, _⟩ := top_eq_some.mp h
  rw [document_cut] at hsome
  by_contra hn
  rw [if_neg hn] at hsome
  cases hsome

/-- Settling the archive loses no document, since only places behind the last one are given up. -/
@[simp] theorem document_settle : a.settle.document n = a.document n := by
  rw [settle, document_cut]
  split
  · rfl
  · next h =>
    cases htop : a.top with
    | none => exact (top_eq_none.mp htop n).symm
    | some m =>
        rw [htop, Option.elim] at h
        exact ((top_eq_some.mp htop).2 n (by omega)).symm

theorem top_of_document (hsize : a.size = n + 1) (h : (a.document n).isSome) : a.top = some n := by
  rw [top, hsize, topBelow, if_pos h]

/-- An archive whose last place holds a document is settled. -/
theorem settle_of_document (hsize : a.size = n + 1) (h : (a.document n).isSome) :
    a.settle = a := by
  rw [settle, top_of_document hsize h]
  ext1
  · show min a.size (n + 1) = a.size
    omega
  · funext m
    show (if m < n + 1 then a.slot m else none) = a.slot m
    split
    · rfl
    · exact (a.unused m (by omega)).symm

theorem settle_of_size_zero (hsize : a.size = 0) : a.settle = a := by
  ext1
  · show min a.size _ = a.size
    omega
  · funext m
    rw [a.unused m (by omega)]
    exact a.settle.unused m (by show min a.size _ ≤ m; omega)

theorem topBelow_congr {a' : Archive κ β} (h : ∀ m, m < n → a.document m = a'.document m) :
    a.topBelow n = a'.topBelow n := by
  induction n with
  | zero => rfl
  | succ n ih =>
      rw [topBelow, topBelow, h n (by omega), ih fun m hm => h m (by omega)]

/-- The last document is found behind a place without one as well. -/
theorem top_cut (hsize : a.size = n + 1) (h : a.document n = none) : (a.cut n).top = a.top := by
  have hmin : (a.cut n).size = n := by
    show min a.size n = n
    omega
  rw [top, top, hmin, hsize, topBelow, h, if_neg (by simp)]
  refine topBelow_congr fun m hm => ?_
  rw [document_cut, if_pos hm]

theorem top_lt (hsize : a.size = n + 1) (h : a.document n = none) (htop : a.top = some m) :
    m < n := by
  obtain ⟨hsome, _⟩ := top_eq_some.mp htop
  obtain ⟨b, hb⟩ := Option.isSome_iff_exists.mp hsome
  have hlt := lt_size_of_document hb
  have hne : m ≠ n := by
    intro hmn
    rw [hmn, h] at hsome
    cases hsome
  omega

theorem settle_cut (hsize : a.size = n + 1) (h : a.document n = none) :
    (a.cut n).settle = a.settle := by
  have hle : a.top.elim 0 (· + 1) ≤ n := by
    cases htop : a.top with
    | none => exact Nat.zero_le n
    | some m => exact top_lt hsize h htop
  rw [settle, settle, top_cut hsize h]
  ext1
  · show min (min a.size n) _ = min a.size _
    omega
  · funext m
    show (if m < _ then if m < n then a.slot m else none else none) = if m < _ then a.slot m else none
    by_cases hm : m < a.top.elim 0 (· + 1)
    · rw [if_pos hm, if_pos hm, if_pos (by omega)]
    · rw [if_neg hm, if_neg hm]

/-- A settled archive consists of its documents and of what its places hold up to the last document:
two archives that agree in these are settled alike. -/
theorem settle_ext {a' : Archive κ β} (hdocument : ∀ n, a.document n = a'.document n)
    (hslot : ∀ n m, n ≤ m → (a.document m).isSome → a.slot n = a'.slot n) :
    a.settle = a'.settle := by
  have htop : a.top = a'.top := by
    cases h : a'.top with
    | none => exact top_eq_none.mpr fun n => (hdocument n).trans (top_eq_none.mp h n)
    | some m =>
        obtain ⟨hsome, hnone⟩ := top_eq_some.mp h
        refine top_eq_some.mpr ⟨?_, fun j hj => (hdocument j).trans (hnone j hj)⟩
        rw [hdocument]
        exact hsome
  rw [settle, settle, ← htop]
  cases h : a.top with
  | none =>
      ext1
      · show min a.size 0 = min a'.size 0
        omega
      · funext n
        show (if n < 0 then a.slot n else none) = if n < 0 then a'.slot n else none
        rw [if_neg (Nat.not_lt_zero n), if_neg (Nat.not_lt_zero n)]
  | some m =>
      obtain ⟨hsome, _⟩ := top_eq_some.mp h
      obtain ⟨b, hb⟩ := Option.isSome_iff_exists.mp hsome
      have hlt := lt_size_of_document hb
      have hlt' := lt_size_of_document ((hdocument m).symm.trans hb)
      ext1
      · show min a.size (m + 1) = min a'.size (m + 1)
        omega
      · funext n
        show (if n < m + 1 then a.slot n else none) = if n < m + 1 then a'.slot n else none
        by_cases hn : n < m + 1
        · rw [if_pos hn, if_pos hn, hslot n m (by omega) hsome]
        · rw [if_neg hn, if_neg hn]

theorem slot_settle (hn : n ≤ m) (h : (a.document m).isSome) : a.settle.slot n = a.slot n := by
  have hlt : n < a.top.elim 0 (· + 1) := by
    cases htop : a.top with
    | none =>
        rw [top_eq_none.mp htop m] at h
        cases h
    | some k =>
        show n < k + 1
        by_contra hk
        rw [(top_eq_some.mp htop).2 m (by omega)] at h
        cases h
  exact if_pos hlt

@[simp] theorem settle_settle : a.settle.settle = a.settle := by
  refine settle_ext (fun n => document_settle) fun n m hn h => ?_
  rw [document_settle] at h
  exact slot_settle hn h

/-- To strike out the last document gives up its place. -/
theorem settle_strike_top (h : a.top = some m) : (a.strike m).settle = (a.cut m).settle := by
  obtain ⟨_, hnone⟩ := top_eq_some.mp h
  refine settle_ext (fun n => ?_) fun n k hn hk => ?_
  · rw [document_strike, document_cut]
    by_cases hnm : n < m
    · rw [if_neg (by omega), if_pos hnm]
    · rw [if_neg hnm]
      split
      · rfl
      · exact hnone n (by omega)
  · have hkm : k < m := by
      rw [document_strike] at hk
      by_contra hkm
      split at hk
      · cases hk
      · rw [hnone k (by omega)] at hk
        cases hk
    show Function.update a.slot m ((a.slot m).map fun x => (x.1, none)) n =
      if n < m then a.slot n else none
    rw [Function.update_of_ne (by omega), if_pos (by omega)]

/-- An archive that is cut off and then settled may have been settled before the cut: it makes no
difference. -/
theorem settle_cut_settle : (a.settle.cut n).settle = (a.cut n).settle := by
  refine settle_ext (fun j => ?_) fun j k hj hk => ?_
  · rw [document_cut, document_cut, document_settle]
  · rw [document_cut] at hk
    split at hk
    · next hlt =>
      rw [document_settle] at hk
      show (if j < n then a.settle.slot j else none) = if j < n then a.slot j else none
      rw [slot_settle hj hk]
    · cases hk

theorem settle_cut_cut (h : n ≤ m) : ((a.cut m).cut n).settle = (a.cut n).settle := by
  refine settle_ext (fun j => ?_) fun j k _ _ => ?_
  · rw [document_cut, document_cut, document_cut]
    split
    · rw [if_pos (by omega)]
    · rfl
  · show (if j < n then if j < m then a.slot j else none else none) = if j < n then a.slot j else none
    split
    · rw [if_pos (by omega)]
    · rfl

/-- There is nothing to cut off behind the last document. -/
theorem settle_cut_of_none (h : ∀ m, n ≤ m → a.document m = none) :
    (a.cut n).settle = a.settle := by
  have hdocument (j : Nat) : (a.cut n).document j = a.document j := by
    rw [document_cut]
    split
    · rfl
    · exact (h j (by omega)).symm
  refine settle_ext hdocument fun j k hj hk => ?_
  rw [hdocument] at hk
  have hkn : k < n := by
    by_contra hkn
    rw [h k (by omega)] at hk
    cases hk
  exact if_pos (by omega)

@[simp] theorem top_settle : a.settle.top = a.top := by
  cases h : a.top with
  | none =>
      refine top_eq_none.mpr fun j => ?_
      rw [document_settle]
      exact top_eq_none.mp h j
  | some m =>
      refine top_eq_some.mpr ?_
      simp only [document_settle]
      exact top_eq_some.mp h

theorem label_top_settle : a.settle.top.bind a.settle.label = a.top.bind a.label := by
  rw [top_settle]
  cases h : a.top with
  | none => rfl
  | some m =>
      show (a.settle.slot m).map Prod.fst = (a.slot m).map Prod.fst
      rw [slot_settle (Nat.le_refl m) (top_eq_some.mp h).1]

/-! ## Stretches -/

/-- The documents from a place on, as many as there are without a gap and as are asked for. -/
def stretch (a : Archive κ β) : Nat → Nat → List β
  | _, 0 => []
  | i, n + 1 =>
      match a.document i with
      | some b => b :: stretch a (i + 1) n
      | none => []

variable {i : Nat}

theorem stretch_congr {a' : Archive κ β} {i : Nat} (h : ∀ j, a.document j = a'.document j) :
    a.stretch i n = a'.stretch i n := by
  induction n generalizing i with
  | zero => rfl
  | succ n ih => rw [stretch, stretch, h i, ih]

/-- A stretch that is long enough has a document at every place. -/
theorem document_of_lt {i j : Nat} (h : j < (a.stretch i n).length) :
    (a.document (i + j)).isSome := by
  induction n generalizing i j with
  | zero => exact absurd h (Nat.not_lt_zero j)
  | succ n ih =>
      rw [stretch] at h
      cases hb : a.document i with
      | none =>
          rw [hb] at h
          exact absurd h (Nat.not_lt_zero j)
      | some b =>
          rw [hb] at h
          cases j with
          | zero =>
              rw [Nat.add_zero, hb]
              rfl
          | succ j =>
              rw [← Nat.add_assoc, Nat.add_right_comm]
              exact ih (Nat.lt_of_succ_lt_succ h)

theorem length_stretch_le : (a.stretch i n).length ≤ n := by
  induction n generalizing i with
  | zero => exact Nat.le_refl 0
  | succ n ih =>
      rw [stretch]
      cases a.document i with
      | some b => exact Nat.succ_le_succ ih
      | none => exact Nat.zero_le _

theorem stretch_of_none (h : a.document i = none) : a.stretch i n = [] := by
  cases n with
  | zero => rfl
  | succ n => rw [stretch, h]

/-- A stretch that is too short ends at a gap. -/
theorem document_of_short (h : (a.stretch i n).length < n) :
    a.document (i + (a.stretch i n).length) = none := by
  induction n generalizing i with
  | zero => exact absurd h (Nat.not_lt_zero _)
  | succ n ih =>
      cases hb : a.document i with
      | some b =>
          rw [stretch, hb] at h ⊢
          have hrest := ih (i := i + 1) (Nat.lt_of_succ_lt_succ h)
          rw [List.length_cons, ← Nat.add_assoc, Nat.add_right_comm]
          exact hrest
      | none =>
          rw [stretch_of_none hb]
          exact hb

/-- A stretch of `n + m` documents is the stretch of `n`, and behind it what is found from its end
on, where it may have met a gap. -/
theorem stretch_add : a.stretch i (n + m) =
    a.stretch i n ++ a.stretch (i + (a.stretch i n).length) (n + m - (a.stretch i n).length) := by
  induction n generalizing i with
  | zero => rw [stretch, List.nil_append, List.length_nil, Nat.add_zero, Nat.sub_zero]
  | succ n ih =>
      have hsum : n + 1 + m = n + m + 1 := by omega
      rw [hsum]
      cases hb : a.document i with
      | some b =>
          rw [stretch, stretch, hb]
          show b :: a.stretch (i + 1) (n + m) = b :: _
          rw [ih, List.length_cons]
          congr 2
          congr 1 <;> omega
      | none => 
          rw [stretch_of_none hb, stretch_of_none hb, stretch_of_none (by simpa using hb)]
          rfl

end Archive

end BtcmChain
