import Mathlib.Data.List.Sort

set_option autoImplicit false

/-!
# The middle of a sorted list

`l[l.length / 2]?` of a sorted list is its median. If more than half of the entries are
good, then the median is not on a side where no entry is good: neither above all good
entries nor below them.

Sorting is any permutation that is ordered by the key (`SortedBy`), so the results hold for every
sorting algorithm, stable or not. `IsMedian` counts how many entries are on either side. A value is
`Held` in the middle if so many further entries, wherever they lie, cannot move the middle off it;
`held_of_extremes` says that it is enough to look at the two extremes.
-/

namespace BtcmChain

variable {α : Type} {r : α → α → Prop} {l : List α} {m : α}

/-- Entries that come after a given one are related to it. -/
theorem rel_of_mem_drop (hs : l.Pairwise r) {i : Nat} (hm : l[i]? = some m) {x : α}
    (hx : x ∈ l.drop (i + 1)) : r m x := by
  induction l generalizing i with
  | nil => cases hm
  | cons a l ih =>
      obtain ⟨ha, hs⟩ := List.pairwise_cons.mp hs
      cases i with
      | zero =>
          obtain rfl := Option.some.inj hm
          exact ha x hx
      | succ i => exact ih hs hm hx

/-- Entries that come before a given one are related to it. -/
theorem rel_of_mem_take (hs : l.Pairwise r) {i : Nat} (hm : l[i]? = some m) {x : α}
    (hx : x ∈ l.take i) : r x m := by
  induction l generalizing i with
  | nil => cases hm
  | cons a l ih =>
      obtain ⟨ha, hs⟩ := List.pairwise_cons.mp hs
      cases i with
      | zero => cases hx
      | succ i =>
          rcases List.mem_cons.mp hx with rfl | hx
          · exact ha m (List.mem_of_getElem? hm)
          · exact ih hs hm hx

/-- From an entry of a sorted list on, all entries are at least that one. -/
theorem length_sub_le_countP (hs : l.Pairwise r) (hrefl : ∀ a, r a a) {i : Nat}
    (hm : l[i]? = some m) [DecidablePred (r m)] : l.length - i ≤ l.countP (r m ·) := by
  have hlt := (List.getElem?_eq_some_iff.mp hm).1
  have hall : ∀ x ∈ l.drop i, r m x := by
    intro x hx
    rw [List.drop_eq_getElem_cons hlt, (List.getElem?_eq_some_iff.mp hm).2] at hx
    rcases List.mem_cons.mp hx with rfl | hx
    · exact hrefl x
    · exact rel_of_mem_drop hs hm hx
  calc l.length - i = (l.drop i).length := List.length_drop.symm
    _ = (l.drop i).countP (r m ·) :=
      (List.countP_eq_length.mpr fun x hx => decide_eq_true (hall x hx)).symm
    _ ≤ l.countP (r m ·) := (List.drop_sublist i l).countP_le

/-! ## Sorting with an order on the entries only -/

/-- Inserting into a sorted list, for a relation that is total and transitive on the
entries. -/
theorem pairwise_orderedInsert_on [DecidableRel r] {a : α} (hs : l.Pairwise r)
    (htotal : ∀ b ∈ l, r a b ∨ r b a)
    (htrans : ∀ b ∈ l, ∀ c ∈ l, r a b → r b c → r a c) : (l.orderedInsert r a).Pairwise r := by
  induction l with
  | nil => exact List.pairwise_singleton r a
  | cons b l ih =>
      obtain ⟨hb, hs'⟩ := List.pairwise_cons.mp hs
      rw [List.orderedInsert_cons]
      split
      case isTrue hab =>
        refine List.pairwise_cons.mpr ⟨fun c hc => ?_, hs⟩
        rcases List.mem_cons.mp hc with rfl | hc'
        · exact hab
        · exact htrans b List.mem_cons_self c hc hab (hb c hc')
      case isFalse hab =>
        have hba : r b a := (htotal b List.mem_cons_self).resolve_left hab
        refine List.pairwise_cons.mpr ⟨fun c hc => ?_, ?_⟩
        · rcases (List.mem_orderedInsert r).mp hc with rfl | hc
          · exact hba
          · exact hb c hc
        · exact ih hs' (fun c hc => htotal c (List.mem_cons_of_mem _ hc))
            fun c hc d hd => htrans c (List.mem_cons_of_mem _ hc) d (List.mem_cons_of_mem _ hd)

/-- Sorting, for a relation that is total and transitive on the entries. -/
theorem pairwise_insertionSort_on [DecidableRel r] (htotal : ∀ a ∈ l, ∀ b ∈ l, r a b ∨ r b a)
    (htrans : ∀ a ∈ l, ∀ b ∈ l, ∀ c ∈ l, r a b → r b c → r a c) :
    (l.insertionSort r).Pairwise r := by
  induction l with
  | nil => exact .nil
  | cons a l ih =>
      have hmem : ∀ b, b ∈ l.insertionSort r → b ∈ a :: l :=
        fun b hb => List.mem_cons_of_mem _ ((List.mem_insertionSort r).mp hb)
      refine pairwise_orderedInsert_on (ih ?_ ?_) (fun b hb => ?_) fun b hb c hc => ?_
      · exact fun b hb c hc => htotal b (List.mem_cons_of_mem _ hb) c (List.mem_cons_of_mem _ hc)
      · exact fun b hb c hc d hd => htrans b (List.mem_cons_of_mem _ hb) c
          (List.mem_cons_of_mem _ hc) d (List.mem_cons_of_mem _ hd)
      · exact htotal a List.mem_cons_self b (hmem b hb)
      · exact htrans a List.mem_cons_self b (hmem b hb) c (hmem c hc)

section Majority

variable {good : α → Bool} (side : α → Prop)
  (hs : l.Pairwise r) (hm : l[l.length / 2]? = some m)
  (hmaj : l.length < 2 * l.countP good) (hside : ∀ a, side a → good a = false)

include hs hm hmaj hside

/-- A median is not above the majority: when more than half lies on one side of a border, the median
is not on the other side. -/
theorem median_not_above (hup : ∀ a ∈ l, ∀ b ∈ l, r a b → side a → side b) : ¬side m := by
  intro h
  have hlt := (List.getElem?_eq_some_iff.mp hm).1
  have hnone : (l.drop (l.length / 2)).countP good = 0 := by
    rw [List.countP_eq_zero]
    intro a ha
    rw [List.drop_eq_getElem_cons hlt] at ha
    rcases List.mem_cons.mp ha with rfl | ha
    · rw [(List.getElem?_eq_some_iff.mp hm).2, hside m h]
      exact Bool.false_ne_true
    · have hrel := rel_of_mem_drop hs hm ha
      rw [hside a (hup m (List.mem_of_getElem? hm) a (List.mem_of_mem_drop ha) hrel h)]
      exact Bool.false_ne_true
  have hsplit : l.countP good = (l.take (l.length / 2)).countP good + 0 := by
    rw [← hnone, ← List.countP_append, List.take_append_drop]
  have hle : (l.take (l.length / 2)).countP good ≤ (l.take (l.length / 2)).length :=
    List.countP_le_length
  rw [List.length_take] at hle
  omega

/-- A median is not below the majority: when at least half lies on one side of a border, the median
does not lie below that side. -/
theorem median_not_below (hdown : ∀ a ∈ l, ∀ b ∈ l, r a b → side b → side a) : ¬side m := by
  intro h
  have hlt := (List.getElem?_eq_some_iff.mp hm).1
  have hnone : (l.take (l.length / 2 + 1)).countP good = 0 := by
    rw [List.countP_eq_zero]
    intro a ha
    rw [List.take_add_one, hm] at ha
    rcases List.mem_append.mp ha with ha | ha
    · have hrel := rel_of_mem_take hs hm ha
      rw [hside a (hdown a (List.mem_of_mem_take ha) m (List.mem_of_getElem? hm) hrel h)]
      exact Bool.false_ne_true
    · obtain rfl := List.mem_singleton.mp ha
      rw [hside a h]
      exact Bool.false_ne_true
  have hsplit : l.countP good = 0 + (l.drop (l.length / 2 + 1)).countP good := by
    rw [← hnone, ← List.countP_append, List.take_append_drop]
  have hle : (l.drop (l.length / 2 + 1)).countP good ≤ (l.drop (l.length / 2 + 1)).length :=
    List.countP_le_length
  rw [List.length_drop] at hle
  omega

end Majority

/-! ## The rank of an entry -/

section Rank

variable {κ : Type} [LinearOrder κ]

/-- The entry with so many before it when the list is sorted. -/
def ranked (l : List κ) (i : ℕ) : Option κ := (l.insertionSort (· ≤ ·))[i]?

/-- An entry has rank `i` when at most `i` entries are below it and more than `i` are not above. -/
theorem ranked_eq_some_iff {l : List κ} {i : ℕ} {x : κ} :
    ranked l i = some x ↔ x ∈ l ∧ l.countP (· < x) ≤ i ∧ i < l.countP (· ≤ x) := by
  have hperm : (l.insertionSort (· ≤ ·)).Perm l := List.perm_insertionSort _ _
  have hsorted : (l.insertionSort (· ≤ ·)).Pairwise (· ≤ ·) := List.pairwise_insertionSort _ l
  have hcounts : ∀ y, ranked l i = some y → l.countP (· < y) ≤ i ∧ i < l.countP (· ≤ y) := by
    intro y hy
    have hlt := (List.getElem?_eq_some_iff.mp hy).1
    have hupper := length_sub_le_countP (r := (· ≤ ·)) hsorted le_refl hy
    have hlower : i + 1 ≤ (l.insertionSort (· ≤ ·)).countP (· ≤ y) := by
      have htake : ∀ z ∈ (l.insertionSort (· ≤ ·)).take (i + 1), z ≤ y := by
        intro z hz
        rw [List.take_add_one, show (l.insertionSort (· ≤ ·))[i]? = some y from hy] at hz
        rcases List.mem_append.mp hz with hz | hz
        · exact rel_of_mem_take hsorted hy hz
        · exact (List.mem_singleton.mp hz).le
      calc i + 1 = ((l.insertionSort (· ≤ ·)).take (i + 1)).length := by
            rw [List.length_take]
            omega
        _ = ((l.insertionSort (· ≤ ·)).take (i + 1)).countP (· ≤ y) :=
          (List.countP_eq_length.mpr fun z hz => decide_eq_true (htake z hz)).symm
        _ ≤ (l.insertionSort (· ≤ ·)).countP (· ≤ y) := (List.take_sublist _ _).countP_le
    have hsplit := List.length_eq_countP_add_countP (fun z => decide (y ≤ z))
      (l := l.insertionSort (· ≤ ·))
    have hbelow : (l.insertionSort (· ≤ ·)).countP (fun z => decide ¬decide (y ≤ z) = true) =
        (l.insertionSort (· ≤ ·)).countP (· < y) := by
      simp
    rw [hbelow] at hsplit
    rw [← hperm.countP_eq, ← hperm.countP_eq]
    exact ⟨by omega, by omega⟩
  constructor
  · exact fun h => ⟨hperm.mem_iff.mp (List.mem_of_getElem? h), hcounts x h⟩
  · rintro ⟨-, hbelow, habove⟩
    have hlen : i < (l.insertionSort (· ≤ ·)).length := by
      rw [hperm.length_eq]
      exact habove.trans_le List.countP_le_length
    obtain ⟨y, hy⟩ : ∃ y, ranked l i = some y := ⟨_, List.getElem?_eq_getElem hlen⟩
    obtain ⟨hbelow', habove'⟩ := hcounts y hy
    rcases lt_trichotomy x y with hxy | rfl | hxy
    · have hle : l.countP (· ≤ x) ≤ l.countP (· < y) := by
        refine List.countP_mono_left fun z _ hz => ?_
        simp only [decide_eq_true_eq] at hz ⊢
        exact hz.trans_lt hxy
      omega
    · exact hy
    · have hle : l.countP (· ≤ y) ≤ l.countP (· < x) := by
        refine List.countP_mono_left fun z _ hz => ?_
        simp only [decide_eq_true_eq] at hz ⊢
        exact hz.trans_lt hxy
      omega

/-- The order of a list does not matter for what has rank `i` in it. -/
theorem ranked_of_perm {l l' : List κ} (h : l.Perm l') (i : ℕ) : ranked l i = ranked l' i := by
  refine Option.ext fun x => ?_
  rw [ranked_eq_some_iff, ranked_eq_some_iff, h.mem_iff, h.countP_eq, h.countP_eq]

/-! ### Entries with the same key -/

section Ties

variable {f : α → κ} {l l' : List α} {i : ℕ} {x : α}

/-- `l'` is `l` sorted by a key, with entries of the same key in any order. -/
def SortedBy (f : α → κ) (l l' : List α) : Prop :=
  l'.Perm l ∧ l'.Pairwise fun a b => f a ≤ f b

theorem sortedBy_insertionSort (f : α → κ) (l : List α) :
    SortedBy f l (l.insertionSort fun a b => f a ≤ f b) :=
  ⟨List.perm_insertionSort _ _, pairwise_insertionSort_on (fun a _ b _ => le_total (f a) (f b))
    fun _ _ _ _ _ _ => le_trans⟩

theorem SortedBy.trans_perm {l₀ : List α} (h : SortedBy f l l') (hperm : l.Perm l₀) :
    SortedBy f l₀ l' := ⟨h.1.trans hperm, h.2⟩

/-- The entry at a place has that rank among the keys. -/
theorem SortedBy.rank (h : SortedBy f l l') (hx : l'[i]? = some x) :
    x ∈ l ∧ l.countP (fun a => f a < f x) ≤ i ∧ i < l.countP (fun a => f a ≤ f x) := by
  have hsorted : (l.map f).insertionSort (· ≤ ·) = l'.map f := by
    refine List.Perm.eq_of_pairwise' (List.pairwise_insertionSort _ _) ?_ ?_
    · exact List.pairwise_map.mpr h.2
    · exact (List.perm_insertionSort _ _).trans (h.1.map f).symm
  have hrank : ranked (l.map f) i = some (f x) := by
    rw [ranked, hsorted, List.getElem?_map, hx]
    rfl
  obtain ⟨-, hbelow, habove⟩ := ranked_eq_some_iff.mp hrank
  rw [List.countP_map] at hbelow habove
  exact ⟨h.1.mem_iff.mp (List.mem_of_getElem? hx), hbelow, habove⟩

/-- A median: at least half are at most that, and at least half are at least that. -/
structure IsMedian (l : List κ) (v : κ) : Prop where
  mem : v ∈ l
  atMost : l.length ≤ 2 * l.countP (· ≤ v)
  atLeast : l.length ≤ 2 * l.countP (v ≤ ·)

/-- The entry in the middle of a list that is sorted by a key has a median of the keys. -/
theorem SortedBy.isMedian (h : SortedBy f l l') (hx : l'[l.length / 2]? = some x) :
    IsMedian (l.map f) (f x) := by
  obtain ⟨hmem, hbelow, habove⟩ := h.rank hx
  have hsplit := List.length_eq_countP_add_countP (fun a => decide (f a < f x)) (l := l)
  have hrest : l.countP (fun a => decide ¬decide (f a < f x) = true) =
      l.countP fun a => f x ≤ f a := by
    simp
  rw [hrest] at hsplit
  refine ⟨List.mem_map_of_mem hmem, ?_, ?_⟩
  · rw [List.length_map, List.countP_map]
    show l.length ≤ 2 * l.countP fun a => f a ≤ f x
    omega
  · rw [List.length_map, List.countP_map]
    show l.length ≤ 2 * l.countP fun a => f x ≤ f a
    omega

/-- And whoever has the rank is put at the place by some sort. -/
theorem exists_sortedBy (hx : x ∈ l) (hbelow : l.countP (fun a => f a < f x) ≤ i)
    (habove : i < l.countP (fun a => f a ≤ f x)) : ∃ l', SortedBy f l l' ∧ l'[i]? = some x := by
  obtain ⟨s, t, rfl⟩ := List.append_of_mem hx
  have hperm : (s ++ x :: t).Perm (x :: (s ++ t)) := List.perm_middle
  obtain ⟨hrest, hsorted⟩ := sortedBy_insertionSort f (s ++ t)
  -- the others, sorted, and `x` between the first `i` and the rest
  obtain ⟨r, hr⟩ : ∃ r, r = (s ++ t).insertionSort fun a b => f a ≤ f b := ⟨_, rfl⟩
  rw [← hr] at hrest hsorted
  have hless : r.countP (fun a => f a < f x) ≤ i := by
    rw [hrest.countP_eq]
    rw [hperm.countP_eq, List.countP_cons] at hbelow
    omega
  have hmore : i ≤ r.countP (fun a => f a ≤ f x) := by
    rw [hrest.countP_eq]
    rw [hperm.countP_eq, List.countP_cons, if_pos (decide_eq_true (le_refl (f x)))] at habove
    omega
  have hlen : (r.take i).length = i := by
    rw [List.length_take]
    exact Nat.min_eq_left (hmore.trans List.countP_le_length)
  have hsplit := List.take_append_drop i r
  rw [← hsplit] at hsorted
  obtain ⟨htake, hdrop, hcross⟩ := List.pairwise_append.mp hsorted
  have hlow : ∀ y ∈ r.take i, f y ≤ f x := by
    intro y hy
    by_contra hgt
    have hnone : (r.drop i).countP (fun a => f a ≤ f x) = 0 := by
      rw [List.countP_eq_zero]
      intro z hz hle
      exact hgt ((hcross y hy z hz).trans (of_decide_eq_true hle))
    have hsome : (r.take i).countP (fun a => f a ≤ f x) < (r.take i).length := by
      refine lt_of_le_of_ne List.countP_le_length fun hall => ?_
      exact hgt (of_decide_eq_true (List.countP_eq_length.mp hall y hy))
    rw [← hsplit, List.countP_append] at hmore
    omega
  have hhigh : ∀ y ∈ r.drop i, f x ≤ f y := by
    intro y hy
    by_contra hlt
    have hall : (r.take i).countP (fun a => f a < f x) = (r.take i).length := by
      rw [List.countP_eq_length]
      intro z hz
      exact decide_eq_true ((hcross z hz y hy).trans_lt (not_le.mp hlt))
    have hsome : 0 < (r.drop i).countP (fun a => f a < f x) :=
      List.countP_pos_iff.mpr ⟨y, hy, decide_eq_true (not_le.mp hlt)⟩
    rw [← hsplit, List.countP_append] at hless
    omega
  refine ⟨r.take i ++ x :: r.drop i, ⟨?_, ?_⟩, ?_⟩
  · refine (List.perm_middle.trans ?_).trans hperm.symm
    rw [hsplit]
    exact hrest.cons x
  · refine List.pairwise_append.mpr ⟨htake, List.pairwise_cons.mpr ⟨hhigh, hdrop⟩, ?_⟩
    intro a ha b hb
    rcases List.mem_cons.mp hb with rfl | hb
    · exact hlow a ha
    · exact hcross a ha b hb
  · rw [List.getElem?_append_right hlen.le, hlen, Nat.sub_self]
    rfl

end Ties

/-! ### Outsiders -/

/-- So many further entries, wherever they lie, cannot move the middle off `p`, nothing being above
`top`. -/
structure Held (l : List κ) (top : κ) (n : ℕ) (p : κ) : Prop where
  mem : p ∈ l
  below : l.countP (· < p) + n ≤ (l.length + n) / 2
  above : (l.length + n) / 2 < l.countP (· ≤ p) ∨ p = top

variable {l o : List κ} {top bot p : κ} {n : ℕ}

/-- With at most `n` outsiders added anywhere, the entry in the middle stays the one it was. -/
theorem Held.ranked_append (h : Held l top n p) (ho : o.length ≤ n) (htop : ∀ x ∈ l ++ o, x ≤ top) :
    ranked (l ++ o) ((l ++ o).length / 2) = some p := by
  have hbelow := h.below
  have hout : o.countP (· < p) ≤ o.length := List.countP_le_length
  refine ranked_eq_some_iff.mpr ⟨List.mem_append_left o h.mem, ?_, ?_⟩
  · rw [List.countP_append, List.length_append]
    omega
  · rcases h.above with habove | rfl
    · rw [List.countP_append, List.length_append]
      omega
    · have hall : (l ++ o).countP (· ≤ p) = (l ++ o).length :=
        List.countP_eq_length.mpr fun x hx => decide_eq_true (htop x hx)
      have hpos : 0 < (l ++ o).length := List.length_pos_of_mem (List.mem_append_left o h.mem)
      rw [hall]
      omega

end Rank

end BtcmChain
