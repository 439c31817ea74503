import BtcmChain.Lib.FlatMap

set_option autoImplicit false

/-!
# Ordered sets, and maps to sets

A `FlatSet` is a map to nothing. `intersect` and `subtract` walk two of them in order,
the way one merges sorted lists. A map to sets is read through `FlatMap.setAt`, which is
empty where the map has no entry, so that maps which drop their empty sets and maps which
keep them read the same.

Membership is `has`, and the lemmas are in terms of it: how it changes when a key is inserted or
erased, and that the walks compute intersection and difference (`has_intersectFrom`,
`has_subtractFrom`). These walks drop from one of the sets what is too small in front, so what is
still to come is always larger than what has been decided.
-/

namespace BtcmChain

/-- A `std::set`: a map that has nothing to say about its keys but that they are there. -/
abbrev FlatSet (κ : Type) [LinearOrder κ] := FlatMap κ Unit

namespace FlatSet

variable {κ : Type} [LinearOrder κ]

/-- Whether `k` is a member of the set. -/
def has (s : FlatSet κ) (k : κ) : Bool := (s.find? k).isSome

/-- `insert` of a set: `k` is a member afterwards, whether it was one before or not. -/
def insert (s : FlatSet κ) (k : κ) : FlatSet κ := s.set k ()

/-- The set of the members of a list, put in one after the other. -/
def ofKeys (l : List κ) : FlatSet κ := l.foldl insert .empty

@[simp] theorem has_empty (k : κ) : has (FlatMap.empty : FlatSet κ) k = false := rfl

@[simp] theorem has_insert (s : FlatSet κ) (k k' : κ) :
    (s.insert k).has k' = (decide (k' = k) || s.has k') := by
  unfold has insert
  rw [FlatMap.find?_set]
  by_cases h : k' = k <;> simp [h]

@[simp] theorem has_erase (s : FlatSet κ) (k k' : κ) :
    has (s.erase k) k' = (decide (k' ≠ k) && s.has k') := by
  unfold has
  rw [FlatMap.find?_erase]
  by_cases h : k' = k <;> simp [h]

@[simp] theorem has_ofKeys (l : List κ) (k : κ) : (ofKeys l).has k = decide (k ∈ l) := by
  suffices h : ∀ s : FlatSet κ, (l.foldl insert s).has k = (decide (k ∈ l) || s.has k) by
    rw [ofKeys, h, has_empty, Bool.or_false]
  induction l with
  | nil => simp
  | cons a l ih =>
      intro s
      rw [List.foldl_cons, ih, has_insert]
      by_cases h : k = a <;> simp [h]

theorem mem_keys {s : FlatSet κ} {k : κ} : k ∈ s.keys ↔ s.has k = true := by
  rw [has, Option.isSome_iff_exists, FlatMap.keys, List.mem_map]
  constructor
  · rintro ⟨⟨k', u⟩, hmem, rfl⟩
    exact ⟨u, FlatMap.mem_entries_iff.mp hmem⟩
  · rintro ⟨u, h⟩
    exact ⟨(k, u), FlatMap.mem_entries_iff.mpr h, rfl⟩

/-- The loop of `intersect`: `right` runs behind `left`, and the loop ends when it is at
the end. -/
def intersectFrom (result : FlatSet κ) : List κ → List κ → FlatSet κ
  | [], _ => result
  | left :: s1, s2 =>
      match s2.dropWhile (· < left) with
      | [] => result
      | right :: rest =>
          intersectFrom (if left = right then result.insert left else result) s1 (right :: rest)

/-- `intersect`: the common members of two sets, found by walking through both in step. -/
def intersect (s1 s2 : FlatSet κ) : FlatSet κ := intersectFrom .empty s1.keys s2.keys

/-- The loop of `subtract`: members of the first list that the second does not have go into the
result, while both are walked through in step. -/
def subtractFrom (result : FlatSet κ) : List κ → List κ → FlatSet κ
  | [], _ => result
  | left :: s1, s2 =>
      match s2.dropWhile (· < left) with
      | [] => subtractFrom (result.insert left) s1 []
      | right :: rest =>
          subtractFrom (if left < right then result.insert left else result) s1 (right :: rest)

/-- The members of the first set that are not in the second. -/
def subtract (s1 s2 : FlatSet κ) : FlatSet κ := subtractFrom .empty s1.keys s2.keys

/-- What is skipped lies before `left` and all that follows, so no member is missed. -/
theorem mem_dropWhile_lt {left k : κ} {l : List κ} (hk : left ≤ k) :
    k ∈ l.dropWhile (· < left) ↔ k ∈ l := by
  induction l with
  | nil => rfl
  | cons a l ih =>
      rw [List.dropWhile_cons]
      split
      case isTrue hlt =>
        have hlt : a < left := by simpa using hlt
        rw [ih, List.mem_cons]
        exact ⟨Or.inr, fun h => h.resolve_left fun heq => absurd (heq ▸ hlt) (not_lt.mpr hk)⟩
      case isFalse => rfl

/-- After skipping all members below `left`, what remains of a sorted list starts at `left` or
behind it, and is still sorted. -/
theorem le_of_dropWhile_lt {left right : κ} {l rest : List κ} (hl : l.Pairwise (· < ·))
    (h : l.dropWhile (· < left) = right :: rest) :
    left ≤ right ∧ (right :: rest).Pairwise (· < ·) := by
  refine ⟨?_, h ▸ hl.sublist (List.dropWhile_sublist _)⟩
  have hhead := List.head_dropWhile_not (· < left) (l := l) (by rw [h]; exact List.cons_ne_nil _ _)
  simpa [h] using hhead

/-- The members of the first list are looked up right in what remains of the second. -/
theorem mem_dropWhile_of_mem {left k : κ} {l1 l2 : List κ} (h1 : (left :: l1).Pairwise (· < ·))
    (hk : k ∈ left :: l1) : k ∈ l2.dropWhile (· < left) ↔ k ∈ l2 := by
  rcases List.mem_cons.mp hk with rfl | hk
  · exact mem_dropWhile_lt le_rfl
  · exact mem_dropWhile_lt ((List.pairwise_cons.mp h1).1 k hk).le

/-- `left` is in the second list iff it stands where `right` has stopped. -/
theorem mem_iff_eq_right {left right : κ} {l2 rest : List κ} (h2 : l2.Pairwise (· < ·))
    (h : l2.dropWhile (· < left) = right :: rest) : left ∈ l2 ↔ left = right := by
  obtain ⟨hle, hsorted⟩ := le_of_dropWhile_lt h2 h
  rw [← mem_dropWhile_lt (le_refl left), h, List.mem_cons]
  refine or_iff_left fun hmem => ?_
  exact absurd ((List.pairwise_cons.mp hsorted).1 left hmem) (not_lt.mpr hle)

theorem has_intersectFrom {k : κ} {l1 l2 : List κ} (result : FlatSet κ)
    (h1 : l1.Pairwise (· < ·)) (h2 : l2.Pairwise (· < ·)) :
    (intersectFrom result l1 l2).has k = true ↔ result.has k = true ∨ (k ∈ l1 ∧ k ∈ l2) := by
  induction l1 generalizing l2 result with
  | nil => simp [intersectFrom]
  | cons left l1 ih =>
      have hdrop : k ∈ left :: l1 → (k ∈ l2.dropWhile (· < left) ↔ k ∈ l2) :=
        mem_dropWhile_of_mem h1
      rw [intersectFrom]
      split
      case h_1 hnil =>
        -- the second set is exhausted: nothing of the first can be in it
        refine ⟨Or.inl, fun h => h.resolve_right fun ⟨hk1, hk2⟩ => ?_⟩
        rw [← hdrop hk1, hnil] at hk2
        cases hk2
      case h_2 right rest hrest =>
        have hin : left ∈ l2 ↔ left = right := mem_iff_eq_right h2 hrest
        have hresult : (if left = right then result.insert left else result).has k = true ↔
            result.has k = true ∨ (k = left ∧ left ∈ l2) := by
          rw [hin]
          split <;> simp [*, or_comm]
        rw [ih _ (List.pairwise_cons.mp h1).2 (le_of_dropWhile_lt h2 hrest).2, ← hrest, hresult]
        grind

theorem has_subtractFrom {k : κ} {l1 l2 : List κ} (result : FlatSet κ)
    (h1 : l1.Pairwise (· < ·)) (h2 : l2.Pairwise (· < ·)) :
    (subtractFrom result l1 l2).has k = true ↔ result.has k = true ∨ (k ∈ l1 ∧ k ∉ l2) := by
  induction l1 generalizing l2 result with
  | nil => simp [subtractFrom]
  | cons left l1 ih =>
      have hdrop : k ∈ left :: l1 → (k ∈ l2.dropWhile (· < left) ↔ k ∈ l2) :=
        mem_dropWhile_of_mem h1
      rw [subtractFrom]
      split
      case h_1 hnil =>
        rw [ih _ (List.pairwise_cons.mp h1).2 .nil, has_insert]
        rw [hnil] at hdrop
        grind
      case h_2 right rest hrest =>
        have hout : left ∉ l2 ↔ left < right := by
          rw [mem_iff_eq_right h2 hrest]
          exact (lt_iff_le_and_ne.trans (and_iff_right (le_of_dropWhile_lt h2 hrest).1)).symm
        have hresult : (if left < right then result.insert left else result).has k = true ↔
            result.has k = true ∨ (k = left ∧ left ∉ l2) := by
          rw [hout]
          split <;> simp [*, or_comm]
        rw [ih _ (List.pairwise_cons.mp h1).2 (le_of_dropWhile_lt h2 hrest).2, ← hrest, hresult]
        grind

@[simp] theorem has_intersect (s1 s2 : FlatSet κ) (k : κ) :
    (intersect s1 s2).has k = true ↔ s1.has k = true ∧ s2.has k = true := by
  rw [intersect, has_intersectFrom _ s1.keys_sorted s2.keys_sorted, mem_keys, mem_keys]
  simp

@[simp] theorem has_subtract (s1 s2 : FlatSet κ) (k : κ) :
    (subtract s1 s2).has k = true ↔ s1.has k = true ∧ s2.has k = false := by
  rw [subtract, has_subtractFrom _ s1.keys_sorted s2.keys_sorted, mem_keys, mem_keys]
  simp

end FlatSet

/-! ## Maps to sets -/

namespace FlatMap

variable {κ ν : Type} [LinearOrder κ] [LinearOrder ν]

/-- The set at a key; empty where there is none. -/
def setAt (m : FlatMap κ (FlatSet ν)) (k : κ) : FlatSet ν := (m.find? k).getD .empty

/-- `m[k].insert(v)`: the set at key `k` gets the member `v`, and is made if there is none. -/
def insertAt (m : FlatMap κ (FlatSet ν)) (k : κ) (v : ν) : FlatMap κ (FlatSet ν) :=
  m.set k ((m.setAt k).insert v)

/-- `m[k].erase(v)`: the set at key `k` loses the member `v`, and is left there even when it is
empty. -/
def eraseAt (m : FlatMap κ (FlatSet ν)) (k : κ) (v : ν) : FlatMap κ (FlatSet ν) :=
  m.set k ((m.setAt k).erase v)

/-- Erase `v` from the set at `k`, if there is one, and keep the set. -/
def eraseIn (m : FlatMap κ (FlatSet ν)) (k : κ) (v : ν) : FlatMap κ (FlatSet ν) :=
  m.update k (·.erase v)

/-- Erase `v` from the set at `k`, and the set with it when it becomes empty. -/
def eraseOrDrop (m : FlatMap κ (FlatSet ν)) (k : κ) (v : ν) : FlatMap κ (FlatSet ν) :=
  match m.find? k with
  | none => m
  | some s => if (s.erase v).entries.isEmpty then m.erase k else m.set k (s.erase v)

variable (m : FlatMap κ (FlatSet ν)) (k k' : κ) (v v' : ν)

@[simp] theorem setAt_empty : (empty : FlatMap κ (FlatSet ν)).setAt k = .empty := rfl

@[simp] theorem has_insertAt : ((m.insertAt k v).setAt k').has v' = true ↔
    (k' = k ∧ v' = v) ∨ (m.setAt k').has v' = true := by
  unfold insertAt
  rw [setAt, find?_set]
  by_cases h : k' = k
  · subst h
    simp
  · simp [h, setAt]

@[simp] theorem has_eraseAt : ((m.eraseAt k v).setAt k').has v' = true ↔
    (m.setAt k').has v' = true ∧ ¬ (k' = k ∧ v' = v) := by
  unfold eraseAt
  rw [setAt, find?_set]
  by_cases h : k' = k
  · subst h
    simp [and_comm]
  · simp [h, setAt]

@[simp] theorem has_eraseIn : ((m.eraseIn k v).setAt k').has v' = true ↔
    (m.setAt k').has v' = true ∧ ¬ (k' = k ∧ v' = v) := by
  unfold eraseIn
  rw [setAt, find?_update]
  by_cases h : k' = k
  · subst h
    cases hk : m.find? k' <;> simp [setAt, hk, and_comm]
  · simp [h, setAt]

@[simp] theorem has_eraseOrDrop : ((m.eraseOrDrop k v).setAt k').has v' = true ↔
    (m.setAt k').has v' = true ∧ ¬ (k' = k ∧ v' = v) := by
  unfold eraseOrDrop
  cases hk : m.find? k with
  | none =>
      refine (and_iff_left_of_imp ?_).symm
      rintro hmem ⟨rfl, rfl⟩
      simp [setAt, hk] at hmem
  | some s =>
      simp only
      have hset : m.setAt k = s := by rw [setAt, hk, Option.getD_some]
      split
      case isTrue hempty =>
        -- nothing is left at `k`
        have hnone : ∀ x, FlatSet.has (s.erase v) x = false := by
          intro x
          rw [FlatSet.has, find?, List.isEmpty_iff.mp hempty]
          rfl
        rw [setAt, find?_erase]
        by_cases h : k' = k
        · subst h
          have hv' := hnone v'
          rw [FlatSet.has_erase] at hv'
          rw [hset]
          simpa [and_comm] using hv'
        · simp [h, setAt]
      case isFalse =>
        have heq : m.set k (s.erase v) = m.eraseAt k v := by rw [eraseAt, hset]
        rw [heq, has_eraseAt]

/-- After inserting `v` at every key of a list, it is a member at just these keys besides those
where it was one. -/
theorem has_foldl_insertAt (l : List κ) :
    ((l.foldl (·.insertAt · v) m).setAt k').has v' = true ↔
      (m.setAt k').has v' = true ∨ (v = v' ∧ k' ∈ l) := by
  induction l generalizing m with
  | nil => simp
  | cons k l ih =>
      rw [List.foldl_cons, ih, has_insertAt, List.mem_cons]
      tauto

/-- Erasing `v` at every key of a list, in one of the three ways. -/
theorem has_foldl_erase {erase : FlatMap κ (FlatSet ν) → κ → ν → FlatMap κ (FlatSet ν)}
    (herase : ∀ m k k' v v', ((erase m k v).setAt k').has v' = true ↔
      (m.setAt k').has v' = true ∧ ¬ (k' = k ∧ v' = v)) (l : List κ) :
    ((l.foldl (erase · · v) m).setAt k').has v' = true ↔
      (m.setAt k').has v' = true ∧ ¬ (v = v' ∧ k' ∈ l) := by
  induction l generalizing m with
  | nil => simp
  | cons k l ih =>
      rw [List.foldl_cons, ih, herase, List.mem_cons]
      tauto

end FlatMap

end BtcmChain
