import Mathlib.Data.List.Basic
import Mathlib.Data.List.TakeWhile
import Mathlib.Order.Defs.LinearOrder
import Mathlib.Algebra.BigOperators.Group.List.Basic
import Mathlib.Algebra.Order.BigOperators.Group.List
import Mathlib.Tactic.Linarith
import Mathlib.Tactic.Ring

set_option autoImplicit false

/-!
# Flat maps: association lists with strictly increasing keys

A `FlatMap κ α` is a list of key/value pairs whose keys strictly increase; the
ordering is a field of the structure, so every map is its own canonical form and
a key has at most one value. The operations are the usual ones (`find?`, `set`,
`update`, `erase`), and the second half of the module is the *accounting kit*:
`sum w` adds up a weight over the entries, and `sum_set_new`/`sum_update`/
`sum_erase` say how a single change moves that sum. Everything runs by structural
recursion, so concrete maps evaluate.
-/

namespace BtcmChain

/-! ## Ranges of a sorted list -/

section Ranges

variable {α : Type} {p : α → Bool} {l : List α}

theorem takeWhile_eq_filter (h : l.Pairwise fun a b => p b = true → p a = true) :
    l.takeWhile p = l.filter p := by
  induction l with
  | nil => rfl
  | cons a l ih =>
      obtain ⟨ha, hl⟩ := List.pairwise_cons.mp h
      cases hp : p a with
      | true => simp [hp, ih hl]
      | false =>
          have hnone : l.filter p = [] := List.filter_eq_nil_iff.mpr fun b hb hpb => by
            rw [ha b hb hpb] at hp
            cases hp
          simp [hp, hnone]

theorem dropWhile_eq_filter (h : l.Pairwise fun a b => p b = true → p a = true) :
    l.dropWhile p = l.filter fun a => !p a := by
  induction l with
  | nil => rfl
  | cons a l ih =>
      obtain ⟨ha, hl⟩ := List.pairwise_cons.mp h
      cases hp : p a with
      | true => simp [hp, ih hl]
      | false =>
          have hall : l.filter (fun a => !p a) = l := List.filter_eq_self.mpr fun b hb => by
            cases hpb : p b with
            | true =>
                rw [ha b hb hpb] at hp
                cases hp
            | false => rfl
          simp [hp, hall]

end Ranges

/-! ## Maps -/

/-- An association list whose keys strictly increase, as a sorted vector or a tree keeps its
entries. -/
structure FlatMap (κ : Type) [LinearOrder κ] (α : Type) where
  /-- The key/value pairs, in the order of their keys. -/
  entries : List (κ × α)
  /-- The keys strictly increase from one pair to the next, hence no key occurs twice. -/
  sorted : entries.Pairwise fun a b => a.1 < b.1

namespace FlatMap

variable {κ α β : Type} [LinearOrder κ]

instance [DecidableEq α] : DecidableEq (FlatMap κ α) := fun m n =>
  decidable_of_iff (m.entries = n.entries) (by cases m; cases n; simp)

@[ext] theorem ext {m n : FlatMap κ α} (h : m.entries = n.entries) : m = n := by
  cases m; cases n; simpa using h

/-! ## List-level operations -/

/-- The value at `k` in a key/value list: the first pair with this key decides. -/
def findL (k : κ) : List (κ × α) → Option α
  | [] => none
  | (k', v) :: rest => if k' = k then some v else findL k rest

/-- Insert the value at `k`, or overwrite the one that is there, keeping the order of the keys. -/
def setL (k : κ) (v : α) : List (κ × α) → List (κ × α)
  | [] => [(k, v)]
  | (k', v') :: rest =>
      if k < k' then (k, v) :: (k', v') :: rest
      else if k' = k then (k, v) :: rest
      else (k', v') :: setL k v rest

/-- Apply `f` to the value at `k`, if there is one. -/
def updateL (k : κ) (f : α → α) : List (κ × α) → List (κ × α)
  | [] => []
  | (k', v) :: rest =>
      if k' = k then (k', f v) :: rest else (k', v) :: updateL k f rest

/-- Drop the entry at `k` from a key/value list, if there is one. -/
def eraseL (k : κ) : List (κ × α) → List (κ × α)
  | [] => []
  | (k', v) :: rest => if k' = k then rest else (k', v) :: eraseL k rest

theorem mem_setL {k : κ} {v : α} {l : List (κ × α)} {e : κ × α}
    (h : e ∈ setL k v l) : e = (k, v) ∨ e ∈ l := by
  induction l with
  | nil => simpa [setL] using h
  | cons hd rest ih =>
      obtain ⟨k', v'⟩ := hd
      simp only [setL] at h
      split at h
      · simpa using h
      · split at h
        · rcases List.mem_cons.mp h with h | h
          · exact .inl h
          · exact .inr (List.mem_cons_of_mem _ h)
        · rcases List.mem_cons.mp h with h | h
          · exact .inr (h ▸ List.mem_cons_self)
          · exact (ih h).imp_right (List.mem_cons_of_mem _)

theorem mem_updateL {k : κ} {f : α → α} {l : List (κ × α)} {e : κ × α}
    (h : e ∈ updateL k f l) : ∃ v, (e.1, v) ∈ l := by
  induction l with
  | nil => simp [updateL] at h
  | cons hd rest ih =>
      obtain ⟨k', v'⟩ := hd
      simp only [updateL] at h
      split at h
      all_goals rcases List.mem_cons.mp h with rfl | h
      · exact ⟨v', List.mem_cons_self⟩
      · exact ⟨e.2, List.mem_cons_of_mem _ h⟩
      · exact ⟨v', List.mem_cons_self⟩
      · obtain ⟨v, hv⟩ := ih h
        exact ⟨v, List.mem_cons_of_mem _ hv⟩

theorem eraseL_sublist (k : κ) (l : List (κ × α)) : (eraseL k l).Sublist l := by
  induction l with
  | nil => exact .slnil
  | cons hd rest ih =>
      simp only [eraseL]
      split
      · exact List.sublist_cons_self _ _
      · exact ih.cons_cons _

theorem setL_sorted {k : κ} {v : α} {l : List (κ × α)}
    (h : l.Pairwise fun a b => a.1 < b.1) :
    (setL k v l).Pairwise fun a b => a.1 < b.1 := by
  induction l with
  | nil => simp [setL]
  | cons hd rest ih =>
      obtain ⟨k', v'⟩ := hd
      obtain ⟨hhd, hrest⟩ := List.pairwise_cons.mp h
      simp only [setL]
      split
      case isTrue hlt =>
        refine List.pairwise_cons.mpr ⟨fun e he => ?_, h⟩
        rcases List.mem_cons.mp he with rfl | he
        · exact hlt
        · exact lt_trans hlt (hhd e he)
      case isFalse hge =>
        split
        case isTrue heq => exact List.pairwise_cons.mpr ⟨heq ▸ hhd, hrest⟩
        case isFalse hne =>
          refine List.pairwise_cons.mpr ⟨fun e he => ?_, ih hrest⟩
          rcases mem_setL he with rfl | he
          · exact lt_of_le_of_ne (not_lt.mp hge) hne
          · exact hhd e he

theorem updateL_sorted {k : κ} {f : α → α} {l : List (κ × α)}
    (h : l.Pairwise fun a b => a.1 < b.1) :
    (updateL k f l).Pairwise fun a b => a.1 < b.1 := by
  induction l with
  | nil => exact h
  | cons hd rest ih =>
      obtain ⟨hhd, hrest⟩ := List.pairwise_cons.mp h
      simp only [updateL]
      split
      · exact List.pairwise_cons.mpr ⟨hhd, hrest⟩
      · refine List.pairwise_cons.mpr ⟨fun e he => ?_, ih hrest⟩
        obtain ⟨v, hv⟩ := mem_updateL he
        exact hhd (e.1, v) hv

/-! ## The operations -/

/-- The map with no entries, at which every lookup finds nothing. -/
def empty : FlatMap κ α := ⟨[], .nil⟩

instance : Inhabited (FlatMap κ α) := ⟨empty⟩

/-- The value that the map has at `k`, if the key is in use. -/
def find? (m : FlatMap κ α) (k : κ) : Option α := findL k m.entries

/-- Insert the value at `k`, or overwrite the one that the map has there. -/
def set (m : FlatMap κ α) (k : κ) (v : α) : FlatMap κ α :=
  ⟨setL k v m.entries, setL_sorted m.sorted⟩

/-- Apply `f` to the value at `k`; absent keys stay absent. -/
def update (m : FlatMap κ α) (k : κ) (f : α → α) : FlatMap κ α :=
  ⟨updateL k f m.entries, updateL_sorted m.sorted⟩

/-- Remove the entry at `k`; where there is none, the map stays as it is. -/
def erase (m : FlatMap κ α) (k : κ) : FlatMap κ α :=
  ⟨eraseL k m.entries, m.sorted.sublist (eraseL_sublist k m.entries)⟩

/-- Keep the entries whose key satisfies `p`, and drop all others. -/
def filterKeys (m : FlatMap κ α) (p : κ → Bool) : FlatMap κ α :=
  ⟨m.entries.filter fun e => p e.1, m.sorted.sublist List.filter_sublist⟩

/-- Keep the entries whose value satisfies `p`, and drop all others. -/
def filterVals (m : FlatMap κ α) (p : α → Bool) : FlatMap κ α :=
  ⟨m.entries.filter fun e => p e.2, m.sorted.sublist List.filter_sublist⟩

/-- Apply `f` to every value of the map; the keys stay as they are. -/
def mapVals (m : FlatMap κ α) (f : α → β) : FlatMap κ β :=
  ⟨m.entries.map fun e => (e.1, f e.2), by
    simpa [List.pairwise_map] using m.sorted⟩

/-- The keys of the map, in increasing order and each of them once. -/
def keys (m : FlatMap κ α) : List κ := m.entries.map Prod.fst

/-- The number of entries of the map, which is that of its keys. -/
def size (m : FlatMap κ α) : Nat := m.entries.length

/-- Build a map from a list, later pairs overwriting earlier ones. -/
def ofList (l : List (κ × α)) : FlatMap κ α :=
  l.foldl (fun m e => m.set e.1 e.2) empty

/-! ## Lookup after a change -/

theorem findL_eq_none {k : κ} {l : List (κ × α)} :
    findL k l = none ↔ ∀ e ∈ l, e.1 ≠ k := by
  induction l with
  | nil => simp [findL]
  | cons hd rest ih =>
      simp only [findL, List.forall_mem_cons, ← ih]
      split <;> simp [*]

theorem mem_of_findL {k : κ} {v : α} {l : List (κ × α)} (h : findL k l = some v) :
    (k, v) ∈ l := by
  induction l with
  | nil => simp [findL] at h
  | cons hd rest ih =>
      obtain ⟨k', v'⟩ := hd
      simp only [findL] at h
      split at h
      case isTrue heq =>
        obtain rfl := Option.some.inj h
        exact heq ▸ List.mem_cons_self
      case isFalse => exact List.mem_cons_of_mem _ (ih h)

theorem mem_entries_iff {m : FlatMap κ α} {k : κ} {v : α} :
    (k, v) ∈ m.entries ↔ m.find? k = some v := by
  refine ⟨fun h => ?_, mem_of_findL⟩
  obtain ⟨l, hs⟩ := m
  simp only [find?] at h ⊢
  induction l with
  | nil => simp at h
  | cons hd rest ih =>
      obtain ⟨hhd, hrest⟩ := List.pairwise_cons.mp hs
      rcases List.mem_cons.mp h with rfl | h
      · simp [findL]
      · have hne : hd.1 ≠ k := ne_of_lt (hhd _ h)
        simpa [findL, hne] using ih hrest h

theorem find?_eq_none {m : FlatMap κ α} {k : κ} :
    m.find? k = none ↔ ∀ e ∈ m.entries, e.1 ≠ k := findL_eq_none

theorem findL_append (k : κ) (l l' : List (κ × α)) :
    findL k (l ++ l') = (findL k l).or (findL k l') := by
  induction l with
  | nil => rfl
  | cons hd l ih =>
      simp only [List.cons_append, findL]
      split
      · rfl
      · exact ih

theorem nodup_keys (m : FlatMap κ α) : (m.entries.map Prod.fst).Nodup := by
  refine List.pairwise_map.mpr (m.sorted.imp fun hlt heq => ?_)
  exact absurd (heq ▸ hlt) (lt_irrefl _)

theorem findL_eq_some_iff {k : κ} {v : α} {l : List (κ × α)} (h : (l.map Prod.fst).Nodup) :
    findL k l = some v ↔ (k, v) ∈ l := by
  refine ⟨mem_of_findL, fun hmem => ?_⟩
  induction l with
  | nil => cases hmem
  | cons hd l ih =>
      obtain ⟨hhd, hrest⟩ := List.nodup_cons.mp h
      rcases List.mem_cons.mp hmem with rfl | hmem
      · simp [findL]
      · have hne : hd.1 ≠ k := fun heq => hhd (heq ▸ List.mem_map_of_mem hmem)
        simp only [findL, if_neg hne]
        exact ih hrest hmem

/-- In whatever order the entries come, a lookup finds the same. -/
theorem findL_perm {m : FlatMap κ α} {l : List (κ × α)} (h : l.Perm m.entries) (k : κ) :
    findL k l = m.find? k := by
  have hnodup : (l.map Prod.fst).Nodup := (h.map Prod.fst).nodup_iff.mpr m.nodup_keys
  refine Option.ext fun v => ?_
  rw [findL_eq_some_iff hnodup, h.mem_iff, mem_entries_iff]

/-- A map is determined by its lookups: two maps that find the same at every key are the same map.
-/
theorem ext_find? {m n : FlatMap κ α} (h : ∀ k, m.find? k = n.find? k) : m = n := by
  have hmem : ∀ e, e ∈ m.entries ↔ e ∈ n.entries := fun e => by
    rw [mem_entries_iff (k := e.1) (v := e.2), mem_entries_iff, h]
  have hnodup : ∀ m : FlatMap κ α, m.entries.Nodup := fun m =>
    m.sorted.imp fun hlt heq => absurd (heq ▸ hlt) (lt_irrefl _)
  have hperm : m.entries.Perm n.entries :=
    (List.perm_ext_iff_of_nodup (hnodup m) (hnodup n)).mpr hmem
  exact FlatMap.ext (hperm.eq_of_pairwise (fun a b _ _ h1 h2 => absurd (h1.trans h2) (lt_irrefl _))
    m.sorted n.sorted)

@[simp] theorem find?_empty (k : κ) : (empty : FlatMap κ α).find? k = none := rfl

theorem find?_set (m : FlatMap κ α) (k k' : κ) (v : α) :
    (m.set k v).find? k' = if k' = k then some v else m.find? k' := by
  obtain ⟨l, hs⟩ := m
  simp only [find?, set]
  induction l with
  | nil => simp [setL, findL, eq_comm]
  | cons hd rest ih =>
      have ih := ih (List.pairwise_cons.mp hs).2
      simp only [setL]
      split
      · simp [findL, eq_comm]
      · split
        case isTrue heq => subst heq; grind [findL]
        case isFalse => grind [findL]

@[simp] theorem find?_set_self (m : FlatMap κ α) (k : κ) (v : α) :
    (m.set k v).find? k = some v := by simp [find?_set]

theorem find?_update (m : FlatMap κ α) (k k' : κ) (f : α → α) :
    (m.update k f).find? k' = if k' = k then (m.find? k).map f else m.find? k' := by
  obtain ⟨l, hs⟩ := m
  simp only [find?, update]
  induction l with
  | nil => simp [updateL, findL]
  | cons hd rest ih =>
      have ih := ih (List.pairwise_cons.mp hs).2
      grind [findL, updateL]

theorem find?_erase (m : FlatMap κ α) (k k' : κ) :
    (m.erase k).find? k' = if k' = k then none else m.find? k' := by
  obtain ⟨l, hs⟩ := m
  simp only [find?, erase]
  induction l with
  | nil => simp [eraseL, findL]
  | cons hd rest ih =>
      obtain ⟨hhd, hrest⟩ := List.pairwise_cons.mp hs
      have ih := ih hrest
      by_cases heq : hd.1 = k
      · have hnone : findL k rest = none :=
          findL_eq_none.mpr fun e he => heq ▸ (ne_of_lt (hhd e he)).symm
        grind [findL, eraseL]
      · grind [findL, eraseL]

theorem size_erase {m : FlatMap κ α} {k : κ} {v : α} (h : m.find? k = some v) :
    (m.erase k).size + 1 = m.size := by
  obtain ⟨l, hs⟩ := m
  simp only [find?, erase, size] at h ⊢
  induction l with
  | nil => simp [findL] at h
  | cons hd rest ih =>
      simp only [findL] at h
      simp only [eraseL]
      split at h
      case isTrue heq => simp [heq]
      case isFalse hne =>
        simp only [if_neg hne, List.length_cons, ih (List.pairwise_cons.mp hs).2 h]

theorem find?_filterKeys (m : FlatMap κ α) (p : κ → Bool) (k : κ) :
    (m.filterKeys p).find? k = if p k then m.find? k else none := by
  refine Option.ext fun v => ?_
  rw [← mem_entries_iff, filterKeys, List.mem_filter, mem_entries_iff]
  cases p k <;> simp

theorem find?_filterVals (m : FlatMap κ α) (p : α → Bool) (k : κ) :
    (m.filterVals p).find? k = (m.find? k).filter p := by
  refine Option.ext fun v => ?_
  rw [← mem_entries_iff, filterVals, List.mem_filter, mem_entries_iff, Option.filter_eq_some_iff]

@[simp] theorem find?_mapVals (m : FlatMap κ α) (f : α → β) (k : κ) :
    (m.mapVals f).find? k = (m.find? k).map f := by
  obtain ⟨l, hs⟩ := m
  simp only [find?, mapVals]
  induction l with
  | nil => rfl
  | cons hd rest ih =>
      have ih := ih (List.pairwise_cons.mp hs).2
      grind [findL]

/-- When an update changes nothing that can be observed of a value, the map of what is observed
stays the same. -/
theorem mapVals_update_eq {m : FlatMap κ α} {k : κ} {f : α → α} {obs : α → β}
    (h : ∀ v, m.find? k = some v → obs (f v) = obs v) :
    (m.update k f).mapVals obs = m.mapVals obs := by
  apply ext
  obtain ⟨l, hs⟩ := m
  simp only [find?, mapVals, update] at h ⊢
  induction l with
  | nil => rfl
  | cons hd rest ih =>
      have ih := ih (List.pairwise_cons.mp hs).2
      grind [findL, updateL]

theorem mapVals_set (m : FlatMap κ α) (k : κ) (v : α) (f : α → β) :
    (m.set k v).mapVals f = (m.mapVals f).set k (f v) := by
  refine ext_find? fun k' => ?_
  rw [find?_mapVals, find?_set, find?_set, find?_mapVals]
  split <;> rfl

theorem mapVals_update (m : FlatMap κ α) (k : κ) (v : α) (f : α → β) :
    (m.update k fun _ => v).mapVals f = (m.mapVals f).update k fun _ => f v := by
  refine ext_find? fun k' => ?_
  rw [find?_mapVals, find?_update, find?_update, find?_mapVals, find?_mapVals]
  split
  · rw [Option.map_map, Option.map_map]
    rfl
  · rfl

/-- `lower_bound`: the first entry of the map whose key is not less than `k`. -/
def lowerBound (m : FlatMap κ α) (k : κ) : Option (κ × α) := m.entries.find? fun e => decide (k ≤ e.1)

theorem lowerBound_eq_some {m : FlatMap κ α} {k : κ} {e : κ × α} : m.lowerBound k = some e ↔
    m.find? e.1 = some e.2 ∧ k ≤ e.1 ∧ ∀ k' v, m.find? k' = some v → k ≤ k' → e.1 ≤ k' := by
  unfold lowerBound
  constructor
  · intro h
    have hle := List.find?_some h
    refine ⟨mem_entries_iff.mp (List.mem_of_find?_eq_some h), of_decide_eq_true hle, ?_⟩
    intro k' v hk' hle
    obtain ⟨before, after, heq, hbefore⟩ := (List.find?_eq_some_iff_append.mp h).2
    have hmem := mem_entries_iff.mpr hk'
    have hsorted := m.sorted
    rw [heq] at hmem hsorted
    rcases List.mem_append.mp hmem with hmem | hmem
    · exact absurd (hbefore _ hmem) (by simpa using hle)
    · rcases List.mem_cons.mp hmem with heq | hmem
      · exact (congrArg Prod.fst heq).ge
      · exact ((List.pairwise_cons.mp (List.pairwise_append.mp hsorted).2.1).1 _ hmem).le
  · rintro ⟨hfind, hle, hleast⟩
    have hmem := mem_entries_iff.mpr hfind
    obtain ⟨before, after, heq⟩ := List.append_of_mem hmem
    refine List.find?_eq_some_iff_append.mpr ⟨decide_eq_true hle, before, after, heq, fun x hx => ?_⟩
    have hsorted := m.sorted
    rw [heq] at hsorted
    have hlt := (List.pairwise_append.mp hsorted).2.2 x hx e List.mem_cons_self
    rw [Bool.not_eq_true', decide_eq_false_iff_not]
    intro hkx
    have hx : (x.1, x.2) ∈ m.entries := heq ▸ List.mem_append_left _ hx
    exact absurd (hleast x.1 x.2 (mem_entries_iff.mp hx) hkx) (not_le.mpr hlt)

theorem lowerBound_eq_none {m : FlatMap κ α} {k : κ} :
    m.lowerBound k = none ↔ ∀ k' v, m.find? k' = some v → k' < k := by
  unfold lowerBound
  simp only [List.find?_eq_none, decide_eq_true_eq, not_le]
  exact ⟨fun h k' v hk' => h (k', v) (mem_entries_iff.mpr hk'),
    fun h e he => h e.1 e.2 (mem_entries_iff.mp he)⟩

/-- A scan from a lower bound meets every key of an interval that starts there. -/
theorem mem_scan {l : List (κ × α)} (hl : l.Pairwise fun a b => a.1 < b.1) {lo : κ} {p : κ × α → Bool}
    {e : κ × α} (he : e ∈ l) (hlo : lo ≤ e.1) (hp : ∀ x ∈ l, lo ≤ x.1 → x.1 ≤ e.1 → p x = true) :
    e ∈ (l.dropWhile fun x => decide (x.1 < lo)).takeWhile p := by
  induction l with
  | nil => cases he
  | cons x l ih =>
      obtain ⟨hx, hl⟩ := List.pairwise_cons.mp hl
      have hrest := fun he => ih hl he fun y hy => hp y (List.mem_cons_of_mem x hy)
      by_cases hlox : x.1 < lo
      · have hne : e ≠ x := fun heq => absurd (heq ▸ hlo) (not_le.mpr hlox)
        have he := (List.mem_cons.mp he).resolve_left hne
        simpa only [List.dropWhile, decide_eq_true hlox] using hrest he
      · have hlox' := not_lt.mp hlox
        -- from here on nothing is dropped
        have hkeep : l.dropWhile (fun y => decide (y.1 < lo)) = l := by
          cases l with
          | nil => rfl
          | cons y l =>
              have hy : ¬ y.1 < lo := not_lt.mpr (hlox'.trans (hx y List.mem_cons_self).le)
              simp only [List.dropWhile, decide_eq_false hy]
        simp only [List.dropWhile, decide_eq_false hlox]
        rcases List.mem_cons.mp he with rfl | he
        · simp only [List.takeWhile, hp e List.mem_cons_self hlo le_rfl, List.mem_cons_self]
        · have htail := hrest he
          rw [hkeep] at htail
          simp only [List.takeWhile, hp x List.mem_cons_self hlox' (hx e he).le]
          exact List.mem_cons_of_mem x htail

theorem keys_sorted (m : FlatMap κ α) : m.keys.Pairwise (· < ·) := List.pairwise_map.mpr m.sorted

/-- The keys from a bound on, found by skipping those below it, are just the keys in use that are
not below it. -/
theorem mem_keys_from {m : FlatMap κ α} {lo k : κ} :
    k ∈ m.keys.dropWhile (fun k => decide (k < lo)) ↔ (m.find? k).isSome = true ∧ lo ≤ k := by
  have hsorted : m.keys.Pairwise fun a b => decide (b < lo) = true → decide (a < lo) = true := by
    refine List.pairwise_map.mpr (m.sorted.imp fun hlt hb => ?_)
    exact decide_eq_true (hlt.trans (of_decide_eq_true hb))
  rw [dropWhile_eq_filter hsorted, List.mem_filter, keys, List.mem_map, Bool.not_eq_true',
    decide_eq_false_iff_not, not_lt, Option.isSome_iff_exists]
  refine and_congr ⟨?_, ?_⟩ Iff.rfl
  · rintro ⟨e, he, rfl⟩
    exact ⟨e.2, mem_entries_iff.mp he⟩
  · rintro ⟨v, hv⟩
    exact ⟨(k, v), mem_entries_iff.mpr hv, rfl⟩

/-! ## Sums over the entries -/

/-- The sum of a weight over all entries of the map, where the weight may depend on key and value.
-/
def sum (m : FlatMap κ α) (w : κ → α → ℤ) : ℤ :=
  (m.entries.map fun e => w e.1 e.2).sum

@[simp] theorem sum_empty (w : κ → α → ℤ) : (empty : FlatMap κ α).sum w = 0 := rfl

theorem sum_set_new {m : FlatMap κ α} {k : κ} {v : α} {w : κ → α → ℤ}
    (h : m.find? k = none) : (m.set k v).sum w = m.sum w + w k v := by
  obtain ⟨l, hs⟩ := m
  simp only [find?, set, sum] at h ⊢
  induction l with
  | nil => simp [setL]
  | cons hd rest ih =>
      obtain ⟨hne, hrest⟩ := List.forall_mem_cons.mp (findL_eq_none.mp h)
      have ih := ih (List.pairwise_cons.mp hs).2 (findL_eq_none.mpr hrest)
      simp only [setL, if_neg hne]
      split
      · simp only [List.map_cons, List.sum_cons]; ring
      · simp only [List.map_cons, List.sum_cons, ih]; ring

theorem sum_update {m : FlatMap κ α} {k : κ} {v : α} {f : α → α} {w : κ → α → ℤ}
    (h : m.find? k = some v) : (m.update k f).sum w = m.sum w + (w k (f v) - w k v) := by
  obtain ⟨l, hs⟩ := m
  simp only [find?, update, sum] at h ⊢
  induction l with
  | nil => simp [findL] at h
  | cons hd rest ih =>
      simp only [findL] at h
      simp only [updateL]
      split at h
      case isTrue heq =>
        obtain rfl := Option.some.inj h
        simp only [heq, ↓reduceIte, List.map_cons, List.sum_cons]; ring
      case isFalse hne =>
        simp only [if_neg hne, List.map_cons, List.sum_cons, ih (List.pairwise_cons.mp hs).2 h]
        ring

theorem sum_erase {m : FlatMap κ α} {k : κ} {v : α} {w : κ → α → ℤ}
    (h : m.find? k = some v) : (m.erase k).sum w = m.sum w - w k v := by
  obtain ⟨l, hs⟩ := m
  simp only [find?, erase, sum] at h ⊢
  induction l with
  | nil => simp [findL] at h
  | cons hd rest ih =>
      simp only [findL] at h
      simp only [eraseL]
      split at h
      case isTrue heq =>
        obtain rfl := Option.some.inj h
        simp only [heq, ↓reduceIte, List.map_cons, List.sum_cons]; ring
      case isFalse hne =>
        simp only [if_neg hne, List.map_cons, List.sum_cons, ih (List.pairwise_cons.mp hs).2 h]
        ring

theorem sum_congr {m : FlatMap κ α} {w w' : κ → α → ℤ}
    (h : ∀ k v, m.find? k = some v → w k v = w' k v) : m.sum w = m.sum w' := by
  simp only [sum]
  congr 1
  exact List.map_congr_left fun e he => h e.1 e.2 (mem_entries_iff.mp he)

theorem sum_mapVals (m : FlatMap κ α) (f : α → β) (w : κ → β → ℤ) :
    (m.mapVals f).sum w = m.sum fun k v => w k (f v) := by
  simp [sum, mapVals, Function.comp_def]

theorem sum_filterVals (m : FlatMap κ α) (p : α → Bool) (w : κ → α → ℤ) :
    (m.filterVals p).sum w = m.sum fun k v => if p v then w k v else 0 := by
  simp only [sum, filterVals]
  induction m.entries with
  | nil => rfl
  | cons e l ih =>
      rw [List.map_cons, List.sum_cons, List.filter_cons, ← ih]
      split
      · rfl
      · exact (zero_add _).symm

theorem sum_add (m : FlatMap κ α) (w w' : κ → α → ℤ) :
    m.sum (fun k v => w k v + w' k v) = m.sum w + m.sum w' :=
  List.sum_map_add

theorem sum_eq_zero {m : FlatMap κ α} {w : κ → α → ℤ}
    (h : ∀ k v, m.find? k = some v → w k v = 0) : m.sum w = 0 := by
  rw [sum_congr h]
  simp [sum]

theorem sum_nonneg {m : FlatMap κ α} {w : κ → α → ℤ}
    (h : ∀ k v, m.find? k = some v → 0 ≤ w k v) : 0 ≤ m.sum w := by
  refine List.sum_nonneg fun x hx => ?_
  obtain ⟨e, he, rfl⟩ := List.mem_map.mp hx
  exact h e.1 e.2 (mem_entries_iff.mp he)

/-- With non-negative weights, a single entry is at most the whole sum. -/
theorem le_sum {m : FlatMap κ α} {w : κ → α → ℤ} {k : κ} {v : α}
    (hw : ∀ k v, m.find? k = some v → 0 ≤ w k v) (h : m.find? k = some v) :
    w k v ≤ m.sum w := by
  have hrest : 0 ≤ (m.erase k).sum w := sum_nonneg fun k' v' h' => by
    rw [find?_erase] at h'
    split at h'
    · cases h'
    · exact hw k' v' h'
  rw [sum_erase h] at hrest
  linarith

end FlatMap

end BtcmChain
