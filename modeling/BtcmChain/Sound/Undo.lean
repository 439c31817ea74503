import BtcmChain.Db.UndoDatabase

set_option autoImplicit false

/-!
# Undoing a session

A record *describes* the way from the store a session started with to the store now:
for every id it says one of four things (`CellOk`), and the two stores agree with it.
Each operation keeps this true of the innermost record, so a rollback finds everything
it needs to get back (`rollback_eq_start`).

What can stand in the way is a unique key. The rollback writes the old values one by
one, before it removes what is new, and another object may hold a key that an old value
needs. `Accepts` rules that out, and nothing less does for every order of the hash maps
(`rollback_all_orders_iff`).
-/

namespace BtcmChain

variable {α : Type}

/-! ## What a record says -/

/-- What a record holds of one id: its old value if it was modified, whether it is new,
and its old value if it was removed. -/
@[ext] structure Cell (α : Type) where
  was : Option α
  isNew : Bool
  gone : Option α

/-- The entry of a record at an id: the old value, whether it is new, and the value it was removed
with. -/
def UndoState.cell (u : UndoState α) (id : ObjectId) : Cell α :=
  ⟨u.oldValues.find? id, (u.newIds.find? id).isSome, u.removed.find? id⟩

/-! ### What the callbacks do to a cell -/

/-- The entry at the id of a new object. -/
def Cell.onCreate (c : Cell α) : Cell α := { c with isNew := true }

/-- The entry at the id of a modified object, with the value it had before. -/
def Cell.onModify (c : Cell α) (v : α) : Cell α :=
  if c.isNew then c else if c.was.isSome then c else { c with was := some v }

/-- The entry at the id of a removed object, with the value it had before. -/
def Cell.onRemove (c : Cell α) (v : α) : Cell α :=
  if c.isNew then { c with isNew := false }
  else
    match c.was with
    | some old => { c with was := none, gone := some old }
    | none => if c.gone.isSome then c else { c with gone := some v }

theorem Cell.isNew_of_onModify {c : Cell α} {v : α} (h : (c.onModify v).isNew = true) :
    c.isNew = true := by
  unfold Cell.onModify at h
  split at h
  · assumption
  · split at h <;> exact h

theorem Cell.isNew_of_onRemove {c : Cell α} {v : α} (h : (c.onRemove v).isNew = true) :
    c.isNew = true := by
  unfold Cell.onRemove at h
  split at h
  · assumption
  · split at h
    · exact h
    · split at h <;> exact h

section Cells

variable (u : UndoState α) (id k : ObjectId) (v : α)

theorem cell_onCreate :
    (u.onCreate id).cell k = if k = id then (u.cell k).onCreate else u.cell k := by
  by_cases hk : k = id
  · subst hk
    simp [UndoState.cell, UndoState.onCreate, Cell.onCreate]
  · simp [UndoState.cell, UndoState.onCreate, FlatMap.find?_set, hk]

theorem cell_onModify :
    (u.onModify id v).cell k = if k = id then (u.cell k).onModify v else u.cell k := by
  by_cases hk : k = id
  · subst hk
    cases hnew : u.newIds.find? k <;> cases hold : u.oldValues.find? k <;>
      simp [UndoState.onModify, UndoState.cell, Cell.onModify, hnew, hold]
  · cases hnew : u.newIds.find? id <;> cases hold : u.oldValues.find? id <;>
      simp [UndoState.onModify, UndoState.cell, hnew, hold, FlatMap.find?_set, hk]

theorem cell_onRemove :
    (u.onRemove id v).cell k = if k = id then (u.cell k).onRemove v else u.cell k := by
  by_cases hk : k = id
  · subst hk
    cases hnew : u.newIds.find? k <;> cases hold : u.oldValues.find? k <;>
      cases hgone : u.removed.find? k <;>
      simp [UndoState.onRemove, UndoState.cell, Cell.onRemove, hnew, hold, hgone,
        FlatMap.find?_erase]
  · cases hnew : u.newIds.find? id <;> cases hold : u.oldValues.find? id <;>
      cases hgone : u.removed.find? id <;>
      simp [UndoState.onRemove, UndoState.cell, hnew, hold, hgone, FlatMap.find?_set,
        FlatMap.find?_erase, hk]

theorem onModify_nextIds : (u.onModify id v).oldIndexNextIds = u.oldIndexNextIds := by
  unfold UndoState.onModify
  split
  · rfl
  · split <;> rfl

theorem onRemove_nextIds : (u.onRemove id v).oldIndexNextIds = u.oldIndexNextIds := by
  unfold UndoState.onRemove
  split
  · rfl
  · split
    · rfl
    · split <;> rfl

end Cells

/-! ### The ways of a store -/

/-- The four things a record can say of an id, and what they mean for its value at the
start of the session and its value now. -/
inductive CellOk : Cell α → Option α → Option α → Prop
  | new (v : α) : CellOk ⟨none, true, none⟩ none (some v)
  | upd (old v : α) : CellOk ⟨some old, false, none⟩ (some old) (some v)
  | del (old : α) : CellOk ⟨none, false, some old⟩ (some old) none
  | nop (x : Option α) : CellOk ⟨none, false, none⟩ x x

theorem CellOk.of_was {c : Cell α} {x y : Option α} {old : α} (h : CellOk c x y)
    (hw : c.was = some old) : x = some old ∧ ∃ v, y = some v := by
  cases h with
  | upd old v => exact ⟨hw, v, rfl⟩
  | _ => cases hw

theorem CellOk.of_gone {c : Cell α} {x y : Option α} {old : α} (h : CellOk c x y)
    (hg : c.gone = some old) : x = some old := by
  cases h with
  | del old => exact hg
  | _ => cases hg

theorem CellOk.of_new {c : Cell α} {x y : Option α} (h : CellOk c x y) (hn : c.isNew = true) :
    c.was = none ∧ ∃ v, y = some v := by
  cases h with
  | new v => exact ⟨rfl, v, rfl⟩
  | _ => cases hn

/-- A record describes the way from one store to another. -/
structure UndoState.Describes (u : UndoState α) (start now : Store α) : Prop where
  cells : ∀ id, CellOk (u.cell id) (start.find? id) (now.find? id)
  next : ∀ i, start.nextId i = (u.oldIndexNextIds.find? i).getD (now.nextId i)
  grows : ∀ i, start.nextId i ≤ now.nextId i
  fresh : ∀ id, (u.cell id).isNew = true → start.nextId id.index ≤ id.number

/-- The empty record describes that nothing has changed. -/
theorem describes_empty (s : Store α) : UndoState.Describes {} s s :=
  ⟨fun _ => .nop _, fun _ => rfl, fun _ => le_refl _, fun _ h => by cases h⟩

/-- Where the stores agree off one id, a record that changes there only still describes. -/
theorem UndoState.Describes.step {u u' : UndoState α} {start s t : Store α} (id : ObjectId)
    (h : u.Describes start s) (hcell : ∀ k, k ≠ id → u'.cell k = u.cell k)
    (hfind : ∀ k, k ≠ id → t.find? k = s.find? k)
    (hid : CellOk (u.cell id) (start.find? id) (s.find? id) →
      CellOk (u'.cell id) (start.find? id) (t.find? id))
    (hnext : ∀ i, start.nextId i = (u'.oldIndexNextIds.find? i).getD (t.nextId i))
    (hgrows : ∀ i, s.nextId i ≤ t.nextId i)
    (hfresh : (u'.cell id).isNew = true → start.nextId id.index ≤ id.number) :
    u'.Describes start t where
  cells k := by
    by_cases hk : k = id
    · rw [hk]
      exact hid (h.cells id)
    · rw [hcell k hk, hfind k hk]
      exact h.cells k
  next := hnext
  grows i := le_trans (h.grows i) (hgrows i)
  fresh k hk := by
    by_cases hid : k = id
    · exact hid ▸ hfresh (hid ▸ hk)
    · exact h.fresh k (hcell k hid ▸ hk)

section Operations

variable {u : UndoState α} {start s t : Store α} {id : ObjectId} {v a : α}

/-- A removed object is kept with the value it had first, and forgotten if it is new. -/
theorem UndoState.Describes.remove (h : u.Describes start s) (ha : s.find? id = some a)
    (hr : s.remove id = .ok t) : (u.onRemove id a).Describes start t := by
  obtain ⟨-, rfl⟩ := Store.remove_ok.mp hr
  refine h.step id (fun k hk => by rw [cell_onRemove, if_neg hk])
    (fun k hk => by rw [Store.find?_erase, if_neg hk]) (fun hcell => ?_)
    (fun i => by rw [onRemove_nextIds]; exact h.next i) (fun _ => le_refl _)
    (fun hnew => h.fresh id (Cell.isNew_of_onRemove (by rwa [cell_onRemove, if_pos rfl] at hnew)))
  rw [cell_onRemove, if_pos rfl, Store.find?_erase, if_pos rfl]
  rw [ha] at hcell
  generalize u.cell id = c at hcell ⊢
  generalize start.find? id = x at hcell ⊢
  cases hcell with
  | new => exact .nop none
  | upd old => exact .del old
  | nop => exact .del a

variable [UniqueKeys α]

/-- The first old value of an object that is not new is kept. -/
theorem UndoState.Describes.modify (h : u.Describes start s) (ha : s.find? id = some a)
    (hm : s.modify id v = .ok t) : (u.onModify id a).Describes start t := by
  obtain ⟨-, -, rfl⟩ := Store.modify_ok.mp hm
  refine h.step id (fun k hk => by rw [cell_onModify, if_neg hk])
    (fun k hk => by rw [Store.find?_set, if_neg hk]) (fun hcell => ?_)
    (fun i => by rw [onModify_nextIds]; exact h.next i) (fun _ => le_refl _)
    (fun hnew => h.fresh id (Cell.isNew_of_onModify (by rwa [cell_onModify, if_pos rfl] at hnew)))
  rw [cell_onModify, if_pos rfl, Store.find?_set, if_pos rfl]
  rw [ha] at hcell
  generalize u.cell id = c at hcell ⊢
  generalize start.find? id = x at hcell ⊢
  cases hcell with
  | new => exact .new v
  | upd old => exact .upd old v
  | nop => exact .upd a v

/-- A created object was not there at the start, so it is new. -/
theorem UndoState.Describes.create (h : u.Describes start s) (hstart : start.WF) {index : Nat}
    (hc : s.create index v = .ok t) : (u.onCreate (s.freshId index)).Describes start t := by
  obtain ⟨hfree, -, rfl⟩ := Store.create_ok.mp hc
  have hnone : start.find? (s.freshId index) = none := by
    cases hx : start.find? (s.freshId index) with
    | none => rfl
    | some x => exact absurd (hstart.bound hx) (not_lt.mpr (h.grows index))
  refine h.step (s.freshId index) (fun k hk => by rw [cell_onCreate, if_neg hk])
    (fun k hk => by rw [Store.find?_setNextId, Store.find?_set, if_neg hk]) (fun hcell => ?_)
    (fun i => ?_) (fun i => ?_) (fun _ => h.grows index)
  · rw [cell_onCreate, if_pos rfl, Store.find?_setNextId, Store.find?_set, if_pos rfl, hnone]
    rw [hnone, hfree] at hcell
    generalize u.cell (s.freshId index) = c at hcell ⊢
    cases hcell with
    | nop => exact .new v
  · -- the first object created in the index brings its old next number
    rw [Store.nextId_setNextId, h.next i]
    have hindex : (s.freshId index).index = index := rfl
    have hnumber : (s.freshId index).number = s.nextId index := rfl
    simp only [UndoState.onCreate, hindex, hnumber]
    by_cases heq : i = index
    · subst heq
      cases hrec : u.oldIndexNextIds.find? i with
      | some n => simp [hrec]
      | none => simp
    · rw [if_neg heq]
      split
      · rfl
      · rw [FlatMap.find?_set, if_neg heq]
  · rw [Store.nextId_setNextId]
    split
    case isTrue heq => exact heq ▸ Nat.le_succ _
    case isFalse => exact le_refl _

end Operations

/-! ## Rolling back -/

section Rollback

variable [UniqueKeys α] {u : UndoState α} {start s : Store α} {h : HashOrder}

/-- No other object holds a unique key an old value needs. -/
def UndoState.Accepts (u : UndoState α) (s : Store α) : Prop :=
  ∀ id old, u.oldValues.find? id = some old → s.collides id old = false

/-- No live object holds a unique key that another object, there at the start and still
there, had at the start. -/
def Store.KeysFree (start now : Store α) : Prop :=
  ∀ id old v, start.find? id = some old → now.find? id = some v → now.collides id old = false

/-- The store once the entries of `done` are written over `s`. -/
def Store.Overwritten (s : Store α) (done : List (ObjectId × α)) (t : Store α) : Prop :=
  t.nextId = s.nextId ∧ ∀ id, t.find? id = (FlatMap.findL id done).or (s.find? id)

omit [UniqueKeys α] in
theorem Store.Overwritten.set {s t : Store α} {done : List (ObjectId × α)} {e : ObjectId × α}
    (ht : s.Overwritten done t) (hnew : e.1 ∉ done.map Prod.fst) :
    s.Overwritten (done ++ [e]) { t with objs := t.objs.set e.1 e.2 } := by
  refine ⟨ht.1, fun id => ?_⟩
  rw [Store.find?_set, FlatMap.findL_append, ht.2]
  by_cases hid : id = e.1
  · have hnone : FlatMap.findL id done = none :=
      FlatMap.findL_eq_none.mpr fun x hx heq => hnew (hid ▸ heq ▸ List.mem_map_of_mem hx)
    rw [if_pos hid, hnone]
    simp [FlatMap.findL, hid]
  · rw [if_neg hid]
    simp [FlatMap.findL, Ne.symm hid]

omit [UniqueKeys α] in
/-- An entry of a hash map comes up only once when it is iterated. -/
theorem HashOrder.not_mem_done {β : Type} {m : FlatMap ObjectId β} {done rest : List (ObjectId × β)}
    {e : ObjectId × β} (hl : h.order m.entries = done ++ e :: rest) :
    e.1 ∉ done.map Prod.fst ∧ m.find? e.1 = some e.2 := by
  have hperm := h.perm m.entries
  have hnodup : ((h.order m.entries).map Prod.fst).Nodup :=
    (hperm.map Prod.fst).nodup_iff.mpr m.nodup_keys
  rw [hl] at hnodup hperm
  refine ⟨fun hmem => ?_, FlatMap.mem_entries_iff.mp (hperm.mem_iff.mp (by simp))⟩
  rw [List.map_append, List.map_cons, List.nodup_append] at hnodup
  exact hnodup.2.2 e.1 hmem e.1 List.mem_cons_self rfl

omit [UniqueKeys α] in
/-- What was written so far on an iteration comes from the map. -/
theorem HashOrder.find?_of_done {β : Type} {m : FlatMap ObjectId β} {done rest : List (ObjectId × β)}
    (hl : h.order m.entries = done ++ rest) {id : ObjectId} {v : β}
    (hd : FlatMap.findL id done = some v) : m.find? id = some v := by
  have hmem : (id, v) ∈ h.order m.entries := by
    rw [hl]
    exact List.mem_append_left _ (FlatMap.mem_of_findL hd)
  exact FlatMap.mem_entries_iff.mp ((h.perm m.entries).mem_iff.mp hmem)

/-- Writing back the old values succeeds in every order of the hash map, when the index accepts
them. -/
theorem restore_ok (hd : u.Describes start s) (hstart : start.WF) (hacc : u.Accepts s) :
    ∃ t, (h.order u.oldValues.entries).foldlM (fun s e => s.modify e.1 e.2) s = .ok t ∧
      s.Overwritten (h.order u.oldValues.entries) t := by
  refine exists_foldlM_ok ⟨rfl, fun id => by simp [FlatMap.findL]⟩ fun done e rest t hl ht => ?_
  obtain ⟨hnew, he⟩ := HashOrder.not_mem_done hl
  -- a modified object was there at the start, and is there now
  have hcell : ∀ id old, u.oldValues.find? id = some old →
      start.find? id = some old ∧ ∃ a, s.find? id = some a :=
    fun id old hold => (hd.cells id).of_was hold
  obtain ⟨hwas, a, ha⟩ := hcell e.1 e.2 he
  have hlive : ∃ a, t.find? e.1 = some a := by
    rw [ht.2, ha]
    cases FlatMap.findL e.1 done with
    | none => exact ⟨a, rfl⟩
    | some x => exact ⟨x, rfl⟩
  have hfree : t.collides e.1 e.2 = false := by
    cases hcol : t.collides e.1 e.2 with
    | false => rfl
    | true =>
        obtain ⟨id, v, hv, hne, hindex, hclash⟩ := Store.collides_iff.mp hcol
        rw [ht.2] at hv
        cases hdone : FlatMap.findL id done with
        | none =>
            -- not written yet: the object is as it was before the rollback
            rw [hdone] at hv
            have hnow := Store.collides_iff.mpr ⟨id, v, hv, hne, hindex, hclash⟩
            exact absurd hnow (by simp [hacc e.1 e.2 he])
        | some w =>
            -- written back: both values were there together at the start
            rw [hdone] at hv
            obtain rfl := Option.some.inj hv
            have hw := (hcell id w (HashOrder.find?_of_done hl hdone)).1
            rw [← hindex, hstart.unique hw hwas hne hindex] at hclash
            cases hclash
  exact ⟨_, Store.modify_ok.mpr ⟨hlive, hfree, rfl⟩, ht.set hnew⟩

omit [UniqueKeys α] in
/-- Removing the new objects succeeds in every order of the hash map. -/
theorem removeNew_ok {t : Store α}
    (hlive : ∀ id, (u.newIds.find? id).isSome → ∃ a, t.find? id = some a) :
    ∃ t', (h.order u.newIds.entries).foldlM (fun s e => s.remove e.1) t = .ok t' ∧
      t'.nextId = t.nextId ∧
      ∀ id, t'.find? id = if (u.newIds.find? id).isSome then none else t.find? id := by
  obtain ⟨t', hr, hnext, ht'⟩ := exists_foldlM_ok (l := h.order u.newIds.entries)
    (f := fun (s : Store α) e => s.remove e.1)
    (P := fun done t' => t'.nextId = t.nextId ∧
      ∀ id, t'.find? id = if (FlatMap.findL id done).isSome then none else t.find? id)
    (s := t) ⟨rfl, fun id => by simp [FlatMap.findL]⟩ (fun done e rest t' hl ht' => by
      obtain ⟨hnew, he⟩ := HashOrder.not_mem_done hl
      have hnone : FlatMap.findL e.1 done = none :=
        FlatMap.findL_eq_none.mpr fun x hx heq => hnew (heq ▸ List.mem_map_of_mem hx)
      obtain ⟨a, ha⟩ := hlive e.1 (by simp [he])
      have ha' : t'.find? e.1 = some a := by rw [ht'.2, hnone]; exact ha
      refine ⟨_, Store.remove_ok.mpr ⟨⟨a, ha'⟩, rfl⟩, ht'.1, fun id => ?_⟩
      rw [Store.find?_erase, FlatMap.findL_append, ht'.2]
      by_cases hid : id = e.1
      · simp [FlatMap.findL, hid]
      · rw [if_neg hid]
        simp [FlatMap.findL, Ne.symm hid])
  refine ⟨t', hr, hnext, fun id => ?_⟩
  rw [ht' id, FlatMap.findL_perm (h.perm _)]

omit [UniqueKeys α] in
/-- Resetting the next numbers touches no object, and gives each index the number it had. -/
theorem foldl_setNextId (l : List (Nat × Nat)) (t : Store α) :
    (∀ id, (l.foldl (fun s e => s.setNextId e.1 e.2) t).find? id = t.find? id) ∧
      ((l.map Prod.fst).Nodup → ∀ i, (l.foldl (fun s e => s.setNextId e.1 e.2) t).nextId i =
        (FlatMap.findL i l).getD (t.nextId i)) := by
  induction l generalizing t with
  | nil => exact ⟨fun _ => rfl, fun _ _ => rfl⟩
  | cons e l ih =>
      obtain ⟨hfind, hnext⟩ := ih (t.setNextId e.1 e.2)
      refine ⟨hfind, fun hnodup i => ?_⟩
      obtain ⟨hhead, hrest⟩ := List.nodup_cons.mp hnodup
      rw [List.foldl_cons, hnext hrest, Store.nextId_setNextId]
      by_cases hi : e.1 = i
      · subst hi
        have hnone : FlatMap.findL e.1 l = none :=
          FlatMap.findL_eq_none.mpr fun x hx heq => hhead (heq ▸ List.mem_map_of_mem hx)
        simp [FlatMap.findL, hnone]
      · simp [FlatMap.findL, hi, Ne.symm hi]

/-- Re-inserting what was removed succeeds in every order of the hash map. -/
theorem reinsert_ok (hd : u.Describes start s) (hstart : start.WF) {t : Store α}
    (ht : ∀ id, t.find? id = if (u.removed.find? id).isSome then none else start.find? id) :
    ∃ t', (h.order u.removed.entries).foldlM (fun s e => s.insert e.1 e.2) t = .ok t' ∧
      t.Overwritten (h.order u.removed.entries) t' := by
  have hcell : ∀ id old, u.removed.find? id = some old → start.find? id = some old :=
    fun id old hold => (hd.cells id).of_gone hold
  refine exists_foldlM_ok ⟨rfl, fun id => by simp [FlatMap.findL]⟩ fun done e rest t' hl ht' => ?_
  obtain ⟨hnew, he⟩ := HashOrder.not_mem_done hl
  have hnone : t'.find? e.1 = none := by
    have hdone : FlatMap.findL e.1 done = none :=
      FlatMap.findL_eq_none.mpr fun x hx heq => hnew (heq ▸ List.mem_map_of_mem hx)
    rw [ht'.2, hdone, ht]
    simp [he]
  have hfree : t'.collides e.1 e.2 = false := by
    cases hcol : t'.collides e.1 e.2 with
    | false => rfl
    | true =>
        -- whatever is back already was there at the start, together with this object
        obtain ⟨id, v, hv, hne, hindex, hclash⟩ := Store.collides_iff.mp hcol
        have hthen : start.find? id = some v := by
          rw [ht'.2] at hv
          cases hdone : FlatMap.findL id done with
          | some w =>
              rw [hdone] at hv
              obtain rfl := Option.some.inj hv
              exact hcell id w (HashOrder.find?_of_done hl hdone)
          | none =>
              rw [hdone, Option.none_or, ht] at hv
              split at hv
              · cases hv
              · exact hv
        rw [← hindex, hstart.unique hthen (hcell e.1 e.2 he) hne hindex] at hclash
        cases hclash
  exact ⟨_, Store.insert_ok.mpr ⟨hnone, hfree, rfl⟩, ht'.set hnew⟩

/-- Once the old values are written back, a rollback ends where the session started. -/
theorem rollback_of_restored (hd : u.Describes start s) (hstart : start.WF) {t1 : Store α}
    (h1 : (h.order u.oldValues.entries).foldlM (fun s e => s.modify e.1 e.2) s = .ok t1) :
    u.rollback h s = .ok start := by
  obtain ⟨hnext1, ht1⟩ : s.Overwritten (h.order u.oldValues.entries) t1 := by
    refine foldlM_ok_induction h1 ⟨rfl, fun id => by simp [FlatMap.findL]⟩ ?_
    intro done e rest t t' hl ht hm
    obtain ⟨-, -, rfl⟩ := Store.modify_ok.mp hm
    exact ht.set (HashOrder.not_mem_done hl).1
  have hfind1 : ∀ id, t1.find? id = (u.oldValues.find? id).or (s.find? id) := fun id => by
    rw [ht1, FlatMap.findL_perm (h.perm _)]
  obtain ⟨t2, h2, hnext2, ht2⟩ := removeNew_ok (u := u) (h := h) (t := t1) (fun id hnew => by
    obtain ⟨hwas, v, hv⟩ := (hd.cells id).of_new hnew
    have hwas : u.oldValues.find? id = none := hwas
    rw [hfind1, hwas, hv]
    exact ⟨v, rfl⟩)
  obtain ⟨hfind3, hnext3⟩ := foldl_setNextId (h.order u.oldIndexNextIds.entries) t2
  have hnodup : ((h.order u.oldIndexNextIds.entries).map Prod.fst).Nodup :=
    ((h.perm _).map Prod.fst).nodup_iff.mpr u.oldIndexNextIds.nodup_keys
  -- without the removed objects, everything is back
  have hback : ∀ id, ((h.order u.oldIndexNextIds.entries).foldl
      (fun s e => s.setNextId e.1 e.2) t2).find? id =
        if (u.removed.find? id).isSome then none else start.find? id := by
    intro id
    rw [hfind3, ht2, hfind1]
    have hc := hd.cells id
    rw [UndoState.cell] at hc
    generalize u.oldValues.find? id = o at hc ⊢
    generalize (u.newIds.find? id).isSome = n at hc ⊢
    generalize u.removed.find? id = r at hc ⊢
    generalize start.find? id = x at hc ⊢
    generalize s.find? id = y at hc ⊢
    cases hc <;> simp
  obtain ⟨t4, h4, hnext4, ht4⟩ := reinsert_ok (h := h) hd hstart hback
  have hend : t4 = start := by
    refine Store.ext_find? (fun id => ?_) (fun i => ?_)
    · rw [ht4, FlatMap.findL_perm (h.perm _), hback]
      have hc := hd.cells id
      rw [UndoState.cell] at hc
      generalize u.oldValues.find? id = o at hc
      generalize (u.newIds.find? id).isSome = n at hc
      generalize u.removed.find? id = r at hc ⊢
      generalize start.find? id = x at hc ⊢
      generalize s.find? id = y at hc
      cases hc <;> simp
    · rw [hnext4, hnext3 hnodup, FlatMap.findL_perm (h.perm _), hnext2, hnext1, hd.next]
  rw [UndoState.rollback, except_bind_ok]
  refine ⟨t1, h1, ?_⟩
  rw [except_bind_ok]
  exact ⟨t2, h2, hend ▸ h4⟩

/-- A rollback ends where the session started, if the index accepts the old values. -/
theorem rollback_eq_start (hd : u.Describes start s) (hstart : start.WF) (hacc : u.Accepts s) :
    u.rollback h s = .ok start := by
  obtain ⟨t, ht, -⟩ := restore_ok (h := h) hd hstart hacc
  exact rollback_of_restored hd hstart ht

/-- A rollback that goes through ends where the session started. -/
theorem eq_start_of_rollback (hd : u.Describes start s) (hstart : start.WF) {t : Store α}
    (hr : u.rollback h s = .ok t) : t = start := by
  have hr' := hr
  rw [UndoState.rollback, except_bind_ok] at hr'
  obtain ⟨t1, h1, -⟩ := hr'
  exact Except.ok.inj (hr.symm.trans (rollback_of_restored hd hstart h1))

/-- A rollback goes through in every order exactly when no other object holds a key an
old value needs. -/
theorem rollback_all_orders_iff (hd : u.Describes start s) (hstart : start.WF) :
    (∀ h, u.rollback h s = .ok start) ↔ u.Accepts s := by
  refine ⟨fun hall id old hold => ?_, fun hacc h => rollback_eq_start hd hstart hacc⟩
  cases hcol : s.collides id old with
  | false => rfl
  | true =>
      -- start with this very value: nothing has moved out of its way yet
      obtain ⟨k, hk, hget⟩ := List.mem_iff_getElem.mp (FlatMap.mem_entries_iff.mpr hold)
      have hrun := hall (.startAt k)
      rw [UndoState.rollback, except_bind_ok] at hrun
      obtain ⟨t, ht, -⟩ := hrun
      have hfirst : (HashOrder.startAt k).order u.oldValues.entries =
          (id, old) :: (u.oldValues.entries.drop (k + 1) ++ u.oldValues.entries.take k) := by
        show u.oldValues.entries.rotate k = _
        rw [List.rotate_eq_drop_append_take (le_of_lt hk), List.drop_eq_getElem_cons hk, hget]
        rfl
      rw [hfirst, List.foldlM_cons, except_bind_ok] at ht
      obtain ⟨t', ht', -⟩ := ht
      obtain ⟨-, hfree, -⟩ := Store.modify_ok.mp ht'
      rw [hcol] at hfree
      cases hfree

/-- In terms of the two stores: an object that was not modified keeps its keys to itself. -/
theorem accepts_iff_keysFree (hd : u.Describes start s) (hs : s.WF) :
    u.Accepts s ↔ start.KeysFree s := by
  constructor
  · intro hacc id old now hold hnow
    have hcell := hd.cells id
    rw [hold, hnow] at hcell
    cases hwas : u.oldValues.find? id with
    | some w =>
        have hw := (hd.cells id).of_was hwas
        rw [hold] at hw
        exact Option.some.inj hw.1 ▸ hacc id w hwas
    | none =>
        have heq : old = now := by
          generalize hc : u.cell id = c at hcell
          cases hcell with
          | upd old v =>
              have hsome : u.oldValues.find? id = some old := congrArg Cell.was hc
              rw [hwas] at hsome
              cases hsome
          | nop => rfl
        subst heq
        cases hcol : s.collides id old with
        | false => rfl
        | true =>
            obtain ⟨k, v, hv, hne, hindex, hclash⟩ := Store.collides_iff.mp hcol
            rw [← hindex, hs.unique hv hnow hne hindex] at hclash
            cases hclash
  · intro hfree id old hold
    obtain ⟨hthen, now, hnow⟩ := (hd.cells id).of_was hold
    exact hfree id old now hthen hnow

end Rollback

/-! ## A session -/

section Session

variable [UniqueKeys α] {d d' : UndoDatabase α} {u : UndoState α} {rest : List (UndoState α)}
  {start : Store α}

/-- A change keeps the innermost record true, whatever is below it. -/
theorem change_describes {c : UndoDatabase.Change α} (henabled : d.disabled = false)
    (hu : (d.stack.headD {}).Describes start d.store) (hstart : start.WF) (hwf : d.store.WF)
    (hc : d.change c = .ok d') :
    ∃ u', d'.stack = u' :: d.stack.tail ∧ u'.Describes start d'.store ∧ d'.store.WF ∧
      d'.disabled = false ∧ d'.activeSessions = d.activeSessions ∧ d'.maxSize = d.maxSize := by
  cases c with
  | create index v =>
      obtain ⟨store, hs, hd'⟩ := except_bind_ok.mp hc
      obtain rfl := except_pure_ok.mp hd'
      simp only [UndoDatabase.record, henabled]
      exact ⟨_, rfl, hu.create hstart hs, hwf.create hs, rfl, rfl, rfl⟩
  | modify id v =>
      obtain ⟨store, hs, hd'⟩ := except_bind_ok.mp hc
      obtain rfl := except_pure_ok.mp hd'
      obtain ⟨⟨a, ha⟩, -, -⟩ := Store.modify_ok.mp hs
      simp only [UndoDatabase.record, henabled, ha]
      exact ⟨_, rfl, hu.modify ha hs, hwf.modify hs, rfl, rfl, rfl⟩
  | remove id =>
      obtain ⟨store, hs, hd'⟩ := except_bind_ok.mp hc
      obtain rfl := except_pure_ok.mp hd'
      obtain ⟨⟨a, ha⟩, -⟩ := Store.remove_ok.mp hs
      simp only [UndoDatabase.record, henabled, ha]
      exact ⟨_, rfl, hu.remove ha hs, hwf.remove hs, rfl, rfl, rfl⟩

/-- The changes of a session keep its record true: it describes the way from the start to now. -/
theorem changes_describe {cs : List (UndoDatabase.Change α)} (henabled : d.disabled = false)
    (hstack : d.stack = u :: rest) (hu : u.Describes start d.store) (hstart : start.WF)
    (hwf : d.store.WF) (hrun : cs.foldlM UndoDatabase.change d = .ok d') :
    ∃ u', d'.stack = u' :: rest ∧ u'.Describes start d'.store ∧ d'.store.WF ∧
      d'.disabled = false ∧ d'.activeSessions = d.activeSessions := by
  induction cs generalizing d u with
  | nil =>
      obtain rfl := except_pure_ok.mp hrun
      exact ⟨u, hstack, hu, hwf, henabled, rfl⟩
  | cons c cs ih =>
      rw [List.foldlM_cons, except_bind_ok] at hrun
      obtain ⟨d1, hc, hrun⟩ := hrun
      have hhead : (d.stack.headD {}).Describes start d.store := by rw [hstack]; exact hu
      obtain ⟨u1, hstack1, hu1, hwf1, hen1, hact1, -⟩ :=
        change_describes henabled hhead hstart hwf hc
      rw [hstack] at hstack1
      obtain ⟨u', hs', hu', hwf', hen', hact'⟩ := ih hen1 hstack1 hu1 hwf1 hrun
      exact ⟨u', hs', hu', hwf', hen', hact'.trans hact1⟩

/-- A session leaves a record of its changes on the stack. -/
theorem session_describes {cs : List (UndoDatabase.Change α)} (hwf : d.store.WF)
    (henabled : d.disabled = false)
    (hrun : cs.foldlM UndoDatabase.change d.startUndoSession = .ok d') :
    ∃ u, d'.stack = u :: d.stack.take d.maxSize ∧ u.Describes d.store d'.store ∧ d'.store.WF ∧
      d'.disabled = false ∧ d'.activeSessions = d.activeSessions + 1 := by
  have hopened : d.startUndoSession = { d with
      disabled := false
      stack := {} :: d.stack.take d.maxSize
      activeSessions := d.activeSessions + 1 } := by
    simp [UndoDatabase.startUndoSession, henabled]
  rw [hopened] at hrun
  exact changes_describe (d := { d with
      disabled := false
      stack := {} :: d.stack.take d.maxSize
      activeSessions := d.activeSessions + 1 }) rfl rfl (describes_empty _) hwf hwf hrun

/-- Undoing an open session restores its start just when the rollback of its record does. -/
theorem undo_ok_iff {h : HashOrder} (henabled : d.disabled = false) (hstack : d.stack = u :: rest)
    (hactive : 0 < d.activeSessions) :
    (∃ d', d.undo h = .ok d' ∧ d'.store = start) ↔ u.rollback h d.store = .ok start := by
  have hassert : ∀ msg, fcAssert (!d.disabled) msg = .ok () := fun msg => by simp [henabled]
  have hassert' : ∀ msg, fcAssert (decide (0 < d.activeSessions)) msg = .ok () := fun msg => by
    simp [hactive]
  simp only [UndoDatabase.undo, except_bind_ok, hassert, hassert', UndoDatabase.rollbackState,
    hstack, except_pure_ok]
  constructor
  · rintro ⟨_, ⟨_, -, _, -, _, ⟨store, hr, rfl⟩, rfl⟩, rfl⟩
    exact hr
  · intro hr
    exact ⟨_, ⟨(), trivial, (), trivial, _, ⟨start, hr, rfl⟩, rfl⟩, rfl⟩

/-- Rolling back takes one record off the stack, and leaves undo enabled. -/
theorem undo_stack {h : HashOrder} (hstack : d.stack = u :: rest)
    (hd : d.undo h = .ok d') :
    d'.stack = rest ∧ d'.disabled = false ∧ d'.activeSessions = d.activeSessions - 1 := by
  simp only [UndoDatabase.undo, except_bind_ok, fcAssert_ok, UndoDatabase.rollbackState, hstack,
    except_pure_ok] at hd
  obtain ⟨_, hen, _, -, _, ⟨store, -, rfl⟩, rfl⟩ := hd
  exact ⟨rfl, by simpa using hen, rfl⟩

/-- Undoing a session goes through, in every order of the hash maps, exactly when no live
object holds a unique key that another object, there at the start and still there, had at
the start. -/
theorem session_undo_succeeds_iff {cs : List (UndoDatabase.Change α)} (hwf : d.store.WF)
    (henabled : d.disabled = false)
    (hrun : cs.foldlM UndoDatabase.change d.startUndoSession = .ok d') :
    (∀ h, ∃ d'', d'.undo h = .ok d'' ∧ d''.store = d.store) ↔ d.store.KeysFree d'.store := by
  obtain ⟨u, hstack, hu, hwf', hen, hact⟩ := session_describes hwf henabled hrun
  have hsame : (∀ h, ∃ d'', d'.undo h = .ok d'' ∧ d''.store = d.store) ↔
      ∀ h, u.rollback h d'.store = .ok d.store :=
    forall_congr' fun h => undo_ok_iff hen hstack (hact ▸ Nat.succ_pos _)
  rw [hsame, rollback_all_orders_iff hu hwf, accepts_iff_keysFree hu hwf']

end Session

section Samples

open UndoDatabase

namespace Sample

/-- Numbers as objects, each of them its own unique key. -/
scoped instance numberKeys : UniqueKeys Nat := ⟨Nat, inferInstance, fun _ => [id]⟩

/-- A store of two objects, with the values 10 and 20. -/
def twoNumbers : Store Nat where
  objs := .ofList [(⟨0, 0⟩, 10), (⟨0, 1⟩, 20)]
  nextId := fun _ => 2

end Sample

open Sample

theorem twoNumbers_wf : twoNumbers.WF := by
  have hall : ∀ {id v}, twoNumbers.find? id = some v →
      id = ⟨0, 0⟩ ∧ v = 10 ∨ id = ⟨0, 1⟩ ∧ v = 20 := by
    intro id v h
    have hmem := FlatMap.mem_entries_iff.mpr h
    have hlist : twoNumbers.objs.entries = [(⟨0, 0⟩, 10), (⟨0, 1⟩, 20)] := by decide
    rw [hlist] at hmem
    simpa using hmem
  refine ⟨fun h => ?_, fun h h' hne _ => ?_⟩
  · rcases hall h with ⟨rfl, -⟩ | ⟨rfl, -⟩ <;> decide
  · rcases hall h with ⟨rfl, rfl⟩ | ⟨rfl, rfl⟩ <;> rcases hall h' with ⟨rfl, rfl⟩ | ⟨rfl, rfl⟩ <;>
      first | exact absurd rfl hne | decide

/-- One object gives up its key, another takes it: the rollback that starts with the first
finds the key taken. -/
theorem moved_key_blocks_undo :
    ∃ d', [Change.modify ⟨0, 0⟩ 30, .modify ⟨0, 1⟩ 10].foldlM change
        (startUndoSession { store := twoNumbers }) = .ok d' ∧
      d'.undo .forward = .error
        (.assert "Could not modify object, most likely an index constraint was violated") := by
  exact ⟨_, rfl, rfl⟩

/-- With a key nobody else had, the undo goes through in every order. -/
theorem fresh_key_allows_undo :
    ∃ d', [Change.modify ⟨0, 0⟩ 30, .remove ⟨0, 1⟩].foldlM change
        (startUndoSession { store := twoNumbers }) = .ok d' ∧
      ∀ h, ∃ d'', d'.undo h = .ok d'' ∧ d''.store = twoNumbers := by
  obtain ⟨d', hrun, hobjs⟩ : ∃ d', [Change.modify ⟨0, 0⟩ 30, .remove ⟨0, 1⟩].foldlM change
      (startUndoSession { store := twoNumbers }) = .ok d' ∧
        d'.store.objs.entries = [(⟨0, 0⟩, 30)] := ⟨_, rfl, rfl⟩
  have hwf : Store.WF (UndoDatabase.store { store := twoNumbers }) := twoNumbers_wf
  refine ⟨d', hrun, (session_undo_succeeds_iff hwf rfl hrun).mpr fun id old now _ hnow => ?_⟩
  have hone : ∀ {k v}, d'.store.find? k = some v → k = ⟨0, 0⟩ := by
    intro k v h
    have hmem := FlatMap.mem_entries_iff.mpr h
    rw [hobjs] at hmem
    exact congrArg Prod.fst (List.mem_singleton.mp hmem)
  cases hcol : d'.store.collides id old with
  | false => rfl
  | true =>
      obtain ⟨k, v, hv, hne, -, -⟩ := Store.collides_iff.mp hcol
      exact absurd ((hone hv).trans (hone hnow).symm) hne

end Samples

end BtcmChain
