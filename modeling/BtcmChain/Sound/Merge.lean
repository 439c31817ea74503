import BtcmChain.Sound.Undo

set_option autoImplicit false

/-!
# Merging two sessions

`merge` folds the record of the inner session into the record of the outer one, in four
passes. Each step of a pass looks at one id and changes one id, so what becomes of an id
depends on the two cells there alone (`cell_merge`): it is the 4×4 table in the comment
of the source. The merged record describes the way through both sessions
(`UndoState.Describes.merge`), and undoing it leads to the same store as undoing the two
one after the other.
-/

namespace BtcmChain

variable {α : Type}

/-! ## Passes -/

/-- A pass over a hash map whose steps touch one id each. -/
theorem foldl_cell {β : Type} (step : UndoState α → ObjectId × β → UndoState α)
    {g : Cell α → β → Cell α}
    (hstep : ∀ a e k, (step a e).cell k = if k = e.1 then g (a.cell k) e.2 else a.cell k)
    (h : HashOrder) (m : FlatMap ObjectId β) (a : UndoState α) (k : ObjectId) :
    ((h.order m.entries).foldl step a).cell k = (m.find? k).elim (a.cell k) (g (a.cell k)) := by
  have hnodup : ((h.order m.entries).map Prod.fst).Nodup :=
    ((h.perm _).map Prod.fst).nodup_iff.mpr m.nodup_keys
  rw [← FlatMap.findL_perm (h.perm m.entries) k]
  generalize h.order m.entries = l at hnodup
  induction l generalizing a with
  | nil => rfl
  | cons e l ih =>
      obtain ⟨hhead, hrest⟩ := List.nodup_cons.mp hnodup
      rw [List.foldl_cons, ih (step a e) hrest, hstep]
      by_cases hk : k = e.1
      · subst hk
        have hnone : FlatMap.findL e.1 l = none :=
          FlatMap.findL_eq_none.mpr fun x hx heq => hhead (heq ▸ List.mem_map_of_mem hx)
        simp [FlatMap.findL, hnone]
      · simp [FlatMap.findL, hk, Ne.symm hk]

/-- What every step of a pass leaves alone, the pass leaves alone. -/
theorem foldl_eq {β γ : Type} {step : UndoState α → β → UndoState α} {f : UndoState α → γ}
    (hstep : ∀ a e, f (step a e) = f a) (l : List β) (a : UndoState α) :
    f (l.foldl step a) = f a := by
  induction l generalizing a with
  | nil => rfl
  | cons e l ih => rw [List.foldl_cons, ih, hstep]

/-- The pass of `merge` over removed objects, as it looks at one id. -/
def Cell.mergeRemoved (c : Cell α) (v : α) : Cell α :=
  if c.isNew then { c with isNew := false }
  else
    match c.was with
    | some old => { c with was := none, gone := some old }
    | none => { c with gone := some v }

theorem cell_mergeRemoved (a : UndoState α) (e : ObjectId × α) (k : ObjectId) :
    (a.mergeRemoved e).cell k = if k = e.1 then (a.cell k).mergeRemoved e.2 else a.cell k := by
  by_cases hk : k = e.1
  · subst hk
    cases hnew : a.newIds.find? e.1 <;> cases hold : a.oldValues.find? e.1 <;>
      simp [UndoState.mergeRemoved, UndoState.cell, Cell.mergeRemoved, hnew, hold,
        FlatMap.find?_erase]
  · cases hnew : a.newIds.find? e.1 <;> cases hold : a.oldValues.find? e.1 <;>
      simp [UndoState.mergeRemoved, UndoState.cell, hnew, hold, FlatMap.find?_set,
        FlatMap.find?_erase, hk]

theorem cell_mergeNew (a : UndoState α) (e : ObjectId × Unit) (k : ObjectId) :
    (a.mergeNew e).cell k = if k = e.1 then (a.cell k).onCreate else a.cell k := by
  by_cases hk : k = e.1
  · subst hk
    simp [UndoState.cell, UndoState.mergeNew, Cell.onCreate]
  · simp [UndoState.cell, UndoState.mergeNew, FlatMap.find?_set, hk]

theorem cell_mergeNextId (a : UndoState α) (e : Nat × Nat) (k : ObjectId) :
    (a.mergeNextId e).cell k = a.cell k := by
  unfold UndoState.mergeNextId
  split <;> rfl

/-! ## The table -/

/-- What becomes of an id with a cell in each of the two records. -/
def Cell.merge (a b : Cell α) : Cell α :=
  let upd := b.was.elim a a.onModify
  let new := if b.isNew then upd.onCreate else upd
  b.gone.elim new new.mergeRemoved

theorem cell_merge (h : HashOrder) (a b : UndoState α) (k : ObjectId) :
    (a.merge h b).cell k = (a.cell k).merge (b.cell k) := by
  have hupd := foldl_cell UndoState.mergeOld (g := Cell.onModify)
    (fun a e k => cell_onModify a e.1 k e.2) h b.oldValues a k
  have hnew := foldl_cell UndoState.mergeNew (g := fun c _ => c.onCreate) cell_mergeNew h
    b.newIds ((h.order b.oldValues.entries).foldl UndoState.mergeOld a) k
  have hnext := foldl_eq (f := fun u => u.cell k) (fun a e => cell_mergeNextId a e k)
    (h.order b.oldIndexNextIds.entries) ((h.order b.newIds.entries).foldl UndoState.mergeNew
      ((h.order b.oldValues.entries).foldl UndoState.mergeOld a))
  have hdel := foldl_cell UndoState.mergeRemoved cell_mergeRemoved h b.removed
    ((h.order b.oldIndexNextIds.entries).foldl UndoState.mergeNextId
      ((h.order b.newIds.entries).foldl UndoState.mergeNew
        ((h.order b.oldValues.entries).foldl UndoState.mergeOld a))) k
  rw [UndoState.merge, hdel, hnext, hnew, hupd]
  have hb : b.cell k = ⟨b.oldValues.find? k, (b.newIds.find? k).isSome, b.removed.find? k⟩ := rfl
  rw [hb, Cell.merge]
  cases b.newIds.find? k <;> rfl

/-- The next ids of the outer record count, where it has any. -/
theorem nextIds_merge (h : HashOrder) (a b : UndoState α) (i : Nat) :
    (a.merge h b).oldIndexNextIds.find? i =
      (a.oldIndexNextIds.find? i).or (b.oldIndexNextIds.find? i) := by
  have hdel : ∀ (a : UndoState α) e, (a.mergeRemoved e).oldIndexNextIds = a.oldIndexNextIds := by
    intro a e
    unfold UndoState.mergeRemoved
    split
    · rfl
    · split <;> rfl
  have hold : ∀ (a : UndoState α) e, (a.mergeOld e).oldIndexNextIds = a.oldIndexNextIds :=
    fun a e => onModify_nextIds a e.1 e.2
  have hnew : ∀ (a : UndoState α) e, (a.mergeNew e).oldIndexNextIds = a.oldIndexNextIds :=
    fun _ _ => rfl
  rw [UndoState.merge, foldl_eq (f := UndoState.oldIndexNextIds) hdel]
  have hstart : ((h.order b.newIds.entries).foldl UndoState.mergeNew
      ((h.order b.oldValues.entries).foldl UndoState.mergeOld a)).oldIndexNextIds =
        a.oldIndexNextIds := by
    rw [foldl_eq (f := UndoState.oldIndexNextIds) hnew,
      foldl_eq (f := UndoState.oldIndexNextIds) hold]
  rw [← hstart, ← FlatMap.findL_perm (h.perm b.oldIndexNextIds.entries) i]
  generalize (h.order b.newIds.entries).foldl UndoState.mergeNew
    ((h.order b.oldValues.entries).foldl UndoState.mergeOld a) = u
  -- an index the outer record knows keeps its number, another takes the first one given
  generalize h.order b.oldIndexNextIds.entries = l
  induction l generalizing u with
  | nil => simp [FlatMap.findL]
  | cons e l ih =>
      rw [List.foldl_cons, ih]
      cases he : u.oldIndexNextIds.find? e.1 with
      | some n =>
          have hsame : u.mergeNextId e = u := by simp [UndoState.mergeNextId, he]
          rw [hsame]
          by_cases hi : e.1 = i
          · subst hi
            simp [he]
          · simp [FlatMap.findL, hi]
      | none =>
          have hset : (u.mergeNextId e).oldIndexNextIds = u.oldIndexNextIds.set e.1 e.2 := by
            simp [UndoState.mergeNextId, he]
          rw [hset, FlatMap.find?_set]
          by_cases hi : e.1 = i
          · subst hi
            simp [FlatMap.findL, he]
          · simp [FlatMap.findL, hi, Ne.symm hi]

/-- The cells the table marks as not applicable: the outer session knows an id that the
inner one creates, or the inner session changes an id that the outer one removed. -/
def Cell.NotApplicable (a b : Cell α) : Prop :=
  b.isNew = true ∧ (a.isNew = true ∨ a.was.isSome = true ∨ a.gone.isSome = true) ∨
    a.gone.isSome = true ∧ (b.was.isSome = true ∨ b.gone.isSome = true)

/-- An id is new, modified or removed, and no two of these. -/
def Cell.Disjoint (c : Cell α) : Prop :=
  ¬ (c.isNew = true ∧ c.was.isSome = true) ∧ ¬ (c.isNew = true ∧ c.gone.isSome = true) ∧
    ¬ (c.was.isSome = true ∧ c.gone.isSome = true)

theorem CellOk.disjoint {c : Cell α} {x y : Option α} (h : CellOk c x y) : c.Disjoint := by
  cases h <;> simp [Cell.Disjoint]

/-- The table of `merge` composes the two ways of an id: what describes the one and the other
describes both in a row. -/
theorem CellOk.merge {a b : Cell α} {x y z : Option α} (ha : CellOk a x y) (hb : CellOk b y z)
    (hfresh : b.isNew = true → x = none) : CellOk (a.merge b) x z := by
  cases ha with
  | new v =>
      cases hb with
      | upd _ w => exact .new w
      | del => exact .nop none
      | nop => exact .new v
  | upd old v =>
      cases hb with
      | upd _ w => exact .upd old w
      | del => exact .del old
      | nop => exact .upd old v
  | del old =>
      cases hb with
      | new => cases hfresh rfl
      | nop => exact .del old
  | nop =>
      cases hb with
      | new v => exact .new v
      | upd old v => exact .upd old v
      | del old => exact .del old
      | nop => exact .nop _

/-- What is new after the merge and not in the inner record is new in the outer one. -/
theorem CellOk.isNew_of_merge {a b : Cell α} {x y z : Option α} (ha : CellOk a x y)
    (hb : CellOk b y z) (hold : b.isNew = false) (hnew : (a.merge b).isNew = true) :
    a.isNew = true := by
  cases ha <;> cases hb <;> first | rfl | (cases hold; done) | cases hnew

theorem CellOk.applicable {a b : Cell α} {x y z : Option α} (ha : CellOk a x y) (hb : CellOk b y z)
    (hfresh : b.isNew = true → x = none) : ¬ Cell.NotApplicable a b := by
  intro hna
  cases ha <;> cases hb <;> simp [Cell.NotApplicable] at hna hfresh

section Descriptions

variable [UniqueKeys α] {a b : UndoState α} {s0 s1 s2 : Store α}

/-- An id the inner session created was not there when the outer one started. -/
theorem find?_eq_none_of_isNew (ha : a.Describes s0 s1) (hb : b.Describes s1 s2) (h0 : s0.WF)
    {id : ObjectId} (hnew : (b.cell id).isNew = true) : s0.find? id = none := by
  cases hx : s0.find? id with
  | none => rfl
  | some x =>
      have hlt := h0.bound hx
      have hle := le_trans (ha.grows id.index) (hb.fresh id hnew)
      exact absurd hlt (not_lt.mpr hle)

/-- The merged record describes the way through both sessions, as far as an id that is new in the
second was not there before. -/
theorem UndoState.Describes.merge (ha : a.Describes s0 s1) (hb : b.Describes s1 s2) (h0 : s0.WF)
    (h : HashOrder) : (a.merge h b).Describes s0 s2 where
  cells id := by
    rw [cell_merge]
    exact (ha.cells id).merge (hb.cells id) (find?_eq_none_of_isNew ha hb h0)
  next i := by
    rw [nextIds_merge, ha.next i, hb.next i]
    cases a.oldIndexNextIds.find? i <;> rfl
  grows i := le_trans (ha.grows i) (hb.grows i)
  fresh id hnew := by
    rw [cell_merge] at hnew
    cases hb' : (b.cell id).isNew with
    | true => exact le_trans (ha.grows id.index) (hb.fresh id hb')
    | false => exact ha.fresh id ((ha.cells id).isNew_of_merge (hb.cells id) hb' hnew)

end Descriptions

/-! ## Undoing after a merge -/

section Sessions

open UndoDatabase

variable [UniqueKeys α] {d d1 d2 : UndoDatabase α} {csA csB : List (Change α)}
  {a b : UndoState α} {rest : List (UndoState α)}

/-- Two sessions, one inside the other, with both their records on the stack. -/
structure Adjacent (d d1 d2 : UndoDatabase α) (a b : UndoState α) (rest : List (UndoState α)) :
    Prop where
  stack : d2.stack = b :: a :: rest
  outer : a.Describes d.store d1.store
  inner : b.Describes d1.store d2.store
  wf : d.store.WF
  wf1 : d1.store.WF
  wf2 : d2.store.WF
  enabled : d2.disabled = false
  active : 1 < d2.activeSessions

theorem adjacent_of_runs (hwf : d.store.WF) (henabled : d.disabled = false)
    (hA : csA.foldlM change d.startUndoSession = .ok d1)
    (hB : csB.foldlM change d1.startUndoSession = .ok d2) (hstack : d2.stack = b :: a :: rest) :
    Adjacent d d1 d2 a b rest := by
  obtain ⟨a', hstackA, hdA, hwf1, hen1, hact1⟩ := session_describes hwf henabled hA
  obtain ⟨b', hstackB, hdB, hwf2, hen2, hact2⟩ := session_describes hwf1 hen1 hB
  -- the outer record is still there, so it is the one of the outer session
  rw [hstackA, hstack] at hstackB
  obtain ⟨rfl, htail⟩ := List.cons.inj hstackB
  have ha : a = a' := by
    cases hmax : d1.maxSize with
    | zero => rw [hmax] at htail; cases htail
    | succ n =>
        rw [hmax, List.take_succ_cons] at htail
        exact (List.cons.inj htail).1
  exact ⟨hstack, ha ▸ hdA, hdB, hwf, hwf1, hwf2, hen2, by omega⟩

/-- Merging the two sessions leaves one record for both of them, and the objects as they are. -/
theorem Adjacent.merge_ok (hadj : Adjacent d d1 d2 a b rest) (h : HashOrder) :
    ∃ d3, d2.merge h = .ok d3 ∧ d3.stack = a.merge h b :: rest ∧ d3.store = d2.store ∧
      d3.disabled = false ∧ 0 < d3.activeSessions := by
  have hactive := hadj.active
  refine ⟨{ d2 with stack := a.merge h b :: rest, activeSessions := d2.activeSessions - 1 }, ?_,
    rfl, rfl, hadj.enabled, ?_⟩
  · have hassert : ∀ msg, fcAssert (decide (0 < d2.activeSessions)) msg = .ok () := fun msg => by
      rw [fcAssert_ok, decide_eq_true_eq]
      omega
    rw [UndoDatabase.merge, hassert, hadj.stack]
    rfl
  · show 0 < d2.activeSessions - 1
    omega

/-- Merged or one after the other, undoing two sessions leads back to where the outer one
started, in every order of the hash maps, exactly when no key was taken: not over both
sessions, and not in either of them. The merged record is always a proper one, and the
cells without a meaning do not occur. -/
theorem merge_undo_iff (hwf : d.store.WF) (henabled : d.disabled = false)
    (hA : csA.foldlM change d.startUndoSession = .ok d1)
    (hB : csB.foldlM change d1.startUndoSession = .ok d2) (hstack : d2.stack = b :: a :: rest) :
    ((∀ h h', ∃ d3 d4, d2.merge h = .ok d3 ∧ d3.undo h' = .ok d4 ∧ d4.store = d.store) ∧
        (∀ h h', ∃ d3 d4, d2.undo h = .ok d3 ∧ d3.store = d1.store ∧ d3.undo h' = .ok d4 ∧
          d4.store = d.store) ∧
        (∀ h id, ((a.merge h b).cell id).Disjoint) ∧
        ∀ id, ¬ Cell.NotApplicable (a.cell id) (b.cell id)) ↔
      d.store.KeysFree d2.store ∧ d1.store.KeysFree d2.store ∧ d.store.KeysFree d1.store := by
  have hadj := adjacent_of_runs hwf henabled hA hB hstack
  have hmerged : ∀ h, (a.merge h b).Describes d.store d2.store := fun h =>
    hadj.outer.merge hadj.inner hwf h
  -- each of the three rollbacks succeeds in every order just if the two stores share no keys
  have hundoB : ∀ h, (∃ d3, d2.undo h = .ok d3 ∧ d3.store = d1.store) ↔
      b.rollback h d2.store = .ok d1.store := fun h =>
    undo_ok_iff hadj.enabled hadj.stack (by have := hadj.active; omega)
  have hundoA : ∀ h h' d3, d2.undo h = .ok d3 → d3.store = d1.store →
      ((∃ d4, d3.undo h' = .ok d4 ∧ d4.store = d.store) ↔
        a.rollback h' d1.store = .ok d.store) := by
    intro h h' d3 hd3 hstore
    obtain ⟨hstack3, hen3, hact3⟩ := undo_stack hadj.stack hd3
    rw [← hstore]
    exact undo_ok_iff hen3 hstack3 (by have := hadj.active; omega)
  constructor
  · rintro ⟨hm, hseq, -, -⟩
    refine ⟨?_, ?_, ?_⟩
    · rw [← accepts_iff_keysFree (hmerged .forward) hadj.wf2,
        ← rollback_all_orders_iff (hmerged .forward) hwf]
      intro h'
      obtain ⟨d3, d4, hd3, hd4, hstore⟩ := hm .forward h'
      obtain ⟨d3', hd3', hstack3, hstore3, hen3, hact3⟩ := hadj.merge_ok .forward
      obtain rfl := Except.ok.inj (hd3.symm.trans hd3')
      rw [← hstore3]
      exact (undo_ok_iff hen3 hstack3 hact3).mp ⟨d4, hd4, hstore⟩
    · rw [← accepts_iff_keysFree hadj.inner hadj.wf2, ← rollback_all_orders_iff hadj.inner hadj.wf1]
      intro h
      obtain ⟨d3, d4, hd3, hstore3, -, -⟩ := hseq h .forward
      exact (hundoB h).mp ⟨d3, hd3, hstore3⟩
    · rw [← accepts_iff_keysFree hadj.outer hadj.wf1, ← rollback_all_orders_iff hadj.outer hwf]
      intro h'
      obtain ⟨d3, d4, hd3, hstore3, hd4, hstore4⟩ := hseq .forward h'
      exact (hundoA .forward h' d3 hd3 hstore3).mp ⟨d4, hd4, hstore4⟩
  · -- disjoint sets and applicable cells hold of any two sessions that were run
    rintro ⟨hboth, hinner, houter⟩
    refine ⟨fun h h' => ?_, fun h h' => ?_, fun h id => ((hmerged h).cells id).disjoint, fun id =>
      (hadj.outer.cells id).applicable (hadj.inner.cells id)
        (find?_eq_none_of_isNew hadj.outer hadj.inner hwf)⟩
    · obtain ⟨d3, hd3, hstack3, hstore3, hen3, hact3⟩ := hadj.merge_ok h
      have hroll := rollback_eq_start (h := h') (hmerged h) hwf
        ((accepts_iff_keysFree (hmerged h) hadj.wf2).mpr hboth)
      rw [← hstore3] at hroll
      obtain ⟨d4, hd4, hstore4⟩ := (undo_ok_iff hen3 hstack3 hact3).mpr hroll
      exact ⟨d3, d4, hd3, hd4, hstore4⟩
    · obtain ⟨d3, hd3, hstore3⟩ := (hundoB h).mpr (rollback_eq_start hadj.inner hadj.wf1
        ((accepts_iff_keysFree hadj.inner hadj.wf2).mpr hinner))
      obtain ⟨d4, hd4, hstore4⟩ := (hundoA h h' d3 hd3 hstore3).mpr (rollback_eq_start hadj.outer hwf
        ((accepts_iff_keysFree hadj.outer hadj.wf1).mpr houter))
      exact ⟨d3, d4, hd3, hstore3, hd4, hstore4⟩

end Sessions

section Samples

open UndoDatabase Sample

/-- The outer session frees a key, the inner one creates an object with it. One after the
other they are undone, but the merged session is not. -/
theorem merge_blocks_undo :
    ∃ d1 d2 d3, [Change.modify ⟨0, 0⟩ 30].foldlM change (startUndoSession { store := twoNumbers }) =
        .ok d1 ∧
      [Change.create 0 10].foldlM change d1.startUndoSession = .ok d2 ∧
      (∃ d4 d5, d2.undo .forward = .ok d4 ∧ d4.undo .forward = .ok d5 ∧
        d5.store.objs = twoNumbers.objs) ∧
      d2.merge .forward = .ok d3 ∧
      d3.undo .forward = .error
        (.assert "Could not modify object, most likely an index constraint was violated") :=
  ⟨_, _, _, rfl, rfl, ⟨_, _, rfl, rfl, by decide +kernel⟩, rfl, rfl⟩

/-- Two sessions that take no key of each other: both ways of undoing them work. -/
theorem merge_allows_undo :
    ∃ d1 d2 : UndoDatabase Nat,
      [Change.modify ⟨0, 0⟩ 30].foldlM change (startUndoSession { store := twoNumbers }) = .ok d1 ∧
      [Change.remove ⟨0, 1⟩].foldlM change d1.startUndoSession = .ok d2 ∧
      ∀ h h', ∃ d3 d4, d2.merge h = .ok d3 ∧ d3.undo h' = .ok d4 ∧ d4.store = twoNumbers := by
  obtain ⟨d1, d2, a, b, hA, hB, hstack, hobjs1, hobjs2⟩ : ∃ (d1 d2 : UndoDatabase Nat) (a b : _),
      [Change.modify ⟨0, 0⟩ 30].foldlM change (startUndoSession { store := twoNumbers }) = .ok d1 ∧
      [Change.remove ⟨0, 1⟩].foldlM change d1.startUndoSession = .ok d2 ∧ d2.stack = b :: a :: [] ∧
      d1.store.objs.entries = [(⟨0, 0⟩, 30), (⟨0, 1⟩, 20)] ∧
      d2.store.objs.entries = [(⟨0, 0⟩, 30)] := ⟨_, _, _, _, rfl, rfl, rfl, rfl, rfl⟩
  have hwf : Store.WF (UndoDatabase.store { store := twoNumbers }) := twoNumbers_wf
  have hiff := merge_undo_iff hwf rfl hA hB hstack
  have hone : ∀ (start : Store Nat), start.KeysFree d2.store := by
    intro start id old now _ hnow
    cases hcol : d2.store.collides id old with
    | false => rfl
    | true =>
        obtain ⟨k, v, hv, hne, -, -⟩ := Store.collides_iff.mp hcol
        have hv := FlatMap.mem_entries_iff.mpr hv
        have hnow := FlatMap.mem_entries_iff.mpr hnow
        rw [hobjs2, List.mem_singleton] at hv hnow
        exact absurd ((congrArg Prod.fst hv).trans (congrArg Prod.fst hnow).symm) hne
  have houter : twoNumbers.KeysFree d1.store := by
    intro id old now hold hnow
    have hold := FlatMap.mem_entries_iff.mpr hold
    have hlist : twoNumbers.objs.entries = [(⟨0, 0⟩, 10), (⟨0, 1⟩, 20)] := by decide
    simp only [Store.collides, hobjs1]
    rw [hlist] at hold
    simp only [List.mem_cons, Prod.mk.injEq, List.not_mem_nil, or_false] at hold
    rcases hold with ⟨rfl, rfl⟩ | ⟨rfl, rfl⟩ <;> decide
  exact ⟨d1, d2, hA, hB, (hiff.mpr ⟨hone _, hone _, houter⟩).1⟩

end Samples

end BtcmChain
