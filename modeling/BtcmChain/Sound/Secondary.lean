import BtcmChain.Chain.SecondaryIndexes

set_option autoImplicit false

/-!
# Secondary indexes mirror the objects

What a secondary index is for is a `Listing`: under which keys an object is to be found,
under which name, and what the index holds. An index whose callbacks do what the listing
asks (`Listing.Kept`) mirrors the objects in every state of every run, as long as no
call does what the callbacks cannot see:

* a rollback re-inserts an object that was removed (`insert` calls nobody);
* a modifier changes the keys of an object and throws, or leaves a value whose unique key
  is taken, so that the container drops the object;
* the modification is one the index does not follow: a proposal with other required
  approvals, or an account with another name.
-/

namespace BtcmChain

variable {α σ τ κ ι ν : Type}

/-! ## Listings -/

/-- What a secondary index is to hold: which object is listed where, and under which name. -/
structure Listing (α σ κ ν : Type) where
  /-- The keys that an object is listed under. -/
  keys : α → κ → Prop
  /-- The name that an object is listed with. -/
  label : ObjectId → α → ν
  /-- What is listed under a key of the index. -/
  holds : σ → κ → ν → Prop
  /-- The modifications of an object that the callbacks follow. -/
  follows : α → α → Prop
  /-- The index remembers the object it was told about before a modification. -/
  pending : σ → ObjectId → α → Prop

namespace Listing

/-- The entries of the listing that an object stands for. -/
def Gives (L : Listing α σ κ ν) (id : ObjectId) (v : α) (k : κ) (n : ν) : Prop :=
  L.label id v = n ∧ L.keys v k

/-- Nothing is listed for an object with this value. -/
def Unlisted (L : Listing α σ κ ν) (v : α) : Prop := ∀ k, ¬ L.keys v k

/-- Two values of an object are listed alike, under the same keys and with the same name. -/
def Alike (L : Listing α σ κ ν) (id : ObjectId) (v w : α) : Prop :=
  L.label id w = L.label id v ∧ ∀ k, L.keys w k ↔ L.keys v k

/-- Each callback of the index does its part for the listing. -/
structure Kept (L : Listing α σ κ ν) (S : SecondaryIndex α σ) [UniqueKeys α] : Prop where
  label_ne : ∀ {id id' v v'}, id ≠ id' → clash S.index v v' = false →
    L.label id v ≠ L.label id' v'
  label_follows : ∀ {id v w}, L.follows v w → L.label id w = L.label id v
  inserted : ∀ id v x, Post (S.objectInserted id v) x
    (fun _ x' => ∀ k n, L.holds x' k n ↔ L.holds x k n ∨ L.Gives id v k n) fun _ _ => False
  removed : ∀ id v x, Post (S.objectRemoved id v) x
    (fun _ x' => ∀ k n, L.holds x' k n ↔ L.holds x k n ∧ ¬ L.Gives id v k n) fun _ _ => False
  about : ∀ id v x, Post (S.aboutToModify id v) x
    (fun _ x' => L.pending x' id v ∧ ∀ k n, L.holds x' k n ↔ L.holds x k n)
    (fun _ x' => ∀ k n, L.holds x' k n ↔ L.holds x k n)
  modified : ∀ id v w x, L.pending x id v → L.follows v w →
    (∀ k, L.keys v k → L.holds x k (L.label id v)) → Post (S.objectModified id w) x
      (fun _ x' => ∀ k n, L.holds x' k n ↔
        (L.holds x k n ∧ ¬ L.Gives id v k n) ∨ L.Gives id w k n) fun _ _ => False

/-- The index holds exactly the entries of the objects of the index it follows. -/
def Mirrors (L : Listing α σ κ ν) (index : Nat) (s : Store α) (x : σ) : Prop :=
  ∀ k n, L.holds x k n ↔ ∃ id v, id.index = index ∧ s.find? id = some v ∧ L.Gives id v k n

variable {L : Listing α σ κ ν} {S : SecondaryIndex α σ} {s t : Store α} {x x' : σ}
  {id : ObjectId} {v w : α} {index : Nat}

/-- Only the objects of the index count for what it mirrors, whatever happens to others. -/
theorem Mirrors.congr (h : L.Mirrors index s x) (hx : ∀ k n, L.holds x' k n ↔ L.holds x k n)
    (hs : ∀ id, id.index = index → t.find? id = s.find? id) : L.Mirrors index t x' := by
  intro k n
  rw [hx, h]
  refine exists_congr fun id => exists_congr fun v => and_congr_right fun hid => ?_
  rw [hs id hid]

/-- **One object changes.** The index mirrors the new objects when it drops what the old
value stood for and takes what the new one stands for. -/
theorem Mirrors.change (h : L.Mirrors index s x) (hid : id.index = index)
    (hother : ∀ id' v v', id' ≠ id → id'.index = index → s.find? id = some v →
      s.find? id' = some v' → L.label id v ≠ L.label id' v')
    (hs : ∀ id', id' ≠ id → t.find? id' = s.find? id')
    (hx : ∀ k n, L.holds x' k n ↔
      (L.holds x k n ∧ ¬ ∃ v, s.find? id = some v ∧ L.Gives id v k n) ∨
        ∃ v, t.find? id = some v ∧ L.Gives id v k n) : L.Mirrors index t x' := by
  intro k n
  rw [hx, h]
  constructor
  · rintro (⟨⟨id', v, hid', hv, hg⟩, hold⟩ | ⟨v, hv, hg⟩)
    · by_cases heq : id' = id
      · subst heq
        exact absurd ⟨v, hv, hg⟩ hold
      · exact ⟨id', v, hid', by rw [hs id' heq, hv], hg⟩
    · exact ⟨id, v, hid, hv, hg⟩
  · rintro ⟨id', v, hid', hv, hg⟩
    by_cases heq : id' = id
    · subst heq
      exact .inr ⟨v, hv, hg⟩
    · rw [hs id' heq] at hv
      refine .inl ⟨⟨id', v, hid', hv, hg⟩, ?_⟩
      rintro ⟨u, hu, hgu⟩
      exact hother id' u v heq hid' hu hv (hgu.1.trans hg.1.symm)

/-- What an object of the index stands for is listed. -/
theorem Mirrors.holds_of_find? (h : L.Mirrors index s x) (hid : id.index = index)
    (hv : s.find? id = some v) (k : κ) (hk : L.keys v k) : L.holds x k (L.label id v) :=
  (h k _).mpr ⟨id, v, hid, hv, rfl, hk⟩

/-- The mirror of an index that lists ids has just those of the objects with the key. -/
theorem Mirrors.of_id {L : Listing α σ κ ObjectId} (h : L.Mirrors index s x)
    (hlabel : ∀ id v, L.label id v = id) (k : κ) (id : ObjectId) :
    L.holds x k id ↔ id.index = index ∧ ∃ v, s.find? id = some v ∧ L.keys v k := by
  rw [h]
  constructor
  · rintro ⟨id', v, hid, hv, hlab, hk⟩
    rw [hlabel] at hlab
    subst hlab
    exact ⟨hid, v, hv, hk⟩
  · rintro ⟨hid, v, hv, hk⟩
    exact ⟨id, v, hid, hv, hlabel id v, hk⟩

end Listing

/-! ## Unique keys in one index -/

/-- No two objects of an index share a unique key. -/
def Store.Unique [UniqueKeys α] (s : Store α) (index : Nat) : Prop :=
  ∀ id id' v v', id ≠ id' → id.index = index → id'.index = index → s.find? id = some v →
    s.find? id' = some v' → clash index v v' = false

section Unique

variable [UniqueKeys α] {s t : Store α} {id : ObjectId} {v : α} {index : Nat}

theorem Store.Unique.congr (h : s.Unique index)
    (hs : ∀ id v, id.index = index → t.find? id = some v → s.find? id = some v) :
    t.Unique index :=
  fun id id' v v' hne hid hid' hv hv' =>
    h id id' v v' hne hid hid' (hs id v hid hv) (hs id' v' hid' hv')

theorem Store.Unique.set (h : s.Unique index) (hc : s.collides id v = false)
    (hs : ∀ id', id' ≠ id → t.find? id' = s.find? id') (hv : t.find? id = some v) :
    t.Unique index := by
  have hfree : ∀ id' v', id' ≠ id → id'.index = id.index → s.find? id' = some v' →
      clash id.index v' v = false := by
    intro id' v' hne hidx hv'
    by_contra hclash
    rw [Bool.not_eq_false] at hclash
    rw [Store.collides_iff.mpr ⟨id', v', hv', hne, hidx, hclash⟩] at hc
    cases hc
  intro a b va vb hne ha hb hva hvb
  by_cases haid : a = id
  · subst haid
    obtain rfl : va = v := Option.some.inj (hva.symm.trans hv)
    rw [hs b hne.symm] at hvb
    rw [clash_comm, ← ha]
    exact hfree b vb hne.symm (hb.trans ha.symm) hvb
  · by_cases hbid : b = id
    · subst hbid
      obtain rfl : vb = v := Option.some.inj (hvb.symm.trans hv)
      rw [hs a haid] at hva
      rw [← hb]
      exact hfree a va haid (ha.trans hb.symm) hva
    · rw [hs a haid] at hva
      rw [hs b hbid] at hvb
      exact h a b va vb hne ha hb hva hvb

end Unique

/-! ## The operations -/

namespace PrimaryIndex

section Post

variable {S : SecondaryIndex α σ} {d : PrimaryIndex α σ} {id : ObjectId}
  {P : Unit → PrimaryIndex α σ → Prop} {Q : Exn → PrimaryIndex α σ → Prop}

theorem post_notify {callback : EStateM Exn σ Unit}
    (hin : id.index = S.index → Post callback d.sindex (fun _ x => P () { d with sindex := x })
      (fun e x => Q e { d with sindex := x }))
    (hout : id.index ≠ S.index → P () d) : Post (notify S id callback) d P Q := by
  unfold notify
  split
  case isTrue h => exact post_focus.mpr (hin h)
  case isFalse h => exact hout h

theorem post_getObject {P : α → PrimaryIndex α σ → Prop}
    (hsome : ∀ v, d.store.find? id = some v → P v d)
    (hnone : Q (.assert "Unable to find Object") d) : Post (getObject id) d P Q := by
  simp only [getObject, post_bind, post_get]
  split
  case h_1 v hv => exact hsome v hv
  case h_2 => exact hnone

theorem record_store (f : UndoState α → UndoState α) (d : UndoDatabase α) :
    (d.record f).store = d.store := by
  unfold UndoDatabase.record
  split <;> rfl

end Post

variable [UniqueKeys α] {L : Listing α σ κ ν} {S : SecondaryIndex α σ} {d : PrimaryIndex α σ}
  {id : ObjectId} {v w : α}

/-- The secondary index mirrors the objects, which share no unique key. -/
structure Mirrored (L : Listing α σ κ ν) (S : SecondaryIndex α σ) (d : PrimaryIndex α σ) :
    Prop where
  mirrors : L.Mirrors S.index d.store d.sindex
  unique : d.store.Unique S.index

/-- Sessions and records do not matter for what the index mirrors. -/
theorem Mirrored.congr {d' : PrimaryIndex α σ} (h : Mirrored L S d)
    (hfind : ∀ id, d'.store.find? id = d.store.find? id) (hindex : d'.sindex = d.sindex) :
    Mirrored L S d' where
  mirrors := h.mirrors.congr (by simp [hindex]) fun id _ => hfind id
  unique := h.unique.congr fun id v _ hv => hfind id ▸ hv

/-- A change of an object of another index leaves the mirror as it is. -/
theorem Mirrored.elsewhere {d' : PrimaryIndex α σ} (h : Mirrored L S d)
    (hid : id.index ≠ S.index) (hfind : ∀ id', id' ≠ id → d'.store.find? id' = d.store.find? id')
    (hindex : d'.sindex = d.sindex) : Mirrored L S d' := by
  have hsame : ∀ id', id'.index = S.index → d'.store.find? id' = d.store.find? id' :=
    fun id' hid' => hfind id' fun heq => hid (heq ▸ hid')
  exact ⟨h.mirrors.congr (by simp [hindex]) hsame,
    h.unique.congr fun id' v hid' hv => hsame id' hid' ▸ hv⟩

theorem Mirrored.label_ne (hL : L.Kept S) (h : Mirrored L S d) (hid : id.index = S.index) :
    ∀ id' v v', id' ≠ id → id'.index = S.index → d.store.find? id = some v →
      d.store.find? id' = some v' → L.label id v ≠ L.label id' v' :=
  fun id' v v' hne hid' hv hv' =>
    hL.label_ne hne.symm (h.unique id id' v v' hne.symm hid hid' hv hv')

/-- When an object comes in and the callback is told, the index mirrors the objects again. -/
theorem Mirrored.enter {d' : PrimaryIndex α σ} (hL : L.Kept S) (h : Mirrored L S d)
    (hid : id.index = S.index) (hnone : d.store.find? id = none)
    (hc : d.store.collides id v = false) (hv : d'.store.find? id = some v)
    (hfind : ∀ id', id' ≠ id → d'.store.find? id' = d.store.find? id')
    (hindex : ∀ k n, L.holds d'.sindex k n ↔ L.holds d.sindex k n ∨ L.Gives id v k n) :
    Mirrored L S d' where
  mirrors := by
    refine h.mirrors.change hid (h.label_ne hL hid) hfind fun k n => ?_
    rw [hindex]
    simp [hnone, hv]
  unique := h.unique.set hc hfind hv

/-- When an object is erased and the callback is told, the index mirrors the objects again. -/
theorem Mirrored.leave {d' : PrimaryIndex α σ} (hL : L.Kept S) (h : Mirrored L S d)
    (hid : id.index = S.index) (hv : d.store.find? id = some v)
    (hnone : d'.store.find? id = none)
    (hfind : ∀ id', id' ≠ id → d'.store.find? id' = d.store.find? id')
    (hindex : ∀ k n, L.holds d'.sindex k n ↔ L.holds d.sindex k n ∧ ¬ L.Gives id v k n) :
    Mirrored L S d' where
  mirrors := by
    refine h.mirrors.change hid (h.label_ne hL hid) hfind fun k n => ?_
    rw [hindex]
    simp [hnone, hv]
  unique := by
    refine h.unique.congr fun id' v' _ hv' => ?_
    by_cases heq : id' = id
    · rw [heq, hnone] at hv'
      cases hv'
    · rwa [hfind id' heq] at hv'

/-- When an object is replaced and both callbacks are told, the index mirrors the objects again. -/
theorem Mirrored.renew {d' : PrimaryIndex α σ} (hL : L.Kept S) (h : Mirrored L S d)
    (hid : id.index = S.index) (hv : d.store.find? id = some v)
    (hc : d.store.collides id w = false) (hw : d'.store.find? id = some w)
    (hfind : ∀ id', id' ≠ id → d'.store.find? id' = d.store.find? id')
    (hindex : ∀ k n, L.holds d'.sindex k n ↔
      (L.holds d.sindex k n ∧ ¬ L.Gives id v k n) ∨ L.Gives id w k n) :
    Mirrored L S d' where
  mirrors := by
    refine h.mirrors.change hid (h.label_ne hL hid) hfind fun k n => ?_
    rw [hindex]
    simp [hv, hw]
  unique := h.unique.set hc hfind hw

theorem remove_mirrored (hL : L.Kept S) (h : Mirrored L S d) :
    Post (remove S id) d (fun _ => Mirrored L S) fun _ => Mirrored L S := by
  unfold remove
  rw [post_bind]
  refine post_getObject (fun v hv => ?_) h
  rw [post_bind]
  refine post_notify (fun hid => ?_) fun hid => ?_
  · refine (hL.removed id v d.sindex).mono (fun _ x hx => ?_) fun _ _ hfalse => hfalse.elim
    refine h.leave hL hid hv ?_ (fun id' hne => ?_) hx
    · simp [record_store, Store.find?_erase]
    · simp [record_store, Store.find?_erase, hne]
  · refine h.elsewhere hid (fun id' hne => ?_) ?_
    · simp [record_store, Store.find?_erase, hne]
    · rfl

theorem insert_mirrored (hL : L.Kept S) (h : Mirrored L S d)
    (hv : id.index = S.index → L.Unlisted v) :
    Post (insert id v) d (fun _ => Mirrored L S) fun _ => Mirrored L S := by
  simp only [insert, setStore, post_bind, post_get, post_liftExcept, post_modifyThe]
  refine ⟨fun s hs => ?_, fun _ _ => h⟩
  obtain ⟨hnone, hc, rfl⟩ := Store.insert_ok.mp hs
  by_cases hid : id.index = S.index
  · refine h.enter hL hid hnone hc ?_ (fun id' hne => ?_) fun k n => ?_
    · simp [Store.find?_set]
    · simp [Store.find?_set, hne]
    · simp [Listing.Gives, hv hid k]
  · refine h.elsewhere hid (fun id' hne => ?_) rfl
    simp [Store.find?_set, hne]

theorem load_mirrored (hL : L.Kept S) (h : Mirrored L S d) :
    Post (load S id v) d (fun _ => Mirrored L S) fun _ => Mirrored L S := by
  simp only [load, insert, setStore, post_bind, post_get, post_liftExcept, post_modifyThe]
  refine ⟨fun s hs => ?_, fun _ _ => h⟩
  obtain ⟨hnone, hc, rfl⟩ := Store.insert_ok.mp hs
  refine post_notify (fun hid => ?_) fun hid => ?_
  · refine (hL.inserted id v d.sindex).mono (fun _ x hx => ?_) fun _ _ hfalse => hfalse.elim
    refine h.enter hL hid hnone hc ?_ (fun id' hne => ?_) hx
    · simp [Store.find?_set]
    · simp [Store.find?_set, hne]
  · refine h.elsewhere hid (fun id' hne => ?_) rfl
    simp [Store.find?_set, hne]

theorem create_mirrored (hL : L.Kept S) (h : Mirrored L S d) {index : Nat} :
    Post (create S index v) d (fun _ => Mirrored L S) fun _ => Mirrored L S := by
  simp only [create, setStore, post_bind, post_get, post_liftExcept, post_modifyThe]
  refine ⟨fun s hs => ?_, fun _ _ => h⟩
  obtain ⟨hnone, hc, rfl⟩ := Store.create_ok.mp hs
  refine post_notify (fun hid => ?_) fun hid => ?_
  · refine (hL.inserted _ v d.sindex).mono (fun _ x hx => ?_) fun _ _ hfalse => hfalse.elim
    refine h.enter hL hid hnone hc ?_ (fun id' hne => ?_) hx
    · simp [record_store, Store.find?_set]
    · simp [record_store, Store.find?_set, hne]
  · refine h.elsewhere hid (fun id' hne => ?_) rfl
    simp [record_store, Store.find?_set, hne]

/-- What a modification of `id` to `w` must be for the listing to follow. -/
def Followed (L : Listing α σ κ ν) (s : Store α) (id : ObjectId) (w : α) (threw : Option Exn) :
    Prop :=
  ∀ v, s.find? id = some v →
    if s.collides id w then L.Unlisted v
    else if threw.isSome then L.Alike id v w
    else L.follows v w

theorem find?_replaced (s : Store α) (id id' : ObjectId) (v : α) (hne : id' ≠ id) :
    (replaced s id v).find? id' = s.find? id' := by
  unfold replaced
  split
  · simp [Store.find?_erase, hne]
  · simp [Store.find?_set, hne]

/-- The second half of a modification, when the index knows of the first. -/
theorem finishModify_mirrored (hL : L.Kept S) (h : Mirrored L S d) {threw : Option Exn}
    (hv : d.store.find? id = some v)
    (hf : id.index = S.index → L.pending d.sindex id v ∧ Followed L d.store id w threw) :
    Post (finishModify S id w threw) d (fun _ => Mirrored L S) fun _ => Mirrored L S := by
  simp only [finishModify, setStore, post_bind, post_get, post_liftExcept, post_modifyThe]
  have hother : ∀ id', id' ≠ id → (replaced d.store id w).find? id' = d.store.find? id' :=
    fun id' => find?_replaced d.store id id' w
  by_cases hid : id.index = S.index
  case neg =>
    have hout : Mirrored L S { d with store := replaced d.store id w } :=
      h.elsewhere hid hother rfl
    exact ⟨fun _ _ => ⟨fun _ _ => post_notify (fun hin => absurd hin hid) fun _ => hout,
      fun _ _ => hout⟩, fun _ _ => hout⟩
  case pos =>
  obtain ⟨hpending, hf⟩ := hf hid
  replace hf := hf v hv
  cases hc : d.store.collides id w with
  | true =>
      -- the container drops the object; the index never listed it
      rw [if_pos hc] at hf
      have hdropped : Mirrored L S { d with store := replaced d.store id w } := by
        refine h.leave hL hid hv ?_ hother fun k n => ?_
        · simp [replaced, hc, Store.find?_erase]
        · simp [Listing.Gives, hf k]
      refine ⟨fun _ _ => ⟨fun _ hassert => ?_, fun _ _ => hdropped⟩, fun _ _ => hdropped⟩
      simp at hassert
  | false =>
      rw [if_neg (by simp [hc])] at hf
      have hw : (replaced d.store id w).find? id = some w := by
        simp [replaced, hc, Store.find?_set]
      cases threw with
      | some e =>
          -- the object is listed as before
          refine ⟨fun _ hthrew => (by cases hthrew), fun _ _ => ?_⟩
          obtain ⟨hlabel, hkeys⟩ : L.Alike id v w := hf
          refine h.renew hL hid hv hc hw hother fun k n => ?_
          have hgives : L.Gives id w k n ↔ L.Gives id v k n := by
            rw [Listing.Gives, Listing.Gives, hlabel, hkeys]
          have hlisted : L.Gives id v k n → L.holds d.sindex k n := by
            rintro ⟨rfl, hk⟩
            exact h.mirrors.holds_of_find? hid hv k hk
          rw [hgives]
          tauto
      | none =>
          have hf : L.follows v w := hf
          refine ⟨fun _ _ => ⟨fun _ _ => post_notify (fun _ => ?_) fun hout => absurd hid hout,
            fun _ herr => ?_⟩, fun _ herr => (by cases herr)⟩
          · refine (hL.modified id v w d.sindex hpending hf
              (h.mirrors.holds_of_find? hid hv)).mono (fun _ x hx => ?_)
                fun _ _ hfalse => hfalse.elim
            exact h.renew hL hid hv hc hw hother hx
          · simp [fcAssert] at herr

/-- One modification keeps the mirror, when its values are followed, whether it returns or throws.
-/
theorem modifyWith_mirrored (hL : L.Kept S) (h : Mirrored L S d) {threw : Option Exn}
    {effect : PrimaryIndex α σ → PrimaryIndex α σ}
    (heffect : ∀ d, (effect d).store = d.store ∧ (effect d).sindex = d.sindex)
    (hf : id.index = S.index → Followed L d.store id w threw) :
    Post (modifyWith S id w threw effect) d (fun _ => Mirrored L S) fun _ => Mirrored L S := by
  unfold modifyWith
  rw [post_bind]
  refine post_getObject (fun v hv => ?_) h
  rw [post_bind]
  -- the record of the old value changes neither the objects nor the index
  let d' : PrimaryIndex α σ :=
    { d with toUndoDatabase := d.toUndoDatabase.record fun u => u.onModify id v }
  have hstore : d'.store = d.store := record_store _ _
  have hd' : Mirrored L S d' := h.congr (fun _ => by rw [hstore]) rfl
  show Post (notify S id (S.aboutToModify id v) >>= _) d' _ _
  rw [post_bind]
  refine post_notify (fun hid => ?_) fun hid => ?_
  · refine (hL.about id v d.sindex).mono (fun _ x hx => ?_) fun _ x hx => ?_
    · rw [post_bind, post_modifyThe]
      obtain ⟨hst, hsx⟩ := heffect { d' with sindex := x }
      refine finishModify_mirrored (v := v) hL ⟨?_, ?_⟩ ?_ fun _ => ⟨?_, ?_⟩
      · rw [hst, hsx]
        exact hd'.mirrors.congr hx.2 fun _ _ => rfl
      · rw [hst]
        exact hd'.unique
      · rw [hst]
        exact hstore ▸ hv
      · rw [hsx]
        exact hx.1
      · rw [hst]
        exact hstore ▸ hf hid
    · exact ⟨hd'.mirrors.congr hx fun _ _ => rfl, hd'.unique⟩
  · rw [post_bind, post_modifyThe]
    obtain ⟨hst, hsx⟩ := heffect d'
    refine finishModify_mirrored (v := v) hL (hd'.congr (fun _ => by rw [hst]) hsx) ?_
      fun hin => absurd hin hid
    rw [hst]
    exact hstore ▸ hv

/-- A modification that returns leaves the other objects alone. -/
theorem modifyWith_store {threw : Option Exn} {effect : PrimaryIndex α σ → PrimaryIndex α σ}
    (heffect : ∀ d, (effect d).store = d.store) :
    Post (modifyWith S id w threw effect) d
      (fun _ d' => ∀ id' v', d'.store.find? id' = some v' →
        (id' = id ∧ v' = w) ∨ (id' ≠ id ∧ d.store.find? id' = some v')) fun _ _ => True := by
  -- what the objects are does not depend on the index
  have hfinish : ∀ e : PrimaryIndex α σ, e.store = d.store →
      Post (finishModify S id w threw) e
        (fun _ d' => d'.store = replaced d.store id w) fun _ _ => True := by
    intro e he
    simp only [finishModify, setStore, post_bind, post_get, post_liftExcept, post_modifyThe, he]
    refine ⟨fun _ _ => ⟨fun _ _ => post_notify (fun _ => ?_) fun _ => rfl,
      fun _ _ => trivial⟩, fun _ _ => trivial⟩
    exact post_iff.mpr ⟨fun _ _ _ => rfl, fun _ _ _ => trivial⟩
  have hrun : Post (modifyWith S id w threw effect) d
      (fun _ d' => d'.store = replaced d.store id w) fun _ _ => True := by
    unfold modifyWith
    rw [post_bind]
    refine post_getObject (fun v _ => ?_) trivial
    rw [post_bind]
    show Post (notify S id (S.aboutToModify id v) >>= _)
      { d with toUndoDatabase := d.toUndoDatabase.record fun u => u.onModify id v } _ _
    rw [post_bind]
    refine post_notify (fun _ => post_iff.mpr ⟨fun _ x _ => ?_, fun _ _ _ => trivial⟩) fun _ => ?_
    · exact hfinish _ ((heffect _).trans (record_store _ _))
    · exact hfinish _ ((heffect _).trans (record_store _ _))
  refine hrun.mono (fun _ d' hd' id' v' hv' => ?_) fun _ _ h => h
  rw [hd'] at hv'
  by_cases hne : id' = id
  · subst hne
    refine .inl ⟨rfl, ?_⟩
    unfold replaced at hv'
    split at hv'
    · simp [Store.find?_erase] at hv'
    · exact (Option.some.inj (by simpa [Store.find?_set] using hv')).symm
  · rw [find?_replaced _ _ _ _ hne] at hv'
    exact .inr ⟨hne, hv'⟩

/-- What the record of a session must be for the index to follow its rollback. -/
structure Seen (L : Listing α σ κ ν) (S : SecondaryIndex α σ) (s : Store α) (u : UndoState α) :
    Prop where
  /-- No object that was removed and is put back is a listed one. -/
  removed : ∀ id v, id.index = S.index → u.removed.find? id = some v → L.Unlisted v
  /-- The index follows the way back of every object that is restored. -/
  follows : ∀ id v w, id.index = S.index → s.find? id = some v → u.oldValues.find? id = some w →
    L.follows v w
  /-- No other object has, or gets back, a unique key that is restored. -/
  free : ∀ id id' w v', id' ≠ id → id.index = S.index → id'.index = S.index →
    u.oldValues.find? id = some w →
    (s.find? id' = some v' ∨ u.oldValues.find? id' = some v') → clash S.index v' w = false

/-- `Seen`, for the old values that are still to be restored. -/
def ToRestore (L : Listing α σ κ ν) (S : SecondaryIndex α σ) (l : List (ObjectId × α))
    (s : Store α) : Prop :=
  (l.map Prod.fst).Nodup ∧ ∀ id w, (id, w) ∈ l → id.index = S.index →
    (∀ v, s.find? id = some v → L.follows v w) ∧
      ∀ id' v', id' ≠ id → id'.index = S.index → (s.find? id' = some v' ∨ (id', v') ∈ l) →
        clash S.index v' w = false

theorem ToRestore.step {s t : Store α} {l : List (ObjectId × α)}
    (h : ToRestore L S ((id, w) :: l) s)
    (ht : ∀ id' v', t.find? id' = some v' →
      (id' = id ∧ v' = w) ∨ (id' ≠ id ∧ s.find? id' = some v')) : ToRestore L S l t := by
  obtain ⟨hnodup, h⟩ := h
  obtain ⟨hid, hnodup⟩ := List.nodup_cons.mp hnodup
  refine ⟨hnodup, fun a x hmem ha => ?_⟩
  have hne : a ≠ id := fun heq => hid (heq ▸ List.mem_map.mpr ⟨(a, x), hmem, rfl⟩)
  obtain ⟨hfollows, hfree⟩ := h a x (List.mem_cons_of_mem _ hmem) ha
  refine ⟨fun v hv => ?_, fun b y hb hidx hy => ?_⟩
  · rcases ht a v hv with ⟨heq, -⟩ | ⟨-, hv⟩
    · exact absurd heq hne
    · exact hfollows v hv
  · rcases hy with hy | hy
    · rcases ht b y hy with ⟨rfl, rfl⟩ | ⟨-, hy⟩
      · exact hfree b y hb hidx (.inr List.mem_cons_self)
      · exact hfree b y hb hidx (.inl hy)
    · exact hfree b y hb hidx (.inr (List.mem_cons_of_mem _ hy))

/-- An entry that can be restored is one the index follows. -/
theorem ToRestore.followed {s : Store α} {l : List (ObjectId × α)}
    (h : ToRestore L S ((id, w) :: l) s) (hid : id.index = S.index) :
    Followed L s id w none := by
  obtain ⟨hfollows, hfree⟩ := h.2 id w List.mem_cons_self hid
  intro v hv
  have hc : s.collides id w = false := by
    by_contra hc
    rw [Bool.not_eq_false, Store.collides_iff] at hc
    obtain ⟨id', v', hv', hne, hidx, hclash⟩ := hc
    rw [hid, hfree id' v' hne (hidx.trans hid) (.inl hv')] at hclash
    cases hclash
  simpa [hc] using hfollows v hv

/-- The first loop of a rollback, which restores old values, keeps the mirror. -/
theorem restore_mirrored (hL : L.Kept S) (moved : α → α) (l : List (ObjectId × α))
    (h : Mirrored L S d) (hl : ToRestore L S l d.store) :
    Post (l.forM fun e => modifyWith S e.1 e.2 none
      (onRecord fun u => { u with oldValues := u.oldValues.update e.1 moved })) d
      (fun _ => Mirrored L S) fun _ => Mirrored L S := by
  have hloop := post_forM (Q := fun _ => Mirrored L S)
    (P := fun l (d : PrimaryIndex α σ) => Mirrored L S d ∧ ToRestore L S l d.store)
    (f := fun e => modifyWith S e.1 e.2 none
      (onRecord fun u => { u with oldValues := u.oldValues.update e.1 moved }))
    (fun e l d hd => ?_) l ⟨h, hl⟩
  · exact hloop.mono (fun _ _ hd => hd.1) fun _ _ hd => hd
  · exact Post.mono (Post.and
      (modifyWith_mirrored hL hd.1 (fun _ => ⟨rfl, rfl⟩) hd.2.followed)
      (modifyWith_store fun _ => rfl))
      (fun _ d' hd' => ⟨hd'.1, hd.2.step hd'.2⟩) fun _ _ hd' => hd'.1

/-- **Rollback.** Whether it completes or throws on the way, the index follows. -/
theorem rollbackState_mirrored (hL : L.Kept S) (h : HashOrder) (moved : α → α)
    (hd : Mirrored L S d) (hseen : ∀ u rest, d.stack = u :: rest → Seen L S d.store u) :
    Post (rollbackState S h moved) d (fun _ => Mirrored L S) fun _ => Mirrored L S := by
  unfold rollbackState
  rw [post_bind, post_get]
  split
  case h_1 => exact hd
  case h_2 u rest hstack =>
  have hu := hseen u rest hstack
  have hold : ∀ id w, (id, w) ∈ h.order u.oldValues.entries ↔ u.oldValues.find? id = some w :=
    fun id w => (h.perm _).mem_iff.trans FlatMap.mem_entries_iff
  rw [post_bind]
  refine (restore_mirrored hL moved _ hd ⟨?_, fun id w hmem hid => ⟨fun v hv => ?_, ?_⟩⟩).mono
    (fun _ d hd => ?_) fun _ _ hd => hd
  · exact ((h.perm _).map Prod.fst).nodup_iff.mpr u.oldValues.nodup_keys
  · exact hu.follows id v w hid hv ((hold id w).mp hmem)
  · intro id' v' hne hid' hv'
    rw [hold] at hv'
    exact hu.free id id' w v' hne hid hid' ((hold id w).mp hmem) hv'
  -- the objects of the session are removed
  rw [post_bind]
  refine (post_forM (P := fun _ => Mirrored L S) (fun e _ d hd => remove_mirrored hL hd) _ hd).mono
    (fun _ d hd => ?_) fun _ _ hd => hd
  rw [post_bind, post_modifyThe, post_bind]
  have hnext : ∀ (l : List (Nat × Nat)) (s : Store α) (id : ObjectId),
      (l.foldl (fun s e => s.setNextId e.1 e.2) s).find? id = s.find? id := by
    intro l s id
    induction l generalizing s with
    | nil => rfl
    | cons e l ih => rw [List.foldl_cons, ih, Store.find?_setNextId]
  have hreset : Mirrored L S
      { d with
        store := (h.order u.oldIndexNextIds.entries).foldl (fun s e => s.setNextId e.1 e.2)
          d.store } := hd.congr (hnext _ _) rfl
  -- and what it removed comes back
  have hloop := post_forM (Q := fun _ => Mirrored L S)
    (P := fun l (d : PrimaryIndex α σ) => Mirrored L S d ∧
      ∀ e ∈ l, e.1.index = S.index → L.Unlisted e.2)
    (f := fun e => do
      insert e.1 e.2
      modifyThe (PrimaryIndex α σ)
        (onRecord fun u => { u with removed := u.removed.update e.1 moved }))
    (fun e l d hd => ?_) (h.order u.removed.entries)
    ⟨hreset, fun e he hid => hu.removed e.1 e.2 hid ?_⟩
  · exact hloop.mono (fun _ d hd => hd.1.congr (fun _ => rfl) rfl) fun _ _ hd => hd
  · rw [post_bind]
    refine (insert_mirrored hL hd.1 (hd.2 e List.mem_cons_self)).mono (fun _ d' hd' => ?_)
      fun _ _ hd' => hd'
    exact ⟨hd'.congr (fun _ => rfl) rfl, fun e' he' => hd.2 e' (List.mem_cons_of_mem _ he')⟩
  · exact FlatMap.mem_entries_iff.mp ((h.perm _).mem_iff.mp he)

/-! ## Runs -/

/-- The calls that the index follows: those whose objects are listed alike, or followed by the
callbacks. -/
def Command.Seen (L : Listing α σ κ ν) (S : SecondaryIndex α σ) (d : PrimaryIndex α σ) :
    Command α → Prop
  | .modify id w threw => id.index = S.index → Followed L d.store id w threw
  | .undo _ | .popCommit _ => ∀ u rest, d.stack = u :: rest → PrimaryIndex.Seen L S d.store u
  | _ => True

/-- Calls that are about sessions leave objects and index alone. -/
theorem onSessions_mirrored {f : UndoDatabase α → Except Exn (UndoDatabase α)}
    (hf : ∀ d d', f d = .ok d' → d'.store = d.store) (h : Mirrored L S d) :
    Post (onSessions f) d (fun _ => Mirrored L S) fun _ => Mirrored L S := by
  simp only [onSessions, post_bind, post_get, post_liftExcept, post_set]
  exact ⟨fun d' hd' => h.congr (fun _ => by rw [hf _ d' hd']) rfl, fun _ _ => h⟩

/-- **One call** that the index follows keeps the mirror, whether it returns or throws. -/
theorem exec_mirrored (hL : L.Kept S) (moved : α → α) (h : Mirrored L S d) (c : Command α)
    (hc : c.Seen L S d) :
    Post (exec S moved c) d (fun _ => Mirrored L S) fun _ => Mirrored L S := by
  cases c with
  | create index v =>
      simp only [exec, post_bind, post_liftExcept]
      exact ⟨fun v _ => create_mirrored hL h, fun _ _ => h⟩
  | modify id w threw => exact modifyWith_mirrored hL h (fun _ => ⟨rfl, rfl⟩) hc
  | remove id => exact remove_mirrored hL h
  | load id v => exact load_mirrored hL h
  | startUndoSession forceEnable =>
      -- opening, merging and committing sessions do not touch the objects
      show Post (onSessions fun d => .ok (d.startUndoSession forceEnable)) _ _ _
      refine onSessions_mirrored (fun e e' he => ?_) h
      obtain rfl := Except.ok.inj he
      unfold UndoDatabase.startUndoSession
      split <;> rfl
  | merge order =>
      show Post (onSessions (UndoDatabase.merge order)) _ _ _
      refine onSessions_mirrored (fun e e' he => ?_) h
      unfold UndoDatabase.merge at he
      obtain ⟨-, -, he⟩ := except_bind_ok.mp he
      split at he
      · split at he
        · cases he
          rfl
        · cases he
      · cases he
        rfl
      · cases he
  | commit =>
      show Post (onSessions UndoDatabase.commit) _ _ _
      refine onSessions_mirrored (fun e e' he => ?_) h
      obtain ⟨-, -, he⟩ := except_bind_ok.mp he
      cases he
      rfl
  | setMaxSize n =>
      show Post (onSessions fun d => .ok (d.setMaxSize n)) _ _ _
      refine onSessions_mirrored (fun e e' he => ?_) h
      obtain rfl := Except.ok.inj he
      rfl
  | undo order =>
      -- a rollback tells the index of every object that it restores
      have hdisabled : Mirrored L S { d with disabled := true } := h.congr (fun _ => rfl) rfl
      simp only [exec, undo, post_bind, post_get, post_liftExcept, post_modifyThe]
      refine ⟨fun _ _ => ⟨fun _ _ => ?_, fun _ _ => h⟩, fun _ _ => h⟩
      exact (rollbackState_mirrored hL order moved hdisabled hc).mono
        (fun _ d' hd' => hd'.congr (fun _ => rfl) rfl) fun _ _ hd' => hd'
  | popCommit order =>
      have hdisabled : Mirrored L S { d with disabled := true } := h.congr (fun _ => rfl) rfl
      simp only [exec, popCommit, post_bind, post_get, post_liftExcept, post_modifyThe,
        post_tryCatch, post_throw]
      refine ⟨fun _ _ => ⟨fun _ _ => ?_, fun _ _ => h⟩, fun _ _ => h⟩
      exact (rollbackState_mirrored hL order moved hdisabled hc).mono
        (fun _ d' hd' => hd'.congr (fun _ => rfl) rfl)
        fun _ d' hd' => hd'.congr (fun _ => rfl) rfl

/-- **Runs.** An index whose callbacks do their part mirrors the objects in every state of
every run. -/
theorem mirrored_of_runIf (hL : L.Kept S) (moved : α → α) {start : PrimaryIndex α σ}
    (hstart : Mirrored L S start) (h : RunIf S moved (fun d c => c.Seen L S d) start d) :
    Mirrored L S d := by
  induction h with
  | start => exact hstart
  | step _ hc ih => exact post_after.mp (exec_mirrored hL moved ih _ hc)

end PrimaryIndex

end BtcmChain
