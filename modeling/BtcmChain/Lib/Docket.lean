import BtcmChain.Lib.ObjectIndex

set_option autoImplicit false

/-!
# Objects that stand for an event

A table can be read as a docket: each of its objects was put there, or last changed, by an event,
and has stood unchallenged since. `Latest` says that an event is the last one of its kind in a
history, `Docket` that a table holds at most one object per key and that each stands for the latest
event about its key. A new event about a key may create, replace or remove the object of that key;
events about other keys leave it standing.
-/

namespace BtcmChain

variable {ε κ α : Type}

/-- Of the events about some subject, `e` is the last in the list `l`: everything behind it is about
something else. -/
def Latest (about : ε → Bool) (l : List ε) (e : ε) : Prop :=
  ∃ before after, l = before ++ e :: after ∧ ∀ d ∈ after, about d = false

theorem Latest.mem {about : ε → Bool} {l : List ε} {e : ε} (h : Latest about l e) : e ∈ l := by
  obtain ⟨before, after, rfl, -⟩ := h
  simp

theorem latest_snoc (about : ε → Bool) (l : List ε) (e : ε) : Latest about (l ++ [e]) e :=
  ⟨l, [], rfl, by simp⟩

/-- An event of another kind, added at the end of the list, changes nothing about which one was the
last. -/
theorem Latest.snoc {about : ε → Bool} {l : List ε} {e d : ε} (h : Latest about l e)
    (hd : about d = false) : Latest about (l ++ [d]) e := by
  obtain ⟨before, after, rfl, hafter⟩ := h
  refine ⟨before, after ++ [d], by simp, ?_⟩
  intro x hx
  rcases List.mem_append.mp hx with hx | hx
  · exact hafter x hx
  · rw [List.mem_singleton.mp hx]
    exact hd

/-- There is only one last event of its kind: two events that both are the latest are the same. -/
theorem Latest.unique {about : ε → Bool} {l : List ε} {e d : ε} (he : Latest about l e)
    (hd : Latest about l d) (habout : about e = true) (habout' : about d = true) : e = d := by
  obtain ⟨before, after, rfl, hafter⟩ := he
  obtain ⟨before', after', hl, hafter'⟩ := hd
  rcases List.append_eq_append_iff.mp hl with ⟨mid, -, hmid⟩ | ⟨mid, -, hmid⟩
  · cases mid with
    | nil => exact (List.cons.inj hmid).1
    | cons x mid =>
        obtain ⟨-, rfl⟩ := List.cons.inj hmid
        exact absurd habout' (by simp [hafter d (by simp)])
  · cases mid with
    | nil => exact (List.cons.inj hmid).1.symm
    | cons x mid =>
        obtain ⟨-, rfl⟩ := List.cons.inj hmid
        exact absurd habout (by simp [hafter' e (by simp)])

/-- Where an event stands in a history that goes on by one. -/
theorem snoc_eq_append_cons {l before after : List ε} {d e : ε}
    (h : l ++ [d] = before ++ e :: after) :
    (after = [] ∧ e = d ∧ before = l) ∨ ∃ rest, l = before ++ e :: rest := by
  rcases List.eq_nil_or_concat after with rfl | ⟨rest, x, rfl⟩
  · obtain ⟨h1, h2⟩ := List.append_inj' h rfl
    exact .inl ⟨rfl, (List.cons.inj h2).1.symm, h1.symm⟩
  · refine .inr ⟨rest, ?_⟩
    have h : l ++ [d] = (before ++ e :: rest) ++ [x] := by
      rw [h]
      simp
    exact (List.append_inj' h rfl).1

/-- At most one object per key, each standing for the latest event about its key. -/
structure Docket (about : κ → ε → Bool) (key : α → κ) (Stands : α → ε → Prop) (l : List ε)
    (ix : ObjectIndex α) : Prop where
  latest : ∀ id a, ix.find? id = some a → ∃ e, Latest (about (key a)) l e ∧ Stands a e
  unique : ∀ id id' a a', ix.find? id = some a → ix.find? id' = some a' → key a = key a' → id = id'

namespace Docket

variable {about : κ → ε → Bool} {key : α → κ} {Stands : α → ε → Prop} {l : List ε}
  {ix : ObjectIndex α} {k : κ} {e : ε}

theorem empty : Docket about key Stands l .empty where
  latest _ _ h := by cases h
  unique _ _ _ _ h := by cases h

/-- The docket still holds when everything that objects stand for is read in a second, weaker way.
-/
theorem mono {Stands' : α → ε → Prop} (h : Docket about key Stands l ix)
    (hs : ∀ id a e, ix.find? id = some a → Stands a e → Stands' a e) :
    Docket about key Stands' l ix where
  latest id a ha := by
    obtain ⟨e, he, hstands⟩ := h.latest id a ha
    exact ⟨e, he, hs id a e ha hstands⟩
  unique := h.unique

/-- An event about no object of the table leaves the docket as it is, with the event added to the
list. -/
theorem pass (h : Docket about key Stands l ix)
    (hother : ∀ id a, ix.find? id = some a → about (key a) e = false) :
    Docket about key Stands (l ++ [e]) ix where
  latest id a ha := by
    obtain ⟨d, hd, hstands⟩ := h.latest id a ha
    exact ⟨d, hd.snoc (hother id a ha), hstands⟩
  unique := h.unique

/-- When an object is removed, what the other objects stand for still is what was last decided about
them. -/
theorem remove (h : Docket about key Stands l ix) (id : Nat) :
    Docket about key Stands l (ix.remove id) where
  latest id' a ha := by
    rw [ObjectIndex.find?_remove] at ha
    split at ha
    · cases ha
    · exact h.latest id' a ha
  unique id₁ id₂ a₁ a₂ h₁ h₂ hkey := by
    rw [ObjectIndex.find?_remove] at h₁ h₂
    split at h₁
    · cases h₁
    · split at h₂
      · cases h₂
      · exact h.unique id₁ id₂ a₁ a₂ h₁ h₂ hkey

theorem about_other (honly : ∀ k', about k' e = true → k' = k) {a : α} (hne : key a ≠ k) : about (key a) e = false := by
  cases habout : about (key a) e with
  | false => rfl
  | true => exact absurd (honly _ habout) hne

/-- An event about `k` puts a first object of that key on the docket. -/
theorem create (h : Docket about key Stands l ix) (honly : ∀ k', about k' e = true → k' = k)
    {b : α} (hkey : key b = k) (hb : Stands b e)
    (hnone : ∀ id a, ix.find? id = some a → key a ≠ k) :
    Docket about key Stands (l ++ [e]) (ix.create b) where
  latest id a ha := by
    rw [ObjectIndex.find?_create] at ha
    split at ha
    case isTrue =>
      obtain rfl := Option.some.inj ha
      exact ⟨e, latest_snoc _ _ _, hb⟩
    case isFalse =>
      obtain ⟨d, hd, hstands⟩ := h.latest id a ha
      exact ⟨d, hd.snoc (about_other honly (hnone id a ha)), hstands⟩
  unique id₁ id₂ a₁ a₂ h₁ h₂ he := by
    rw [ObjectIndex.find?_create] at h₁ h₂
    split at h₁
    case isTrue hid₁ =>
      obtain rfl := Option.some.inj h₁
      split at h₂
      case isTrue hid₂ => rw [hid₁, hid₂]
      case isFalse => exact absurd (he.symm.trans hkey) (hnone id₂ a₂ h₂)
    case isFalse =>
      split at h₂
      case isTrue =>
        obtain rfl := Option.some.inj h₂
        exact absurd (he.trans hkey) (hnone id₁ a₁ h₁)
      case isFalse => exact h.unique id₁ id₂ a₁ a₂ h₁ h₂ he

/-- An event about `k` replaces the object of that key. -/
theorem replace (h : Docket about key Stands l ix) (honly : ∀ k', about k' e = true → k' = k)
    {id : Nat} {a b : α} (ha : ix.find? id = some a)
    (hak : key a = k) (hkey : key b = k) (hb : Stands b e) :
    Docket about key Stands (l ++ [e]) (ix.update id fun _ => b) where
  latest id' a' ha' := by
    rw [ObjectIndex.find?_update, ha] at ha'
    split at ha'
    case isTrue =>
      obtain rfl := Option.some.inj ha'
      exact ⟨e, latest_snoc _ _ _, hb⟩
    case isFalse hne =>
      obtain ⟨d, hd, hstands⟩ := h.latest id' a' ha'
      refine ⟨d, hd.snoc (about_other honly fun hk => hne ?_), hstands⟩
      exact h.unique id' id a' a ha' ha (hk.trans hak.symm)
  unique id₁ id₂ a₁ a₂ h₁ h₂ he := by
    rw [ObjectIndex.find?_update, ha] at h₁ h₂
    split at h₁
    case isTrue hid₁ =>
      obtain rfl := Option.some.inj h₁
      split at h₂
      case isTrue hid₂ => rw [hid₁, hid₂]
      case isFalse =>
        rw [hid₁]
        exact h.unique id id₂ a a₂ ha h₂ (hak.trans (hkey.symm.trans he))
    case isFalse =>
      split at h₂
      case isTrue hid₂ =>
        obtain rfl := Option.some.inj h₂
        rw [hid₂]
        exact h.unique id₁ id a₁ a h₁ ha (he.trans (hkey.trans hak.symm))
      case isFalse => exact h.unique id₁ id₂ a₁ a₂ h₁ h₂ he

/-- An event about `k` takes the object of that key off the docket. -/
theorem drop (h : Docket about key Stands l ix) (honly : ∀ k', about k' e = true → k' = k)
    {id : Nat} {a : α} (ha : ix.find? id = some a) (hak : key a = k) : Docket about key Stands (l ++ [e]) (ix.remove id) := by
  refine (h.remove id).pass fun id' a' ha' => about_other honly fun hk => ?_
  rw [ObjectIndex.find?_remove] at ha'
  split at ha'
  case isTrue => cases ha'
  case isFalse hne => exact hne (h.unique id' id a' a ha' ha (hk.trans hak.symm))

end Docket

end BtcmChain
