import BtcmChain.Chain.Sidelong
import BtcmChain.Lib.Acquaintance

set_option autoImplicit false
set_option synthInstance.maxSize 10000000
set_option synthInstance.maxHeartbeats 200000

/-!
# The friendship graph

An account stores three sets of other accounts: its friends, its friends' friends and those whose
request waits for an answer. The first and the last are the circle of the state; what the
evaluators do to it is one step of the circle (`Call.meet`), and the stored second level is the
one the circle says (`Bonds.Graph`), although accepting a friendship adds to it account by account
and ending one rebuilds it. Nothing else that happens to the state touches any of the three.
-/

namespace BtcmChain

/-! ## The ties of all accounts -/

/-- The accounts that an account stores: its friends, their friends, and those who wait for an
answer. -/
structure Bonds where
  friends : List AccountId := []
  secondLevel : List AccountId := []
  waiting : List AccountId := []

def AccountProfile.bonds (p : AccountProfile) : Bonds := ⟨p.friends, p.secondLevel, p.waiting⟩

/-- What every account stores; a number without an account stores nothing. -/
def Database.bonds (s : Database) (a : AccountId) : Bonds :=
  (s.accounts.find? a).elim {} fun acct => acct.bonds

/-- The friends and the waiting requests of all accounts, as a circle. -/
def circleOf (B : AccountId → Bonds) : Circle AccountId where
  friend a b := b ∈ (B a).friends
  asked a b := b ∈ (B a).waiting

/-- The stored lists are sets: they are sorted, without repetition. -/
structure Bonds.Sets (b : Bonds) : Prop where
  friends : b.friends.Pairwise (· < ·)
  secondLevel : b.secondLevel.Pairwise (· < ·)
  waiting : b.waiting.Pairwise (· < ·)

/-- What is stored is a friendship graph: the circle is sound, and the second level of every
account is that of the circle. -/
structure Bonds.Graph (B : AccountId → Bonds) : Prop where
  sets : ∀ a, (B a).Sets
  sound : (circleOf B).Sound
  second : ∀ a x, x ∈ (B a).secondLevel ↔ (circleOf B).second a x

/-! ## Sets of accounts -/

theorem mem_insertId {l : List AccountId} {x y : AccountId} : y ∈ insertId l x ↔ y ∈ l ∨ y = x := by
  unfold insertId
  split
  case isTrue h =>
    constructor
    · exact .inl
    · rintro (hy | rfl)
      · exact hy
      · exact h
  case isFalse =>
    rw [List.mem_orderedInsert]
    exact or_comm

theorem sorted_insertId {l : List AccountId} (h : l.Pairwise (· < ·)) (x : AccountId) :
    (insertId l x).Pairwise (· < ·) := by
  unfold insertId
  split
  case isTrue => exact h
  case isFalse hx =>
    have hle : (l.orderedInsert (· ≤ ·) x).Pairwise (· ≤ ·) := (h.imp le_of_lt).orderedInsert x l
    have hne : (l.orderedInsert (· ≤ ·) x).Nodup := by
      rw [(List.perm_orderedInsert _ x l).nodup_iff]
      exact List.nodup_cons.mpr ⟨hx, h.imp ne_of_lt⟩
    exact (hle.and hne).imp fun hab => lt_of_le_of_ne hab.1 hab.2

theorem insertId_of_mem {l : List AccountId} {x : AccountId} (h : x ∈ l) : insertId l x = l := if_pos h

theorem mem_insertIds {l xs : List AccountId} {y : AccountId} :
    y ∈ insertIds l xs ↔ y ∈ l ∨ y ∈ xs := by
  unfold insertIds
  induction xs generalizing l with
  | nil => simp
  | cons x xs ih => rw [List.foldl_cons, ih, mem_insertId, List.mem_cons, or_assoc]

theorem sorted_insertIds {l : List AccountId} (h : l.Pairwise (· < ·)) (xs : List AccountId) :
    (insertIds l xs).Pairwise (· < ·) := by
  unfold insertIds
  induction xs generalizing l with
  | nil => exact h
  | cons x xs ih => exact ih (sorted_insertId h x)

theorem sorted_erase {l : List AccountId} (h : l.Pairwise (· < ·)) (x : AccountId) :
    (l.erase x).Pairwise (· < ·) := h.sublist List.erase_sublist

theorem mem_erase_sorted {l : List AccountId} (h : l.Pairwise (· < ·)) {x y : AccountId} :
    y ∈ l.erase x ↔ y ≠ x ∧ y ∈ l := List.Nodup.mem_erase_iff (h.imp ne_of_lt)

/-! ## What the steps do -/

/-- The account learns of another friend's friend, which goes on its second level. -/
def Bonds.meet (b : Bonds) (x : AccountId) : Bonds :=
  { b with secondLevel := insertId b.secondLevel x }

/-- The account has a new friend, whose friends are `theirs` and go on the second level. -/
def Bonds.befriend (b : Bonds) (self other : AccountId) (theirs : List AccountId) : Bonds :=
  { b with
    friends := insertId b.friends other
    secondLevel := (insertIds b.secondLevel theirs).erase self }

/-- The account has one friend less; its second level is rebuilt later. -/
def Bonds.unfriend (b : Bonds) (other : AccountId) : Bonds :=
  { b with friends := b.friends.erase other, secondLevel := [] }

/-- The friends of an account's friends, less the account itself, as the lists have them. -/
def friendsOfFriends (B : AccountId → Bonds) (a : AccountId) : List AccountId :=
  ((B a).friends.foldl (fun l f => insertIds l (B f).friends) []).erase a

/-- The account with its second level computed anew from the lists of its friends. -/
def Bonds.rebuild (B : AccountId → Bonds) (a : AccountId) : Bonds :=
  { B a with secondLevel := friendsOfFriends B a }

section Sets

variable {b : Bonds} {B C : AccountId → Bonds} {a x : AccountId}

theorem sorted_friendsOfFriends (B : AccountId → Bonds) (a : AccountId) :
    (friendsOfFriends B a).Pairwise (· < ·) := by
  unfold friendsOfFriends
  refine sorted_erase ?_ a
  refine List.foldlRecOn (motive := List.Pairwise (· < ·)) (B a).friends _ List.Pairwise.nil ?_
  exact fun l hl f _ => sorted_insertIds hl _

theorem mem_friendsOfFriends :
    x ∈ friendsOfFriends B a ↔ x ≠ a ∧ ∃ f ∈ (B a).friends, x ∈ (B f).friends := by
  have hall : ∀ (fs l : List AccountId), l.Pairwise (· < ·) →
      (fs.foldl (fun l f => insertIds l (B f).friends) l).Pairwise (· < ·) ∧
      (x ∈ fs.foldl (fun l f => insertIds l (B f).friends) l ↔
        x ∈ l ∨ ∃ f ∈ fs, x ∈ (B f).friends) := by
    intro fs
    induction fs with
    | nil => exact fun l hl => ⟨hl, by simp⟩
    | cons f fs ih =>
        intro l hl
        obtain ⟨hsorted, hmem⟩ := ih (insertIds l (B f).friends) (sorted_insertIds hl _)
        refine ⟨hsorted, ?_⟩
        rw [List.foldl_cons, hmem, mem_insertIds, List.exists_mem_cons_iff, or_assoc]
  obtain ⟨hsorted, hmem⟩ := hall (B a).friends [] List.Pairwise.nil
  rw [friendsOfFriends, mem_erase_sorted hsorted, hmem]
  simp

theorem friendsOfFriends_congr (h : ∀ a, (C a).friends = (B a).friends) :
    friendsOfFriends C a = friendsOfFriends B a := by
  simp only [friendsOfFriends, h]

theorem Bonds.Sets.meet (h : b.Sets) (x : AccountId) : (b.meet x).Sets where
  friends := h.friends
  secondLevel := sorted_insertId h.secondLevel x
  waiting := h.waiting

theorem Bonds.Sets.befriend (h : b.Sets) (self other : AccountId) (theirs : List AccountId) :
    (b.befriend self other theirs).Sets where
  friends := sorted_insertId h.friends other
  secondLevel := sorted_erase (sorted_insertIds h.secondLevel theirs) self
  waiting := h.waiting

theorem Bonds.Sets.forget (h : b.Sets) (x : AccountId) :
    Bonds.Sets { b with waiting := b.waiting.erase x } where
  friends := h.friends
  secondLevel := h.secondLevel
  waiting := sorted_erase h.waiting x

theorem Bonds.Sets.unfriend (h : b.Sets) (other : AccountId) : (b.unfriend other).Sets where
  friends := sorted_erase h.friends other
  secondLevel := List.Pairwise.nil
  waiting := h.waiting

theorem Bonds.Sets.rebuild (h : ∀ a, (B a).Sets) (a : AccountId) : (Bonds.rebuild B a).Sets where
  friends := (h a).friends
  secondLevel := sorted_friendsOfFriends B a
  waiting := (h a).waiting

/-- Setting the bonds of one account keeps the lists of all of them sets. -/
theorem Bonds.Sets.update (h : ∀ a, (B a).Sets) (hb : b.Sets) (a x : AccountId) :
    (Function.update B a b x).Sets := by
  by_cases hx : x = a
  · subst hx
    rwa [Function.update_self]
  · rw [Function.update_of_ne hx]
    exact h x

end Sets

/-! ## Rebuilding -/

/-- The second level of the accounts that satisfy `P` has been rebuilt. -/
def Rebuilds (P : AccountId → Prop) (B C : AccountId → Bonds) : Prop :=
  ∀ y, (P y → C y = Bonds.rebuild B y) ∧ (¬P y → C y = B y)

namespace Rebuilds

variable {P Q : AccountId → Prop} {B C D : AccountId → Bonds}

theorem friends (h : Rebuilds P B C) (y : AccountId) : (C y).friends = (B y).friends := by
  by_cases hy : P y
  · rw [(h y).1 hy]
    rfl
  · rw [(h y).2 hy]

theorem waiting (h : Rebuilds P B C) (y : AccountId) : (C y).waiting = (B y).waiting := by
  by_cases hy : P y
  · rw [(h y).1 hy]
    rfl
  · rw [(h y).2 hy]

/-- Rebuilding second levels changes nothing that they are rebuilt from, so it may be done one
account after the other. -/
theorem trans (h1 : Rebuilds P B C) (h2 : Rebuilds Q C D) : Rebuilds (fun y => P y ∨ Q y) B D := by
  have hsame : ∀ y, Bonds.rebuild C y = Bonds.rebuild B y := by
    intro y
    rw [Bonds.rebuild, Bonds.rebuild, friendsOfFriends_congr h1.friends, h1.friends, h1.waiting]
  intro y
  constructor
  · intro hy
    by_cases hq : Q y
    · rw [(h2 y).1 hq, hsame]
    · rw [(h2 y).2 hq, (h1 y).1 (hy.resolve_right hq)]
  · intro hy
    rw [not_or] at hy
    rw [(h2 y).2 hy.2, (h1 y).2 hy.1]

theorem one (a : AccountId) : Rebuilds (· = a) B (Function.update B a (Bonds.rebuild B a)) := by
  intro y
  constructor
  · rintro rfl
    rw [Function.update_self]
  · exact fun hy => Function.update_of_ne hy _ _

end Rebuilds

/-! ## The programs -/

section Programs

variable {s s' : Database} {a x : AccountId}

theorem Database.bonds_of_find? {acct : AccountObject} (h : s.accounts.find? a = some acct) :
    s.bonds a = acct.bonds := by
  rw [Database.bonds, h, Option.elim_some]

/-- Overwriting an account overwrites the bonds it stores, and those of nobody else. -/
theorem Database.bonds_update {acct b : AccountObject} (h : s.accounts.find? a = some acct) :
    Database.bonds { s with accounts := s.accounts.update a fun _ => b } =
      Function.update s.bonds a b.bonds := by
  funext x
  unfold Database.bonds
  rw [ObjectIndex.find?_update]
  by_cases hx : x = a
  · subst hx
    rw [if_pos rfl, h, Function.update_self]
    rfl
  · rw [if_neg hx, Function.update_of_ne hx]

theorem Database.bonds_update_same {acct b : AccountObject} (h : s.accounts.find? a = some acct)
    (hb : b.bonds = acct.bonds) :
    Database.bonds { s with accounts := s.accounts.update a fun _ => b } = s.bonds := by
  rw [Database.bonds_update h, hb, ← Database.bonds_of_find? h, Function.update_eq_self]

theorem Database.bonds_create {acct : AccountObject} (h : acct.bonds = {}) :
    Database.bonds { s with accounts := s.accounts.create acct } = s.bonds := by
  funext x
  unfold Database.bonds
  rw [ObjectIndex.find?_create]
  split
  case isTrue hx =>
    have hfree : s.accounts.find? x = none := hx ▸ s.accounts.find?_nextId
    rw [hfree, Option.elim_some, Option.elim_none, h]
  case isFalse => rfl

instance : Shareless (Fixing Database.bonds) where
  refl := Preorder₂.refl
  trans := Preorder₂.trans
  elsewhere ha _ := by
    unfold Fixing Database.bonds
    rw [ha]
  account ha _ hsocial _ := Database.bonds_update_same ha
    (congrArg (fun x => (⟨x.1.friends, x.1.secondLevel, x.1.waiting⟩ : Bonds)) hsocial)
  create _ _ hf hsl hw _ _ := Database.bonds_create (by
    unfold AccountProfile.bonds
    rw [hf, hsl, hw])
  shares ha _ hties := Database.bonds_update_same ha
    (congrArg (fun x => (⟨x.friends, x.secondLevel, x.waiting⟩ : Bonds)) hties)

theorem runs_modifyBonds {change : AccountProfile → Except Exn AccountProfile} {f : Bonds → Bonds}
    (hf : ∀ {p q}, change p = .ok q → q.bonds = f p.bonds)
    (h : Runs (modifyProfile a change) s () s') :
    s'.bonds = Function.update s.bonds a (f (s.bonds a)) := by
  obtain ⟨acct, p, hacct, hp, rfl⟩ := runs_modifyProfile.mp h
  rw [Database.bonds_update hacct, Database.bonds_of_find? hacct, ← hf hp]

theorem runs_recalculateScore (h : Runs (recalculateScore a) s () s') : s'.bonds = s.bonds :=
  Respects.rel (R := Fixing Database.bonds) h

theorem runs_addSecondLevel {friends : List AccountId} (h : Runs (addSecondLevel x friends) s () s')
    (y : AccountId) : s'.bonds y = if y ∈ friends then (s.bonds y).meet x else s.bonds y := by
  unfold addSecondLevel at h
  induction friends generalizing s with
  | nil =>
      obtain ⟨-, rfl⟩ := runs_pure.mp h
      rw [if_neg List.not_mem_nil]
  | cons f friends ih =>
      obtain ⟨⟨⟩, t, h1, h2⟩ := runs_bind.mp h
      obtain ⟨⟨⟩, u, hadd, hscore⟩ := runs_bind.mp h1
      have ht : t.bonds = Function.update s.bonds f ((s.bonds f).meet x) := by
        rw [runs_recalculateScore hscore]
        exact runs_modifyBonds (f := fun b => b.meet x) (fun hq => by cases hq; rfl) hadd
      rw [ih h2, ht]
      by_cases hy : y = f
      · subst hy
        rw [Function.update_self, if_pos List.mem_cons_self]
        split
        · -- met twice: the second time it is there already
          rw [Bonds.meet, Bonds.meet, insertId_of_mem (mem_insertId.mpr (.inr rfl))]
        · rfl
      · rw [Function.update_of_ne hy]
        simp only [List.mem_cons, hy, false_or]

theorem runs_befriend {other : AccountId} (h : Runs (befriend a other) s () s') :
    s'.bonds = Function.update s.bonds a
      (Bonds.befriend { s.bonds a with waiting := (s.bonds a).waiting.erase other } a other
        (s.bonds other).friends) := by
  simp only [befriend, runs_bind_get] at h
  obtain ⟨o, ho, h⟩ := h
  obtain ⟨⟨⟩, t, hput, hscore⟩ := runs_bind.mp h
  have ho : s.accounts.find? other = some o := ho
  rw [runs_recalculateScore hscore, Database.bonds_of_find? ho]
  exact runs_modifyBonds
    (f := fun b => Bonds.befriend { b with waiting := b.waiting.erase other } a other o.friends)
    (fun hq => by cases hq; rfl) hput

theorem runs_befriendBack {other : AccountId} (h : Runs (befriendBack a other) s () s') :
    s'.bonds = Function.update s.bonds a
      ((s.bonds a).befriend a other (s.bonds other).friends) := by
  simp only [befriendBack, runs_bind_get] at h
  obtain ⟨o, ho, h⟩ := h
  obtain ⟨⟨⟩, t, hput, hscore⟩ := runs_bind.mp h
  have ho : s.accounts.find? other = some o := ho
  rw [runs_recalculateScore hscore, Database.bonds_of_find? ho]
  exact runs_modifyBonds (f := fun b => b.befriend a other o.friends)
    (fun hq => by cases hq; rfl) hput

theorem runs_rebuildSecondLevel (h : Runs (rebuildSecondLevel a) s () s') :
    Rebuilds (· = a) s.bonds s'.bonds := by
  simp only [rebuildSecondLevel, runs_bind_get] at h
  obtain ⟨acct, hacct, h⟩ := h
  obtain ⟨second, t, hfold, hput⟩ := runs_bind.mp h
  have hacct : s.accounts.find? a = some acct := hacct
  have hcollect : t = s ∧
      second = acct.friends.foldl (fun l f => insertIds l (s.bonds f).friends) [] := by
    -- reading the friends' friends changes nothing
    clear hput h hacct
    generalize acct.friends = fs at hfold
    generalize ([] : List AccountId) = l at hfold
    induction fs generalizing l with
    | nil =>
        obtain ⟨rfl, rfl⟩ := runs_pure.mp hfold
        exact ⟨rfl, rfl⟩
    | cons f fs ih =>
        rw [List.foldlM_cons, runs_bind] at hfold
        obtain ⟨l', u, hone, hfold⟩ := hfold
        simp only [runs_bind_get, runs_pure] at hone
        obtain ⟨friend, hfriend, rfl, rfl⟩ := hone
        have hfriend : u.accounts.find? f = some friend := hfriend
        rw [List.foldl_cons, Database.bonds_of_find? hfriend]
        exact ih _ hfold
  obtain ⟨rfl, rfl⟩ := hcollect
  have hsecond : friendsOfFriends t.bonds a =
      (acct.friends.foldl (fun l f => insertIds l (t.bonds f).friends) []).erase a := by
    rw [friendsOfFriends, Database.bonds_of_find? hacct]
    rfl
  have hbonds : s'.bonds = Function.update t.bonds a (Bonds.rebuild t.bonds a) := by
    rw [Bonds.rebuild, hsecond]
    exact runs_modifyBonds (f := fun b => { b with secondLevel := _ }) (fun hq => by cases hq; rfl) hput
  rw [hbonds]
  exact Rebuilds.one a

theorem runs_rebuildFriends (h : Runs (rebuildFriends a) s () s') :
    Rebuilds (· ∈ (s.bonds a).friends) s.bonds s'.bonds := by
  simp only [rebuildFriends, runs_bind_get] at h
  obtain ⟨acct, hacct, h⟩ := h
  replace hacct : s.accounts.find? a = some acct := hacct
  rw [show (s.bonds a).friends = acct.friends by rw [Database.bonds_of_find? hacct]; rfl]
  clear hacct
  generalize acct.friends = fs at h
  induction fs generalizing s with
  | nil =>
      obtain ⟨-, rfl⟩ := runs_pure.mp h
      exact fun y => ⟨fun hy => absurd hy List.not_mem_nil, fun _ => rfl⟩
  | cons f fs ih =>
      obtain ⟨⟨⟩, t, h1, h2⟩ := runs_bind.mp h
      obtain ⟨⟨⟩, u, hrebuild, hscore⟩ := runs_bind.mp h1
      have ht : Rebuilds (· = f) s.bonds t.bonds := by
        rw [runs_recalculateScore hscore]
        exact runs_rebuildSecondLevel hrebuild
      simp only [List.mem_cons]
      exact ht.trans (ih h2)

end Programs

/-! ## One step of the graph -/

namespace Bonds.Graph

variable {B D E F C : AccountId → Bonds} {a b : AccountId}

/-- Whoever stores what the circle after a step says, stores a graph again. -/
theorem of_circle {c : Circle AccountId} (hsets : ∀ x, (C x).Sets) (hsound : c.Sound)
    (hfriend : ∀ x y, y ∈ (C x).friends ↔ c.friend x y)
    (hasked : ∀ x y, y ∈ (C x).waiting ↔ c.asked x y)
    (hsecond : ∀ x y, y ∈ (C x).secondLevel ↔ c.second x y) :
    Bonds.Graph C ∧ circleOf C = c := by
  have hcircle : circleOf C = c :=
    Circle.ext (funext fun x => funext fun y => propext (hfriend x y))
      (funext fun x => funext fun y => propext (hasked x y))
  refine ⟨⟨hsets, ?_, ?_⟩, hcircle⟩
  · rw [hcircle]
    exact hsound
  · intro x y
    rw [hcircle]
    exact hsecond x y

/-- A request that waits at `b` is what asking adds to the circle. -/
theorem ask (h : Bonds.Graph B) (hf : ¬(circleOf B).friend a b) (hask : ¬(circleOf B).asked a b)
    (hC : C = Function.update B b { B b with waiting := insertId (B b).waiting a }) :
    Bonds.Graph C ∧ circleOf C = (circleOf B).ask a b := by
  subst hC
  have hsets : Bonds.Sets { B b with waiting := insertId (B b).waiting a } :=
    ⟨(h.sets b).friends, (h.sets b).secondLevel, sorted_insertId (h.sets b).waiting a⟩
  refine of_circle (Bonds.Sets.update h.sets hsets b) (h.sound.ask hf hask) ?_ ?_ ?_
  all_goals
    intro x y
    by_cases hx : x = b
  · subst hx
    rw [Function.update_self]
    exact Iff.rfl
  · rw [Function.update_of_ne hx]
    exact Iff.rfl
  · subst hx
    rw [Function.update_self, mem_insertId]
    simp only [Circle.ask, circleOf, true_and]
  · rw [Function.update_of_ne hx]
    simp only [Circle.ask, circleOf, hx, false_and, or_false]
  · subst hx
    rw [Function.update_self, Circle.second_ask, ← h.second]
  · rw [Function.update_of_ne hx, Circle.second_ask, ← h.second]

/-- A request that is taken back or refused is what the circle forgets. -/
theorem forget (h : Bonds.Graph B)
    (hC : C = Function.update B a { B a with waiting := (B a).waiting.erase b }) :
    Bonds.Graph C ∧ circleOf C = (circleOf B).forget a b := by
  subst hC
  refine of_circle (Bonds.Sets.update h.sets ((h.sets a).forget b) a) (h.sound.forget a b) ?_ ?_ ?_
  all_goals
    intro x y
    by_cases hx : x = a
  · subst hx
    rw [Function.update_self]
    exact Iff.rfl
  · rw [Function.update_of_ne hx]
    exact Iff.rfl
  · subst hx
    rw [Function.update_self, mem_erase_sorted (h.sets x).waiting, and_comm]
    simp only [Circle.forget, circleOf, true_and, ne_eq]
  · rw [Function.update_of_ne hx]
    simp only [Circle.forget, circleOf, hx, false_and, not_false_eq_true, and_true]
  · subst hx
    rw [Function.update_self, Circle.second_forget, ← h.second]
  · rw [Function.update_of_ne hx, Circle.second_forget, ← h.second]

/-- The neighbours of `a` and `b` have learned of the other of the two, and nothing else has changed. -/
structure Introduced (a b : AccountId) (B E : AccountId → Bonds) : Prop where
  friends : ∀ y, (E y).friends = (B y).friends
  waiting : ∀ y, (E y).waiting = (B y).waiting
  sets : ∀ y, (E y).Sets
  second : ∀ y x, x ∈ (E y).secondLevel ↔
    x ∈ (B y).secondLevel ∨ x = a ∧ y ∈ (B b).friends ∨ x = b ∧ y ∈ (B a).friends

theorem introduced (h : Bonds.Graph B)
    (h1 : ∀ y, D y = if y ∈ (B b).friends then (B y).meet a else B y)
    (h2 : ∀ y, E y = if y ∈ (B a).friends then (D y).meet b else D y) : Introduced a b B E where
  friends y := by
    rw [h2, h1]
    split <;> split <;> rfl
  waiting y := by
    rw [h2, h1]
    split <;> split <;> rfl
  sets y := by
    have hone : (D y).Sets := by
      rw [h1]
      split
      · exact (h.sets y).meet a
      · exact h.sets y
    rw [h2]
    split
    · exact hone.meet b
    · exact hone
  second y x := by
    have hone : x ∈ (D y).secondLevel ↔ x ∈ (B y).secondLevel ∨ x = a ∧ y ∈ (B b).friends := by
      rw [h1]
      split
      case isTrue hy => rw [Bonds.meet, mem_insertId, and_iff_left hy]
      case isFalse hy => simp only [hy, and_false, or_false]
    rw [h2]
    split
    case isTrue hy => rw [Bonds.meet, mem_insertId, hone, and_iff_left hy, or_assoc]
    case isFalse hy => simp only [hone, hy, and_false, or_false]

/-- Nobody is on the second level of its own account. -/
theorem ne_of_second (h : Bonds.Graph B) (y x : AccountId) : ¬x ∈ (B y).secondLevel ∨ x ≠ y := by
  by_cases hx : x ∈ (B y).secondLevel
  · exact .inr ((h.second y x).mp hx).1
  · exact .inl hx

/-- **A request that is accepted**: `b` asked, and `a` says yes. The neighbours of both learn of
the other, then `a` takes over the friends of `b`, then `b` those of `a`. -/
theorem accept (h : Bonds.Graph B) (hab : a ≠ b) (hf : ¬(circleOf B).friend a b)
    (hback : ¬(circleOf B).asked b a) (hE : Introduced a b B E)
    (h3 : F = Function.update E a
      (Bonds.befriend { E a with waiting := (E a).waiting.erase b } a b (E b).friends))
    (h4 : C = Function.update F b ((F b).befriend b a (F a).friends)) :
    Bonds.Graph C ∧ circleOf C = ((circleOf B).forget a b).link a b := by
  have hba : b ∉ (B a).friends := hf
  have hab' : a ∉ (B b).friends := fun hm => hf (h.sound.symm hm)
  have haa : a ∉ (B a).friends := h.sound.irrefl a
  have hbb : b ∉ (B b).friends := h.sound.irrefl b
  -- the two of them
  have hCa : C a = Bonds.befriend { E a with waiting := (E a).waiting.erase b } a b (E b).friends := by
    rw [h4, Function.update_of_ne hab, h3, Function.update_self]
  have hCb : C b = (E b).befriend b a (insertId (E a).friends b) := by
    rw [h4, Function.update_self, h3, Function.update_of_ne hab.symm, Function.update_self]
    rfl
  have hC : ∀ y, y ≠ a → y ≠ b → C y = E y := by
    intro y ha hb
    rw [h4, Function.update_of_ne hb, h3, Function.update_of_ne ha]
  refine of_circle ?_ ?_ ?_ ?_ ?_
  · intro y
    by_cases hya : y = a
    · subst hya
      rw [hCa]
      exact ((hE.sets y).forget b).befriend y b _
    · by_cases hyb : y = b
      · subst hyb
        rw [hCb]
        exact (hE.sets y).befriend y a _
      · rw [hC y hya hyb]
        exact hE.sets y
  · exact (h.sound.forget a b).link hab (fun hxy => hxy.2 ⟨rfl, rfl⟩) fun hxy => hback hxy.1
  · intro y x
    simp only [Circle.link, Circle.forget, circleOf]
    by_cases hya : y = a
    · subst hya
      rw [hCa, Bonds.befriend, mem_insertId, hE.friends]
      simp only [true_and, hab, false_and, or_false]
    · by_cases hyb : y = b
      · subst hyb
        rw [hCb, Bonds.befriend, mem_insertId, hE.friends]
        simp only [hya, false_and, true_and, false_or]
      · rw [hC y hya hyb, hE.friends]
        simp only [hya, hyb, false_and, or_false]
  · intro y x
    simp only [Circle.link, Circle.forget, circleOf]
    by_cases hya : y = a
    · subst hya
      rw [hCa, Bonds.befriend, hE.waiting, mem_erase_sorted (h.sets y).waiting, and_comm]
      simp only [true_and, ne_eq]
    · by_cases hyb : y = b
      · subst hyb
        rw [hCb, Bonds.befriend, hE.waiting]
        simp only [hya, false_and, not_false_eq_true, and_true]
      · rw [hC y hya hyb, hE.waiting]
        simp only [hya, false_and, not_false_eq_true, and_true]
  · intro y x
    have hlink := (h.sound.forget a b).second_link (x := y) (y := x) hab hf
    have hself := h.ne_of_second y x
    rw [hlink, Circle.second_forget, ← h.second]
    simp only [Circle.forget, circleOf]
    by_cases hya : y = a
    · subst hya
      rw [hCa, Bonds.befriend, mem_erase_sorted (sorted_insertIds (hE.sets y).secondLevel _),
        mem_insertIds, hE.second, hE.friends]
      grind
    · by_cases hyb : y = b
      · subst hyb
        rw [hCb, Bonds.befriend, mem_erase_sorted (sorted_insertIds (hE.sets y).secondLevel _),
          mem_insertIds, mem_insertId, hE.second, hE.friends]
        grind
      · rw [hC y hya hyb, hE.second]
        simp only [hya, hyb, false_and, or_false]

/-- **A friendship that ends**: both drop the other, and the second level of the two and of all
their remaining friends is rebuilt. -/
theorem part (h : Bonds.Graph B) (hab : a ≠ b) (h1 : D = Function.update B b ((B b).unfriend a))
    (h2 : E = Function.update D a ((D a).unfriend b))
    (h3 : Rebuilds (fun y => y = a ∨ y = b ∨ y ∈ (E a).friends ∨ y ∈ (E b).friends) E C) :
    Bonds.Graph C ∧ circleOf C = (circleOf B).part a b := by
  have hEa : E a = (B a).unfriend b := by
    rw [h2, Function.update_self, h1, Function.update_of_ne hab]
  have hEb : E b = (B b).unfriend a := by
    rw [h2, Function.update_of_ne hab.symm, h1, Function.update_self]
  have hE : ∀ y, y ≠ a → y ≠ b → E y = B y := by
    intro y ha hb
    rw [h2, Function.update_of_ne ha, h1, Function.update_of_ne hb]
  -- behind the two changes friends are those of the parted circle; what was rebuilt comes after
  have hfriends : ∀ y x, x ∈ (E y).friends ↔ ((circleOf B).part a b).friend y x := by
    intro y x
    simp only [Circle.part, circleOf]
    by_cases hya : y = a
    · subst hya
      rw [hEa, Bonds.unfriend, mem_erase_sorted (h.sets y).friends, and_comm]
      simp only [true_and, hab, false_and, not_false_eq_true, and_true, ne_eq]
    · by_cases hyb : y = b
      · subst hyb
        rw [hEb, Bonds.unfriend, mem_erase_sorted (h.sets y).friends, and_comm]
        simp only [true_and, hya, false_and, not_false_eq_true, ne_eq]
      · rw [hE y hya hyb]
        simp only [hya, hyb, false_and, not_false_eq_true, and_true]
  have hwaiting : ∀ y, (E y).waiting = (B y).waiting := by
    intro y
    by_cases hya : y = a
    · rw [hya, hEa]
      rfl
    · by_cases hyb : y = b
      · rw [hyb, hEb]
        rfl
      · rw [hE y hya hyb]
  have hsets : ∀ y, (E y).Sets := by
    intro y
    rw [h2, h1]
    exact Bonds.Sets.update (Bonds.Sets.update h.sets ((h.sets b).unfriend a) b)
      ((Bonds.Sets.update h.sets ((h.sets b).unfriend a) b a).unfriend b) a y
  have hsecond : ∀ y x, x ∈ friendsOfFriends E y ↔ ((circleOf B).part a b).second y x := by
    intro y x
    rw [mem_friendsOfFriends, Circle.second]
    simp only [hfriends]
  refine of_circle ?_ (h.sound.part a b) ?_ ?_ ?_
  · intro y
    by_cases hy : y = a ∨ y = b ∨ y ∈ (E a).friends ∨ y ∈ (E b).friends
    · rw [(h3 y).1 hy]
      exact Bonds.Sets.rebuild hsets y
    · rw [(h3 y).2 hy]
      exact hsets y
  · intro y x
    rw [h3.friends, hfriends]
  · intro y x
    rw [h3.waiting, hwaiting]
    exact Iff.rfl
  · intro y x
    by_cases hy : y = a ∨ y = b ∨ y ∈ (E a).friends ∨ y ∈ (E b).friends
    · rw [(h3 y).1 hy]
      exact hsecond y x
    · -- whoever is not rebuilt is no friend of the two, and knew nobody through them
      rw [(h3 y).2 hy]
      simp only [not_or] at hy
      obtain ⟨hya, hyb, hfa, hfb⟩ := hy
      rw [hfriends] at hfa hfb
      rw [hE y hya hyb, h.second]
      refine (h.sound.second_part hya hyb ?_ ?_).symm
      · exact fun hf => hfa ⟨hf, fun he => hyb he.2, fun he => hya he.2⟩
      · exact fun hf => hfb ⟨hf, fun he => hyb he.2, fun he => hya he.2⟩

end Bonds.Graph

/-! ## The evaluators -/

section Evaluators

variable {s s' : Database} {who whom : String}

theorem friend_iff {a x : AccountId} {acct : AccountObject} (h : s.accounts.find? a = some acct) :
    (circleOf s.bonds).friend a x ↔ x ∈ acct.friends := by
  show x ∈ (s.bonds a).friends ↔ _
  rw [Database.bonds_of_find? h]
  exact Iff.rfl

theorem asked_iff {a x : AccountId} {acct : AccountObject} (h : s.accounts.find? a = some acct) :
    (circleOf s.bonds).asked a x ↔ x ∈ acct.waiting := by
  show x ∈ (s.bonds a).waiting ↔ _
  rw [Database.bonds_of_find? h]
  exact Iff.rfl

/-- **A friendship operation** is a request of the circle, or the answer to one. -/
theorem runs_friendshipEvaluator (hs : Bonds.Graph s.bonds)
    (h : Runs (friendshipEvaluator who whom) s () s') :
    ∃ a b : Nat × AccountObject, s.accountNamed who = some a ∧ s.accountNamed whom = some b ∧
      Bonds.Graph s'.bonds ∧ circleOf s'.bonds = (circleOf s.bonds).request a.1 b.1 := by
  simp only [friendshipEvaluator, runs_bind_getAccount] at h
  obtain ⟨a, ha, b, hb, h⟩ := h
  refine ⟨_, _, ha, hb, ?_⟩
  have hfa : s.accounts.find? a.id = some a.val := (ObjectIndex.find?_of_findBy? ha).1
  have hfb : s.accounts.find? b.id = some b.val := (ObjectIndex.find?_of_findBy? hb).1
  rcases runs_ite.mp h with ⟨hclosed, h⟩ | ⟨hopen, h⟩
  · rw [← friend_iff hfa, ← asked_iff hfb] at hclosed
    obtain ⟨-, rfl⟩ := runs_pure.mp h
    rw [Circle.request, if_pos hclosed]
    exact ⟨hs, rfl⟩
  rw [← friend_iff hfa, ← asked_iff hfb] at hopen
  rw [Circle.request, if_neg hopen]
  rw [not_or] at hopen
  rcases runs_ite.mp h with ⟨hanswer, h⟩ | ⟨hfirst, h⟩
  · rw [← asked_iff hfa] at hanswer
    have hab : a.id ≠ b.id := fun he => hopen.2 (he ▸ hanswer)
    rw [if_pos hanswer]
    obtain ⟨⟨⟩, t1, h1, h⟩ := runs_bind.mp h
    obtain ⟨⟨⟩, t2, h2, h⟩ := runs_bind.mp h
    obtain ⟨⟨⟩, t3, h3, h4⟩ := runs_bind.mp h
    refine hs.accept hab hopen.1 hopen.2 (hs.introduced (D := t1.bonds) (fun y => ?_) fun y => ?_)
      (runs_befriend h3) (runs_befriendBack h4)
    · rw [Database.bonds_of_find? hfb]
      exact runs_addSecondLevel h1 y
    · rw [Database.bonds_of_find? hfa]
      exact runs_addSecondLevel h2 y
  · rw [← asked_iff hfa] at hfirst
    rw [if_neg hfirst]
    exact hs.ask hopen.1 hfirst (runs_modifyBonds
      (f := fun x => { x with waiting := insertId x.waiting a.id }) (fun hq => by cases hq; rfl) h)

/-- **An unfriend operation** is a cancellation of the circle: of a friendship, or of a request. -/
theorem runs_unfriendEvaluator (hs : Bonds.Graph s.bonds)
    (h : Runs (unfriendEvaluator who whom) s () s') :
    ∃ a b : Nat × AccountObject, s.accountNamed who = some a ∧ s.accountNamed whom = some b ∧
      Bonds.Graph s'.bonds ∧ circleOf s'.bonds = (circleOf s.bonds).cancel a.1 b.1 := by
  simp only [unfriendEvaluator, runs_bind_getAccount] at h
  obtain ⟨a, ha, b, hb, h⟩ := h
  refine ⟨_, _, ha, hb, ?_⟩
  have hfa : s.accounts.find? a.id = some a.val := (ObjectIndex.find?_of_findBy? ha).1
  have hfb : s.accounts.find? b.id = some b.val := (ObjectIndex.find?_of_findBy? hb).1
  rcases runs_ite.mp h with ⟨hback, h⟩ | ⟨hback, h⟩
  · rw [← asked_iff hfb] at hback
    rw [Circle.cancel, if_pos hback]
    exact hs.forget (runs_modifyBonds (f := fun x => { x with waiting := x.waiting.erase a.id })
      (fun hq => by cases hq; rfl) h)
  rw [← asked_iff hfb] at hback
  rw [Circle.cancel, if_neg hback]
  rcases runs_ite.mp h with ⟨hahead, h⟩ | ⟨hahead, h⟩
  · rw [← asked_iff hfa] at hahead
    rw [if_pos hahead]
    exact hs.forget (runs_modifyBonds (f := fun x => { x with waiting := x.waiting.erase b.id })
      (fun hq => by cases hq; rfl) h)
  rw [← asked_iff hfa] at hahead
  rw [if_neg hahead]
  rcases runs_whenM.mp h with ⟨hfriends, h⟩ | ⟨hapart, rfl⟩
  · have hfriends : (circleOf s.bonds).friend b.id a.id := (friend_iff hfb).mpr (of_decide_eq_true hfriends)
    have hab : a.id ≠ b.id := fun he => hs.sound.irrefl a.id (by rwa [← he] at hfriends)
    obtain ⟨⟨⟩, t1, h1, h⟩ := runs_bind.mp h
    obtain ⟨⟨⟩, t2, h2, h⟩ := runs_bind.mp h
    obtain ⟨⟨⟩, t3, h3, h⟩ := runs_bind.mp h
    obtain ⟨⟨⟩, t4, h4, h⟩ := runs_bind.mp h
    obtain ⟨⟨⟩, t5, h5, h⟩ := runs_bind.mp h
    obtain ⟨⟨⟩, t6, h6, h⟩ := runs_bind.mp h
    obtain ⟨⟨⟩, t7, h7, h8⟩ := runs_bind.mp h
    refine hs.part hab (D := t1.bonds) (E := t2.bonds)
      (runs_modifyBonds (f := fun x => x.unfriend a.id) (fun hq => by cases hq; rfl) h1)
      (runs_modifyBonds (f := fun x => x.unfriend b.id) (fun hq => by cases hq; rfl) h2) ?_
    have hscores : t6.bonds = t4.bonds :=
      (runs_recalculateScore h6).trans (runs_recalculateScore h5)
    have r2 := (runs_rebuildSecondLevel h3).trans (runs_rebuildSecondLevel h4)
    have r3 := runs_rebuildFriends h7
    rw [hscores, r2.friends] at r3
    have r4 := runs_rebuildFriends h8
    rw [r3.friends, r2.friends] at r4
    simpa only [or_assoc] using (r2.trans r3).trans r4
  · -- nothing to end
    have hapart : ¬(circleOf s'.bonds).friend b.id a.id := by
      rw [friend_iff hfb]
      exact of_decide_eq_false hapart
    rw [hs.sound.part_of_not_friend (fun hf => hapart (hs.sound.symm hf))]
    exact ⟨hs, rfl⟩

end Evaluators

/-! ## Everything else -/

section Rest

instance : ownerAuthorityHistoryIndex.Beside (Fixing Database.bonds) := ⟨fun _ _ => rfl⟩
instance : accountRecoveryRequestIndex.Beside (Fixing Database.bonds) := ⟨fun _ _ => rfl⟩
instance : changeRecoveryAccountRequestIndex.Beside (Fixing Database.bonds) := ⟨fun _ _ => rfl⟩

instance (recoveryAccount : AccountProfile → String) (lastAccountRecovery : AccountProfile → TimePointSec) :
    Keeps AccountProfile.bonds fun p => .ok { p with
      recoveryAccount := recoveryAccount p, lastAccountRecovery := lastAccountRecovery p } :=
  ⟨fun hq => by
    cases hq
    rfl⟩

instance (priority := low) (id : AccountId) (change : AccountProfile → Except Exn AccountProfile)
    [h : Keeps AccountProfile.bonds change] : Respects (Fixing Database.bonds) (modifyProfile id change) :=
  ⟨fun hr => by
    obtain ⟨a, p, ha, hp, rfl⟩ := runs_modifyProfile.mp hr
    exact Database.bonds_update_same ha (h.keeps hp)⟩

instance (change : DynamicGlobalPropertyObject → Except Exn DynamicGlobalPropertyObject) :
    Respects (Fixing Database.bonds) (modifyDgpo change) :=
  ⟨fun hr => by
    obtain ⟨_, -, rfl⟩ := runs_modifyDgpo.mp hr
    rfl⟩

instance (n : UInt32) (time : TimePointSec) : Respects (Fixing Database.bonds) (setClock n time) := by
  unfold setClock
  infer_instance

instance : Respects (Fixing Database.bonds) accountRecoveryProcessing := by
  unfold accountRecoveryProcessing
  infer_instance

variable [Externals] {s s' : Database}

/-- No other evaluator touches the friends, their friends or the requests of an account. -/
theorem evaluate_bonds {push : Nat → DbM Unit} {op : Operation} (hplain : op.isProposalUpdate = false)
    (hties : op.touchesTies = false) (h : Runs (evaluate push op) s () s') : s'.bonds = s.bonds := by
  have hrespects : Respects (Fixing Database.bonds) (evaluate push op) := by
    cases hrecovery : op.touchesRecovery with
    | false => exact respects_evaluate hplain hties hrecovery
    | true =>
        cases op <;> first | exact (Bool.false_ne_true hrecovery).elim | skip
        case accountUpdate =>
          unfold evaluate accountUpdateEvaluator updateOwnerAuthority
          infer_instance
        case requestAccountRecovery =>
          unfold evaluate requestAccountRecoveryEvaluator
          infer_instance
        case recoverAccount =>
          unfold evaluate recoverAccountEvaluator updateOwnerAuthority
          infer_instance
        case changeRecoveryAccount =>
          unfold evaluate changeRecoveryAccountEvaluator
          infer_instance
  exact hrespects.rel h

/-- What a call does to the circle: only the two operations on friendships do anything. -/
noncomputable def Call.meet (c : Circle AccountId) (call : Call) : Circle AccountId :=
  match call.op with
  | .friendship who whom =>
      (call.state.accountNamed who).elim c fun a =>
        (call.state.accountNamed whom).elim c fun b => c.request a.1 b.1
  | .unfriend who whom =>
      (call.state.accountNamed who).elim c fun a =>
        (call.state.accountNamed whom).elim c fun b => c.cancel a.1 b.1
  | _ => c

/-- The friends stay a graph, whose circle has gone through the listed calls. -/
def Meets (s : Database) (l : List Call) (s' : Database) : Prop :=
  Bonds.Graph s.bonds → Bonds.Graph s'.bonds ∧ circleOf s'.bonds = l.foldl Call.meet (circleOf s.bonds)

omit [Externals] in
theorem Meets.of_bonds (h : s'.bonds = s.bonds) : Meets s [] s' := by
  intro hs
  rw [h]
  exact ⟨hs, rfl⟩

omit [Externals] in
theorem traces_meets : Traces Meets where
  pending _ _ := .of_bonds rfl
  append h1 h2 hs := by
    obtain ⟨ht, hc⟩ := h1 hs
    obtain ⟨hu, hc'⟩ := h2 ht
    refine ⟨hu, ?_⟩
    rw [hc', hc, List.foldl_append]
  update h hs := h hs

/-- **One evaluator call** does to the circle what its operation asks for, and nothing besides. -/
theorem evaluate_meets {push : Nat → DbM Unit} {op : Operation} (hplain : op.isProposalUpdate = false)
    (h : Runs (evaluate push op) s () s') : Meets s [⟨s, op⟩] s' := by
  intro hs
  cases hties : op.touchesTies with
  | false =>
      have hbonds := evaluate_bonds hplain hties h
      rw [hbonds]
      refine ⟨hs, ?_⟩
      cases op <;> first | rfl | exact (Bool.false_ne_true hties.symm).elim
  | true =>
      cases op <;> first | exact (Bool.false_ne_true hties).elim | skip
      case friendship who whom =>
        obtain ⟨a, b, ha, hb, hgraph, hcircle⟩ := runs_friendshipEvaluator hs h
        refine ⟨hgraph, ?_⟩
        rw [hcircle, List.foldl_cons, List.foldl_nil, Call.meet]
        simp only [ha, hb, Option.elim_some]
      case unfriend who whom =>
        obtain ⟨a, b, ha, hb, hgraph, hcircle⟩ := runs_unfriendEvaluator hs h
        refine ⟨hgraph, ?_⟩
        rw [hcircle, List.foldl_cons, List.foldl_nil, Call.meet]
        simp only [ha, hb, Option.elim_some]

/-- **One move** does to the circle what its calls ask for, one after the other. -/
theorem Move.meets {m : Move} (hv : ProposalsValid s) (h : Runs m.run s () s') :
    Meets s (m.calls s) s' :=
  (Move.run_trace traces_meets (fun _ _ _ _ hplain _ hr => evaluate_meets hplain hr)
    (fun _ _ _ hr => .of_bonds (Respects.rel (R := Fixing Database.bonds) hr))
    (fun _ _ _ hr => .of_bonds (Respects.rel (R := Fixing Database.bonds) hr))
    (fun _ _ _ hr => .of_bonds (Respects.rel (R := Fixing Database.bonds) hr))
    (fun _ _ hr => .of_bonds (Respects.rel (R := Fixing Database.bonds) hr)) hv h).1

/-- Genesis knows no friends: the accounts it creates store none, and no request waits. -/
theorem initGenesis_bonds {g : GenesisState} (h : Runs (initGenesis g) {} () s) :
    s.bonds = fun _ => {} := by
  have haccounts : ∀ o, Respects (Fixing Database.bonds) (accountCreateEvaluator o) :=
    fun o => (respects_evaluate rfl rfl rfl : Respects (Fixing Database.bonds)
      (evaluate (fun _ => pure ()) (.accountCreate o)))
  have hfresh : ∀ acct : AccountObject, acct.bonds = {} →
      Respects (Fixing Database.bonds) (accountIndex.create acct) := by
    intro acct hacct
    constructor
    intro s _ _ hr
    rw [(Table.runs_create.mp hr).2.2]
    exact Database.bonds_create hacct
  have hminer : ∀ name balance, Respects (Fixing Database.bonds) (createInitMiner name balance) := by
    intro name balance
    have hcreate : ∀ auth, Respects (Fixing Database.bonds) (accountIndex.create
        { name, owner := auth, active := auth, basic := auth, memoKey := BTCM_INIT_PUBLIC_KEY,
          balance }) := fun auth => hfresh _ rfl
    unfold createInitMiner
    infer_instance
  have hrespects : Respects (Fixing Database.bonds) (initGenesis g) := by
    have := hfresh (keylessAccount "miners" 1) rfl
    have := hfresh (keylessAccount "null" 1) rfl
    have := hfresh (keylessAccount "temp" 0) rfl
    unfold initGenesis importAsset importBalance importVesting
    infer_instance
  exact hrespects.rel h

/-- **The friendship graph**: in every reachable state friendship is mutual, nobody is its own
friend, no friend's request waits, and the second level of every account is exactly its friends'
friends without itself. -/
theorem friendship_graph (h : Reachable s) : Bonds.Graph s.bonds := by
  induction h with
  | genesis hg =>
      rw [initGenesis_bonds hg]
      refine ⟨fun _ => ⟨.nil, .nil, .nil⟩, ?_, ?_⟩
      · exact ⟨fun h => absurd h List.not_mem_nil, fun _ => List.not_mem_nil,
          fun h => absurd h List.not_mem_nil, fun h => absurd h List.not_mem_nil⟩
      · exact fun a x => ⟨fun h => absurd h List.not_mem_nil,
          fun h => absurd h.2.choose_spec.1 List.not_mem_nil⟩
  | move hs _ hm ih =>
      have hs : Reachable _ := hs
      exact (Move.meets hs.proposalsValid hm ih).1

/-- **Friendships change by consent**: along every move, friends and waiting requests change
exactly as the friendship and unfriend operations it applies say, in their order; those of a
proposal included, and nothing else changes them. -/
theorem friendships_by_consent {m : Move} (hs : Reachable s) (h : Runs m.run s () s') :
    circleOf s'.bonds = (m.calls s).foldl Call.meet (circleOf s.bonds) :=
  (Move.meets hs.proposalsValid h (friendship_graph hs)).2

end Rest

section Samples

open Sample

/-- The witnesses of genesis become friends of the first of them, one after the other. -/
def meetTheMiners : DbM Unit := do
  initGenesis {}
  (Move.operation (.friendship "initminer1" "initminer")).run
  (Move.operation (.friendship "initminer" "initminer1")).run
  (Move.operation (.friendship "initminer2" "initminer")).run
  (Move.operation (.friendship "initminer" "initminer2")).run

/-- The other two, who have not asked each other, are then on each other's second level. -/
theorem friendship_graph_miners : ∃ s, Reachable s ∧ 4 ∈ (s.bonds 3).friends ∧
    5 ∈ (s.bonds 3).friends ∧ 4 ∈ (s.bonds 5).secondLevel := by
  have hrun : leadsTo meetTheMiners {} (fun s =>
      decide (4 ∈ (s.bonds 3).friends ∧ 5 ∈ (s.bonds 3).friends)) = true := by
    decide +kernel
  obtain ⟨s, hs, hfriends⟩ := leadsTo_iff.mp hrun
  obtain ⟨h4, h5⟩ := of_decide_eq_true hfriends
  have hreach : Reachable s := by
    simp only [meetTheMiners, runs_bind] at hs
    obtain ⟨_, t, hg, _, t1, h1, _, t2, h2, _, t3, h3, h4⟩ := hs
    have hr : Reachable t := .genesis hg
    exact (((hr.move h1).move h2).move h3).move h4
  have hgraph := friendship_graph hreach
  refine ⟨s, hreach, h4, h5, (hgraph.second 5 4).mpr ⟨by decide, 3, ?_, h4⟩⟩
  exact hgraph.sound.symm h5

/-- The first question is put and waits for an answer, with no friendship made by it. -/
theorem friendships_by_consent_asked : ∃ s s', Reachable s ∧
    Runs (Move.operation (.friendship "initminer1" "initminer")).run s () s' ∧
    circleOf s'.bonds = (circleOf s.bonds).request 4 3 := by
  have hrun : leadsTo (initGenesis {}) {} (fun s =>
      decide ((s.accountNamed "initminer1").map Prod.fst = some 4 ∧
        (s.accountNamed "initminer").map Prod.fst = some 3) &&
      leadsTo (Move.operation (.friendship "initminer1" "initminer")).run s fun _ => true) = true := by
    decide +kernel
  obtain ⟨s, hs, hrun⟩ := leadsTo_iff.mp hrun
  rw [Bool.and_eq_true] at hrun
  obtain ⟨hnames, hrun⟩ := hrun
  obtain ⟨s', hs', -⟩ := leadsTo_iff.mp hrun
  obtain ⟨ha, hb⟩ := of_decide_eq_true hnames
  obtain ⟨a, ha, ha4⟩ := Option.map_eq_some_iff.mp ha
  obtain ⟨b, hb, hb3⟩ := Option.map_eq_some_iff.mp hb
  refine ⟨s, s', .genesis hs, hs', ?_⟩
  rw [friendships_by_consent (.genesis hs) hs']
  show Call.meet (circleOf s.bonds) ⟨s, .friendship "initminer1" "initminer"⟩ = _
  simp only [Call.meet, ha, hb, Option.elim_some, ha4, hb3]

end Samples

end BtcmChain
