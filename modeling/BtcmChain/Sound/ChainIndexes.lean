import BtcmChain.Sound.Secondary

set_option autoImplicit false

/-!
# The secondary indexes of the chain mirror their objects

The listing of each of the four secondary indexes, and that its callbacks keep it. What
follows for runs is then the run theorem of `Sound.Secondary`; a proposal that is removed
and brought back by `undo` shows that its condition is needed.

A listing says under which keys an object stands and which modifications are followed, computed
from the object alone. `kept` says for each of the four that the callbacks keep the index equal to
its listing. Contents have two indexes, which are taken together (`Listing.both`), each with a
memory of what the object named before it is modified. `secondary_indexes_mirror` then has all four
for every run with the stated conditions.
-/

namespace BtcmChain

/-! ## Proposals by required approval -/

namespace RequiredApprovalIndex

/-- A proposal is listed under every account whose approval it needs; modifications that
change these accounts are not followed. -/
def listing : Listing ProposalObject RequiredApprovalIndex String ObjectId where
  keys p account := account ∈ approvers p
  label id _ := id
  holds x account id := (x.lookup account).has id = true
  follows p q := ∀ account, account ∈ approvers q ↔ account ∈ approvers p
  pending _ _ _ := True

theorem kept (index : Nat) : listing.Kept (callbacks index) where
  label_ne hne _ := hne
  label_follows _ := rfl
  inserted id p x := fun account n =>
    FlatMap.has_foldl_insertAt x.accountToProposals account id n (approvers p)
  removed id p x := fun account n =>
    FlatMap.has_foldl_erase x.accountToProposals account id n FlatMap.has_eraseOrDrop (approvers p)
  about _ _ _ := ⟨trivial, fun _ _ => Iff.rfl⟩
  modified id p q x _ hf hlisted := by
    intro account n
    show listing.holds x account n ↔ _
    have hsame : listing.Gives id q account n ↔ listing.Gives id p account n :=
      and_congr_right fun _ => hf account
    have hold : listing.Gives id p account n → listing.holds x account n := by
      rintro ⟨rfl, hk⟩
      exact hlisted account hk
    rw [hsame]
    tauto

end RequiredApprovalIndex

/-! ## Accounts by who may sign for them -/

namespace AccountMemberIndex

/-- An account is listed, with its name, under the accounts and the keys it names; a change
of the name is not followed. -/
def listing : Listing AccountObject AccountMemberIndex (String ⊕ PublicKey) String where
  keys a := Sum.elim (fun account => (getAccountMembers a).has account = true)
    fun key => (getKeyMembers a).has key = true
  label _ a := a.name
  holds x := Sum.elim (fun account n => (x.accountToAccountMemberships.setAt account).has n = true)
    fun key n => (x.accountToKeyMemberships.setAt key).has n = true
  follows a b := b.name = a.name
  pending x _ a :=
    x.beforeAccountMembers = getAccountMembers a ∧ x.beforeKeyMembers = getKeyMembers a

theorem mem_setDifference {κ : Type} [LinearOrder κ] {s1 s2 : FlatSet κ} {k : κ} :
    k ∈ setDifference s1 s2 ↔ s1.has k = true ∧ s2.has k = false := by
  simp [setDifference, FlatSet.mem_keys]

/-- Half of `object_modified`: what was listed for the name under the members before is
now listed under those after. -/
theorem has_followMembers {κ : Type} [LinearOrder κ] {name : String} {before after : FlatSet κ}
    {m : FlatMap κ (FlatSet String)} (k : κ) (n : String)
    (hlisted : before.has k = true → (m.setAt k).has name = true) :
    ((followMembers name before after m).setAt k).has n = true ↔
      ((m.setAt k).has n = true ∧ ¬ (name = n ∧ before.has k = true)) ∨
        (name = n ∧ after.has k = true) := by
  rw [followMembers, FlatMap.has_foldl_insertAt, FlatMap.has_foldl_erase _ _ _ _ FlatMap.has_eraseAt,
    mem_setDifference, mem_setDifference]
  by_cases hn : name = n
  · subst hn
    cases hb : before.has k <;> cases ha : after.has k <;> simp_all
  · simp [hn]

theorem kept (index : Nat) : listing.Kept (callbacks index) where
  label_ne {id id' a b} _ hclash hname := by
    have hsame : a.name = b.name := hname
    simp [clash, UniqueKeys.keys, hsame] at hclash
  label_follows hname := hname
  inserted id a x := by
    intro k n
    cases k with
    | inl account =>
        refine (FlatMap.has_foldl_insertAt x.accountToAccountMemberships account a.name n _).trans ?_
        rw [FlatSet.mem_keys]
        rfl
    | inr key =>
        refine (FlatMap.has_foldl_insertAt x.accountToKeyMemberships key a.name n _).trans ?_
        rw [FlatSet.mem_keys]
        rfl
  removed id a x := by
    intro k n
    cases k with
    | inl account =>
        refine (FlatMap.has_foldl_erase x.accountToAccountMemberships account a.name n
          FlatMap.has_eraseAt _).trans ?_
        rw [FlatSet.mem_keys]
        rfl
    | inr key =>
        refine (FlatMap.has_foldl_erase x.accountToKeyMemberships key a.name n
          FlatMap.has_eraseAt _).trans ?_
        rw [FlatSet.mem_keys]
        rfl
  about id a x := ⟨⟨rfl, rfl⟩, fun k n => by cases k <;> exact Iff.rfl⟩
  modified id a b x hpending hname hlisted := by
    obtain ⟨haccounts, hkeys⟩ := hpending
    have hname : b.name = a.name := hname
    intro k n
    cases k with
    | inl account =>
        refine (has_followMembers account n fun hbefore => ?_).trans ?_
        · rw [haccounts] at hbefore
          rw [hname]
          exact hlisted (.inl account) hbefore
        · rw [haccounts, hname]
          exact or_congr Iff.rfl (and_congr_left fun _ => by rw [← hname]; rfl)
    | inr key =>
        refine (has_followMembers key n fun hbefore => ?_).trans ?_
        · rw [hkeys] at hbefore
          rw [hname]
          exact hlisted (.inr key) hbefore
        · rw [hkeys, hname]
          exact or_congr Iff.rfl (and_congr_left fun _ => by rw [← hname]; rfl)

end AccountMemberIndex

/-! ## Contents by genre -/

namespace ContentByGenreIndex

/-- A content is listed under each of its genres, and nowhere else. -/
def listing : Listing ContentObject ContentByGenreIndex Nat ObjectId where
  keys c genre := (getGenres c).has genre = true
  label id _ := id
  holds x genre id := (x.findByGenre genre).has id = true
  follows _ _ := True
  pending x id c := x.inProgress.find? id = some (getGenres c)

theorem has_addContent {genres : FlatSet Nat} {id : ObjectId} {m : FlatMap Nat (FlatSet ObjectId)}
    (genre : Nat) (n : ObjectId) : ((addContent genres id m).setAt genre).has n = true ↔
      (m.setAt genre).has n = true ∨ (id = n ∧ genres.has genre = true) := by
  rw [addContent, FlatMap.has_foldl_insertAt, FlatSet.mem_keys]

theorem has_removeContent {genres : FlatSet Nat} {id : ObjectId}
    {m : FlatMap Nat (FlatSet ObjectId)} (genre : Nat) (n : ObjectId) :
    ((removeContent genres id m).setAt genre).has n = true ↔
      (m.setAt genre).has n = true ∧ ¬ (id = n ∧ genres.has genre = true) := by
  rw [removeContent, FlatMap.has_foldl_erase _ _ _ _ FlatMap.has_eraseIn, FlatSet.mem_keys]

theorem kept (index : Nat) : listing.Kept (callbacks index) where
  label_ne hne _ := hne
  label_follows _ := rfl
  inserted id c x := fun genre n => has_addContent genre n
  removed id c x := fun genre n => has_removeContent genre n
  about id c x := by
    show Post (aboutToModify id c) x _ _
    simp only [aboutToModify, post_bind, post_get, post_liftExcept, post_set]
    refine ⟨fun _ _ => ⟨?_, fun _ _ => Iff.rfl⟩, fun _ _ _ _ => trivial⟩
    exact FlatMap.find?_set_self _ _ _
  modified id c c' x hpending _ hlisted := by
    have hpending : x.inProgress.find? id = some (getGenres c) := hpending
    show Post (objectModified id c') x _ _
    simp only [objectModified, post_bind, post_get, hpending, post_set]
    intro genre n
    show ((addContent _ id _).setAt genre).has n = true ↔ _
    rw [has_addContent, has_removeContent, FlatSet.has_subtract, FlatSet.has_subtract]
    have hcommon : (FlatSet.intersect (getGenres c) (getGenres c')).has genre =
        ((getGenres c).has genre && (getGenres c').has genre) := by
      rw [Bool.eq_iff_iff, FlatSet.has_intersect, Bool.and_eq_true]
    have hlisted : (getGenres c).has genre = true → (x.contentByGenre.setAt genre).has id = true :=
      hlisted genre
    have hgives : ∀ c, listing.Gives id c genre n ↔ id = n ∧ (getGenres c).has genre = true :=
      fun _ => Iff.rfl
    have hholds : listing.holds x genre n ↔ (x.contentByGenre.setAt genre).has n = true := Iff.rfl
    rw [hgives, hgives, hholds, hcommon]
    by_cases hn : id = n
    · subst hn
      cases hb : (getGenres c).has genre <;> cases ha : (getGenres c').has genre <;> simp_all
    · simp [hn]

end ContentByGenreIndex

/-! ## Contents by category -/

namespace ContentByCategoryIndex

/-- A content is listed under its category, if it has one. -/
def listing : Listing ContentObject ContentByCategoryIndex String ObjectId where
  keys c category := c.albumMeta.albumType = some category
  label id _ := id
  holds x category id := (x.findByCategory category).has id = true
  follows _ _ := True
  pending x id c := x.inProgress.find? id = some c.albumMeta.albumType

theorem has_addContent {category : Option String} {id : ObjectId}
    {m : FlatMap String (FlatSet ObjectId)} (k : String) (n : ObjectId) :
    ((addContent category id m).setAt k).has n = true ↔
      (m.setAt k).has n = true ∨ (id = n ∧ category = some k) := by
  cases category with
  | none => simp [addContent]
  | some c =>
      show ((m.insertAt c id).setAt k).has n = true ↔ _
      rw [FlatMap.has_insertAt, Option.some.injEq, or_comm, and_comm, eq_comm (a := n),
        eq_comm (a := k)]

theorem has_removeContent {category : Option String} {id : ObjectId}
    {m : FlatMap String (FlatSet ObjectId)} (k : String) (n : ObjectId) :
    ((removeContent category id m).setAt k).has n = true ↔
      (m.setAt k).has n = true ∧ ¬ (id = n ∧ category = some k) := by
  cases category with
  | none => simp [removeContent]
  | some c =>
      show ((if (m.setAt c).has id then m.eraseOrDrop c id else m).setAt k).has n = true ↔ _
      rw [Option.some.injEq]
      split
      · rw [FlatMap.has_eraseOrDrop, and_comm (a := k = c), eq_comm (a := n), eq_comm (a := k)]
      case isFalse hout =>
        refine (and_iff_left_of_imp ?_).symm
        rintro hmem ⟨rfl, rfl⟩
        exact hout hmem

theorem kept (index : Nat) : listing.Kept (callbacks index) where
  label_ne hne _ := hne
  label_follows _ := rfl
  inserted id c x := fun category n => has_addContent category n
  removed id c x := fun category n => has_removeContent category n
  about id c x := by
    show Post (aboutToModify id c) x _ _
    simp only [aboutToModify, post_bind, post_get, post_liftExcept, post_set]
    refine ⟨fun _ _ => ⟨?_, fun _ _ => Iff.rfl⟩, fun _ _ _ _ => trivial⟩
    exact FlatMap.find?_set_self _ _ _
  modified id c c' x hpending _ hlisted := by
    have hpending : x.inProgress.find? id = some c.albumMeta.albumType := hpending
    show Post (objectModified id c') x _ _
    simp only [objectModified, post_bind, post_get, hpending, post_set]
    intro category n
    have hlisted : c.albumMeta.albumType = some category →
        (x.contentByCategory.setAt category).has id = true := hlisted category
    have hgives : ∀ c, listing.Gives id c category n ↔
        id = n ∧ c.albumMeta.albumType = some category := fun _ => Iff.rfl
    have hholds : listing.holds x category n ↔ (x.contentByCategory.setAt category).has n = true :=
      Iff.rfl
    rw [hgives, hgives, hholds]
    show (FlatMap.setAt (if _ then _ else _) category).has n = true ↔ _
    split
    case isTrue hsame =>
      rw [hsame]
      by_cases hg : id = n ∧ c.albumMeta.albumType = some category
      · obtain ⟨rfl, hc⟩ := hg
        simp [hc, hlisted hc]
      · simp [hg]
    case isFalse =>
      rw [has_addContent, has_removeContent]

end ContentByCategoryIndex

/-! ## Both indexes of the contents -/

namespace Listing

variable {α σ τ κ ι ν : Type}

/-- Two listings of the same objects make one, with the keys of both. -/
def both (L : Listing α σ κ ν) (M : Listing α τ ι ν) : Listing α (σ × τ) (κ ⊕ ι) ν where
  keys v := Sum.elim (L.keys v) (M.keys v)
  label := L.label
  holds p := Sum.elim (L.holds p.1) (M.holds p.2)
  follows v w := L.follows v w ∧ M.follows v w
  pending p id v := L.pending p.1 id v ∧ M.pending p.2 id v

theorem Kept.both [UniqueKeys α] {L : Listing α σ κ ν} {M : Listing α τ ι ν}
    {S : SecondaryIndex α σ} {T : SecondaryIndex α τ} (hL : L.Kept S) (hM : M.Kept T)
    (hlabel : M.label = L.label) : (L.both M).Kept (S.both T) where
  label_ne hne hclash := hL.label_ne hne hclash
  label_follows h := hL.label_follows h.1
  inserted id v p := by
    show Post (focus _ _ _ >>= fun _ => focus _ _ _) p _ _
    rw [post_bind, post_focus]
    refine (hL.inserted id v p.1).mono (fun _ x hx => ?_) fun _ _ h => h
    rw [post_focus]
    refine (hM.inserted id v p.2).mono (fun _ y hy k n => ?_) fun _ _ h => h
    cases k with
    | inl k => exact hx k n
    | inr k =>
        refine (hy k n).trans ?_
        rw [Gives, hlabel]
        rfl
  removed id v p := by
    show Post (focus _ _ _ >>= fun _ => focus _ _ _) p _ _
    rw [post_bind, post_focus]
    refine (hL.removed id v p.1).mono (fun _ x hx => ?_) fun _ _ h => h
    rw [post_focus]
    refine (hM.removed id v p.2).mono (fun _ y hy k n => ?_) fun _ _ h => h
    cases k with
    | inl k => exact hx k n
    | inr k =>
        refine (hy k n).trans ?_
        rw [Gives, hlabel]
        rfl
  about id v p := by
    show Post (focus _ _ _ >>= fun _ => focus _ _ _) p _ _
    rw [post_bind, post_focus]
    refine (hL.about id v p.1).mono (fun _ x hx => ?_) fun _ x hx k n => ?_
    · rw [post_focus]
      refine (hM.about id v p.2).mono (fun _ y hy => ⟨⟨hx.1, hy.1⟩, fun k n => ?_⟩)
        fun _ y hy k n => ?_
      · cases k with
        | inl k => exact hx.2 k n
        | inr k => exact hy.2 k n
      · cases k with
        | inl k => exact hx.2 k n
        | inr k => exact hy k n
    · cases k with
      | inl k => exact hx k n
      | inr k => exact Iff.rfl
  -- the two halves do not meet: each callback sees its own half, and its keys
  modified id v w p hpending hf hlisted := by
    have hlistedM : ∀ k, M.keys v k → M.holds p.2 k (M.label id v) := by
      intro k hk
      rw [hlabel]
      exact hlisted (.inr k) hk
    show Post (focus _ _ _ >>= fun _ => focus _ _ _) p _ _
    rw [post_bind, post_focus]
    refine (hL.modified id v w p.1 hpending.1 hf.1 fun k => hlisted (.inl k)).mono
      (fun _ x hx => ?_) fun _ _ h => h
    rw [post_focus]
    refine (hM.modified id v w p.2 hpending.2 hf.2 hlistedM).mono (fun _ y hy k n => ?_)
      fun _ _ h => h
    cases k with
    | inl k => exact hx k n
    | inr k =>
        refine (hy k n).trans ?_
        rw [Gives, Gives, hlabel]
        rfl

end Listing

/-- The listing of contents by genre and by category together. -/
def contentListing : Listing ContentObject (ContentByGenreIndex × ContentByCategoryIndex)
    (Nat ⊕ String) ObjectId :=
  ContentByGenreIndex.listing.both ContentByCategoryIndex.listing

theorem contentListing_kept (index : Nat) : contentListing.Kept (contentIndexes index) :=
  (ContentByGenreIndex.kept index).both (ContentByCategoryIndex.kept index) rfl

/-! ## Runs -/

namespace PrimaryIndex

variable {α σ κ ν : Type} [UniqueKeys α]

/-- A primary index without objects, with the secondary index in its first state. -/
def fresh (x : σ) : PrimaryIndex α σ := { sindex := x }

/-- The states of the runs whose calls a listing follows. -/
def Follows (L : Listing α σ κ ν) (S : SecondaryIndex α σ) (moved : α → α) (x : σ)
    (d : PrimaryIndex α σ) : Prop :=
  RunIf S moved (fun d c => c.Seen L S d) (fresh x) d

theorem Follows.mirrors {L : Listing α σ κ ν} {S : SecondaryIndex α σ} {moved : α → α} {x : σ}
    {d : PrimaryIndex α σ} (hL : L.Kept S) (hx : ∀ k n, ¬ L.holds x k n)
    (h : Follows L S moved x d) : L.Mirrors S.index d.store d.sindex := by
  refine (mirrored_of_runIf hL moved ⟨fun k n => ?_, ?_⟩ h).mirrors
  · refine ⟨fun hk => absurd hk (hx k n), ?_⟩
    rintro ⟨id, v, -, hv, -⟩
    cases hv
  · intro id id' v v' _ _ _ hv
    cases hv

end PrimaryIndex

open PrimaryIndex in
/-- In every state of every run in which no listed object is re-inserted by a rollback, no
modifier throws after it changed the keys of an object or leaves a taken unique key, no
proposal changes its required approvals and no account its name, the four secondary indexes
list exactly the live objects. -/
theorem secondary_indexes_mirror (index : Nat) :
    (∀ moved d,
      Follows RequiredApprovalIndex.listing (RequiredApprovalIndex.callbacks index) moved {} d →
      ∀ account id, (d.sindex.lookup account).has id = true ↔
        id.index = index ∧ ∃ p, d.store.find? id = some p ∧
          account ∈ RequiredApprovalIndex.approvers p) ∧
    (∀ moved d, Follows AccountMemberIndex.listing (AccountMemberIndex.callbacks index) moved {} d →
      (∀ account name, (d.sindex.accountToAccountMemberships.setAt account).has name = true ↔
        ∃ id a, id.index = index ∧ d.store.find? id = some a ∧ a.name = name ∧
          (AccountMemberIndex.getAccountMembers a).has account = true) ∧
      ∀ key name, (d.sindex.accountToKeyMemberships.setAt key).has name = true ↔
        ∃ id a, id.index = index ∧ d.store.find? id = some a ∧ a.name = name ∧
          (AccountMemberIndex.getKeyMembers a).has key = true) ∧
    (∀ moved d, Follows contentListing (contentIndexes index) moved ({}, {}) d →
      (∀ genre id, (d.sindex.1.findByGenre genre).has id = true ↔
        id.index = index ∧ ∃ c, d.store.find? id = some c ∧
          (ContentByGenreIndex.getGenres c).has genre = true) ∧
      ∀ category id, (d.sindex.2.findByCategory category).has id = true ↔
        id.index = index ∧ ∃ c, d.store.find? id = some c ∧
          c.albumMeta.albumType = some category) := by
  refine ⟨fun moved d h account id => ?_, fun moved d h => ?_, fun moved d h => ?_⟩
  · exact (h.mirrors (RequiredApprovalIndex.kept index) (by simp [RequiredApprovalIndex.listing,
      RequiredApprovalIndex.lookup])).of_id (fun _ _ => rfl) account id
  · have hm := h.mirrors (AccountMemberIndex.kept index) fun k n => by
      cases k <;> simp [AccountMemberIndex.listing]
    exact ⟨fun account name => hm (.inl account) name, fun key name => hm (.inr key) name⟩
  · have hm := h.mirrors (contentListing_kept index) fun k n => by
      cases k <;> simp [contentListing, Listing.both, ContentByGenreIndex.listing,
        ContentByGenreIndex.findByGenre, ContentByCategoryIndex.listing,
        ContentByCategoryIndex.findByCategory]
    exact ⟨fun genre id => hm.of_id (fun _ _ => rfl) (.inl genre) id,
      fun category id => hm.of_id (fun _ _ => rfl) (.inr category) id⟩

/-! ## A proposal removed and brought back, a content edited and edited back -/

namespace Sample

/-- A proposal that waits for the approval of one account. -/
def waiting : ProposalObject :=
  { expirationTime := 0, proposedOps := [], requiredActiveApprovals := ["initminer"] }

/-- A content with one genre, and no category. -/
def single : ContentObject :=
  { uploader := "initminer", url := "ipfs://1", trackTitle := "", albumMeta := { genre1 := 5 },
    trackMeta := { genre1 := 5 }, compMeta := {} }

end Sample

open PrimaryIndex in
/-- A proposal is created; a session removes it and is undone. The proposal is back, and the
index does not find it for the account it waits for. -/
theorem undone_removal_not_listed :
    ¬ ∀ d, RunIf (RequiredApprovalIndex.callbacks 10) (fun p => p) (fun _ _ => True)
      (fresh {}) d →
      ∀ account id, (d.sindex.lookup account).has id = true ↔
        id.index = 10 ∧ ∃ p, d.store.find? id = some p ∧
          account ∈ RequiredApprovalIndex.approvers p := by
  intro hall
  have hlisted := (hall _ ((((RunIf.start.step (c := .create 10 (.ok Sample.waiting)) trivial).step
    (c := .startUndoSession false) trivial).step (c := .remove ⟨10, 0⟩) trivial).step
    (c := .undo .forward) trivial) "initminer" ⟨10, 0⟩).mpr
      ⟨rfl, Sample.waiting, rfl, by decide⟩
  exact Bool.false_ne_true hlisted

open PrimaryIndex in
/-- A content is created, a session changes its genre and is undone: it is found under its
old genre again. -/
theorem undone_edit_listed :
    ∃ d, Follows contentListing (contentIndexes 9) (fun c => c) ({}, {}) d ∧
      d.store.find? ⟨9, 0⟩ = some Sample.single ∧
      (d.sindex.1.findByGenre 5).has ⟨9, 0⟩ = true := by
  let edited : ContentObject := { Sample.single with albumMeta := { genre1 := 7 } }
  -- nothing but the one content is ever stored, and no record holds anything else
  have honly : ∀ {v : ContentObject} {id id' : ObjectId} {w : ContentObject},
      FlatMap.find? ((FlatMap.empty : FlatMap ObjectId ContentObject).set id v) id' = some w →
        id' = id := by
    intro v id id' w hw
    rw [FlatMap.find?_set] at hw
    split at hw
    case isTrue heq => exact heq
    case isFalse => cases hw
  have hrun : Follows contentListing (contentIndexes 9) (fun c => c) ({}, {}) _ :=
    (((RunIf.start.step (c := .create 9 (.ok Sample.single)) trivial).step
      (c := .startUndoSession false) trivial).step (c := .modify ⟨9, 0⟩ edited none) ?_).step
      (c := .undo .forward) ?_
  · refine ⟨_, hrun, rfl, ?_⟩
    exact (((secondary_indexes_mirror 9).2.2 _ _ hrun).1 5 ⟨9, 0⟩).mpr
      ⟨rfl, Sample.single, rfl, rfl⟩
  · intro _ v hv
    exact ⟨trivial, trivial⟩
  · intro u rest hstack
    obtain ⟨rfl, rfl⟩ := List.cons.inj hstack
    refine ⟨fun id v _ hv => (by cases hv), fun _ _ _ _ _ _ => ⟨trivial, trivial⟩, ?_⟩
    intro id id' w v' hne _ _ hw hv'
    have hid : id = ⟨9, 0⟩ := honly hw
    have hid' : id' = ⟨9, 0⟩ := hv'.elim honly honly
    exact absurd (hid'.trans hid.symm) hne

end BtcmChain
