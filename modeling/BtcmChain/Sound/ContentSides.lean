import BtcmChain.Chain.Run

set_option autoImplicit false

/-!
# Who may edit which side of a content

A content has a master side and, with third-party publishers, a composition side, each
with an authority of its own. Which side a `content_update_operation` edits is decided
in the evaluator, which only asks whether the side is the master side; whose authority it
needs is decided by two methods that compare the same 32-bit field with the two values it
is meant to have. For the values 0 and 1 the three agree. Any other value edits the
composition side and needs no authority at all.
-/

namespace BtcmChain

/-! ## What an update changes -/

/-- A field of the master side of a content differs from before. -/
def ContentObject.MasterChanged (c c' : ContentObject) : Prop :=
  c'.albumMeta ≠ c.albumMeta ∨ c'.trackMeta ≠ c.trackMeta ∨ c'.trackTitle ≠ c.trackTitle ∨
    c'.distributionsMaster ≠ c.distributionsMaster ∨ c'.manageMaster ≠ c.manageMaster

/-- A field of the composition side of a content differs from before. -/
def ContentObject.CompChanged (c c' : ContentObject) : Prop :=
  c'.compMeta ≠ c.compMeta ∨ c'.distributionsComp ≠ c.distributionsComp ∨
    c'.manageComp ≠ c.manageComp

/-- A share that concerns both sides of a content differs from before. -/
def ContentObject.SharesChanged (c c' : ContentObject) : Prop :=
  c'.playingReward ≠ c.playingReward ∨ c'.publishersShare ≠ c.publishersShare

/-- An operation that turns `c` into `c'` needs the authorities of the sides it edits. -/
structure NeedsSideAuthority (op : Operation) (c c' : ContentObject) : Prop where
  master : c.MasterChanged c' → c.url ∈ op.requiredMasterContent
  comp : c.compMeta.thirdPartyPublishers = true → c.CompChanged c' → c.url ∈ op.requiredCompContent
  shares : c.SharesChanged c' → c.url ∈ op.requiredMasterContent ∧ c.url ∈ op.requiredCompContent

/-- What the operation says about the composition side is what the content already has. -/
def ContentUpdateOperation.RepeatsComp (o : ContentUpdateOperation) (c : ContentObject) : Prop :=
  (∀ m, o.compMeta = some m →
    { m with thirdPartyPublishers := c.compMeta.thirdPartyPublishers } = c.compMeta) ∧
  (o.newDistributions = [] ∨ o.newDistributions = c.distributionsComp) ∧
  (o.newManagement = [] ∨
    managementAuths o.newManagement = c.manageComp.accountAuths ∧
      o.newThreshold = c.manageComp.weightThreshold)

section Edit

variable {o : ContentUpdateOperation} {now : TimePointSec} {c c' : ContentObject}

theorem edit_master (hside : o.side ≠ SIDE_MASTER) (pool : ContentPool) :
    ¬ c.MasterChanged { o.edit now c with toContentPool := pool } := by
  simp [ContentObject.MasterChanged, ContentUpdateOperation.edit, ContentUpdateOperation.finish, hside,
    ContentUpdateOperation.editComp]

theorem edit_comp (hside : o.side = SIDE_MASTER) (htwo : c.compMeta.thirdPartyPublishers = true)
    (pool : ContentPool) : ¬ c.CompChanged { o.edit now c with toContentPool := pool } := by
  have hflag : { c.compMeta with thirdPartyPublishers := true } = c.compMeta := by rw [← htwo]
  simp [ContentObject.CompChanged, ContentUpdateOperation.edit, ContentUpdateOperation.finish, hside,
    ContentUpdateOperation.editMaster, htwo, hflag]

theorem edit_shares (h1 : o.newPlayingReward = 0) (h2 : o.newPublishersShare = 0)
    (pool : ContentPool) : ¬ c.SharesChanged { o.edit now c with toContentPool := pool } := by
  have hz : ¬ (0 : UInt32) < 0 := by decide
  simp only [ContentObject.SharesChanged, ContentUpdateOperation.edit, ContentUpdateOperation.finish,
    h1, h2, hz, if_false]
  split <;> simp [ContentUpdateOperation.editMaster, ContentUpdateOperation.editComp]

/-- An edit of the composition side changes nothing exactly when it repeats what is there. -/
theorem edit_comp_iff (hside : o.side ≠ SIDE_MASTER) (pool : ContentPool) :
    ¬ c.CompChanged { o.edit now c with toContentPool := pool } ↔ o.RepeatsComp c := by
  simp only [ContentObject.CompChanged, ContentUpdateOperation.edit, ContentUpdateOperation.finish,
    if_neg hside, ContentUpdateOperation.editComp, not_or, not_not]
  refine and_congr ?_ (and_congr ?_ ?_)
  · cases o.compMeta <;> simp
  · simp only [ContentUpdateOperation.distributions, List.isEmpty_iff]
    split <;> simp [*]
  · simp only [ContentUpdateOperation.management, List.isEmpty_iff]
    split
    case isTrue h => simp [h]
    case isFalse h =>
      obtain ⟨threshold, accounts, keys⟩ := c.manageComp
      simp only [Authority.mk.injEq, and_true, h, false_or]
      exact and_comm

end Edit

/-! ## The authority of an update -/

theorem mem_requiredMasterContent {o : ContentUpdateOperation} :
    o.url ∈ (Operation.contentUpdate o).requiredMasterContent ↔
      o.side = SIDE_MASTER ∨ o.newPlayingReward ≠ 0 ∨ o.newPublishersShare ≠ 0 := by
  simp only [Operation.requiredMasterContent]
  split <;> simp [*]

theorem mem_requiredCompContent {o : ContentUpdateOperation} :
    o.url ∈ (Operation.contentUpdate o).requiredCompContent ↔
      o.side = SIDE_PUBLISHER ∨ o.newPlayingReward ≠ 0 ∨ o.newPublishersShare ≠ 0 := by
  simp only [Operation.requiredCompContent]
  split <;> simp [*]

/-- The authorities of the edited content, for every value the side can have. -/
theorem edit_needsSideAuthority_iff {o : ContentUpdateOperation} (now : TimePointSec)
    {c : ContentObject} (hurl : c.url = o.url)
    (hside : c.compMeta.thirdPartyPublishers = true ∨ o.side = SIDE_MASTER) (pool : ContentPool) :
    NeedsSideAuthority (.contentUpdate o) c { o.edit now c with toContentPool := pool } ↔
      o.side = SIDE_MASTER ∨ o.side = SIDE_PUBLISHER ∨ o.newPlayingReward ≠ 0 ∨
        o.newPublishersShare ≠ 0 ∨ o.RepeatsComp c := by
  constructor
  · intro h
    by_contra hno
    simp only [not_or, not_not] at hno
    obtain ⟨hm, hp, hr, hs, hrep⟩ := hno
    have htwo : c.compMeta.thirdPartyPublishers = true := hside.resolve_right hm
    have hchanged : c.CompChanged { o.edit now c with toContentPool := pool } :=
      not_not.mp (mt (edit_comp_iff hm pool).mp hrep)
    have hmem := h.comp htwo hchanged
    rw [hurl, mem_requiredCompContent] at hmem
    simp [hp, hr, hs] at hmem
  · intro h
    have hshares : c.SharesChanged { o.edit now c with toContentPool := pool } →
        o.newPlayingReward ≠ 0 ∨ o.newPublishersShare ≠ 0 := by
      intro hc
      by_contra hno
      simp only [not_or, not_not] at hno
      exact edit_shares hno.1 hno.2 pool hc
    constructor
    · intro hc
      rw [hurl, mem_requiredMasterContent]
      exact Or.inl (not_not.mp fun hm => edit_master hm pool hc)
    · intro htwo hc
      rw [hurl, mem_requiredCompContent]
      rcases h with hm | hp | hr | hs | hrep
      · exact absurd hc (edit_comp hm htwo pool)
      · exact Or.inl hp
      · exact Or.inr (Or.inl hr)
      · exact Or.inr (Or.inr hs)
      · by_cases hm : o.side = SIDE_MASTER
        · exact absurd hc (edit_comp hm htwo pool)
        · exact absurd hc ((edit_comp_iff hm pool).mpr hrep)
    · intro hc
      rw [hurl, mem_requiredMasterContent, mem_requiredCompContent]
      exact ⟨Or.inr (hshares hc), Or.inr (hshares hc)⟩

section Evaluators

variable [Externals]

/-- After an update every content is as it was, the updated one edited, up to the pools. -/
theorem contentUpdate_contents {push : Nat → DbM Unit} {o : ContentUpdateOperation}
    {s s' : Database} (h : Runs (evaluate push (.contentUpdate o)) s () s') :
    ∃ e : Entry ContentObject, s.contents.findBy? (·.url = o.url) = some (e.id, e.val) ∧
      (e.val.compMeta.thirdPartyPublishers = true ∨ o.side = SIDE_MASTER) ∧
      ∀ id, (s'.contents.find? id).map (fun c => { c with toContentPool := {} }) =
        if id = e.id then some { o.edit s.dgpo.time e.val with toContentPool := {} }
        else (s.contents.find? id).map fun c => { c with toContentPool := {} } := by
  obtain ⟨e, he, hside, h⟩ := runs_contentUpdateEvaluator h
  refine ⟨e, he, hside, fun id => ?_⟩
  have hcat : s'.catalogue = (o.editedState e s).catalogue := by
    rcases h with rfl | ⟨-, -, hr⟩
    · rfl
    · exact Writes.catalogue_eq hr (by decide)
  have hfind : ∀ t : Database, (t.contents.find? id).map (fun c => { c with toContentPool := {} }) =
      t.catalogue.find? id := fun t => (FlatMap.find?_mapVals ..).symm
  rw [hfind, hcat, ← hfind]
  simp only [ContentUpdateOperation.editedState, ObjectIndex.find?_update,
    (ObjectIndex.find?_of_findBy? he).1]
  split <;> rfl

/-- A content update needs the authorities of the sides it edits exactly when its side is
one of the two sides, or it needs both anyway, or it changes nothing. -/
theorem contentUpdate_needsSideAuthority_iff {n : Nat} {o : ContentUpdateOperation}
    {s s' : Database} (h : Runs (applyOperation n (.contentUpdate o)) s () s') :
    (∀ id c c', s.contents.find? id = some c → s'.contents.find? id = some c' →
        NeedsSideAuthority (.contentUpdate o) c c') ↔
      o.side = SIDE_MASTER ∨ o.side = SIDE_PUBLISHER ∨ o.newPlayingReward ≠ 0 ∨
        o.newPublishersShare ≠ 0 ∨
        ∀ id c, s.contents.findBy? (·.url = o.url) = some (id, c) → o.RepeatsComp c := by
  have heval : ∃ push, Runs (evaluate push (.contentUpdate o)) s () s' := by
    cases n <;> exact ⟨_, h⟩
  obtain ⟨push, heval⟩ := heval
  obtain ⟨e, he, hside, hcontents⟩ := contentUpdate_contents heval
  obtain ⟨hc, hurl⟩ := ObjectIndex.find?_of_findBy? he
  have hurl : e.val.url = o.url := by simpa using hurl
  have hrep : (∀ id c, s.contents.findBy? (·.url = o.url) = some (id, c) → o.RepeatsComp c) ↔
      o.RepeatsComp e.val := by
    rw [he]
    exact ⟨fun h => h _ _ rfl, fun h id c hc => by cases hc; exact h⟩
  -- the edited content is still there, with some pool
  have hedited : ∃ pool, s'.contents.find? e.id =
      some { o.edit s.dgpo.time e.val with toContentPool := pool } := by
    have hid := hcontents e.id
    rw [if_pos rfl] at hid
    obtain ⟨c', hc', heq⟩ := Option.map_eq_some_iff.mp hid
    exact ⟨c'.toContentPool, by rw [hc']; cases c'; cases heq; rfl⟩
  obtain ⟨pool, hpool⟩ := hedited
  rw [hrep, ← edit_needsSideAuthority_iff s.dgpo.time hurl hside pool]
  constructor
  · intro hall
    exact hall e.id _ _ hc hpool
  · intro hone id c c' hid hid'
    by_cases heq : id = e.id
    · subst heq
      rw [hc] at hid
      rw [hpool] at hid'
      cases hid
      cases hid'
      exact hone
    · -- another content keeps everything but its pool
      have hsame := hcontents id
      rw [if_neg heq, hid, hid', Option.map_some, Option.map_some, Option.some.injEq] at hsame
      cases c
      cases c'
      cases hsame
      constructor <;> simp [ContentObject.MasterChanged, ContentObject.CompChanged,
        ContentObject.SharesChanged]

end Evaluators

/-! ### A side that is neither -/

/-- A content with a composition side, both sides managed by `initminer`. -/
def sampleContent : ContentOperation where
  uploader := "initminer"
  url := "bmfs://song"
  albumMeta := { albumTitle := "album" }
  trackMeta := { trackTitle := "track" }
  compMeta := { thirdPartyPublishers := true }
  distributions := []
  management := [⟨"initminer", 100⟩]
  managementThreshold := 100
  managementComp := some [⟨"initminer", 100⟩]
  managementThresholdComp := some 100

/-- Hand the composition side over to `initminer1`, through the given side. -/
def takeOver (side : UInt32) : ContentUpdateOperation where
  side
  url := "bmfs://song"
  newManagement := [⟨"initminer1", 100⟩]
  newThreshold := 100

/-- A first block that creates the content, behind genesis. -/
def contentBlock : SignedBlock := ⟨"initminer", 1585422003, [[.content sampleContent]]⟩

section Samples

open Sample

/-- With side 2 the composition side changes hands and nobody needs to sign for it. -/
theorem takeOver_needs_no_authority :
    ∃ s s', Reachable s ∧ (Operation.contentUpdate (takeOver 2)).validate = .ok () ∧
      Runs (applyOperation BTCM_MAX_PROPOSAL_NESTING (.contentUpdate (takeOver 2))) s () s' ∧
      ¬ ∀ id c c', s.contents.find? id = some c → s'.contents.find? id = some c' →
        NeedsSideAuthority (.contentUpdate (takeOver 2)) c c' := by
  have hrun : leadsTo (replay {} [contentBlock]) {} (fun s =>
      leadsTo (applyOperation BTCM_MAX_PROPOSAL_NESTING (.contentUpdate (takeOver 2))) s fun s' =>
        (s.contents.find? 0).any fun c => (s'.contents.find? 0).any fun c' =>
          c.compMeta.thirdPartyPublishers && decide (c'.manageComp ≠ c.manageComp)) = true := by
    decide +kernel
  obtain ⟨s, hs, hrun⟩ := leadsTo_iff.mp hrun
  obtain ⟨s', hop, hchanged⟩ := leadsTo_iff.mp hrun
  refine ⟨s, s', replay_reachable hs, by decide +kernel, hop, fun hall => ?_⟩
  obtain ⟨c, hc, hchanged⟩ := (Option.any_eq_true _ _).mp hchanged
  obtain ⟨c', hc', hchanged⟩ := (Option.any_eq_true _ _).mp hchanged
  simp only [Bool.and_eq_true, decide_eq_true_eq] at hchanged
  have hmem := (hall 0 c c' hc hc').comp hchanged.1 (Or.inr (Or.inr hchanged.2))
  simp [Operation.requiredCompContent, takeOver, SIDE_PUBLISHER] at hmem

/-- Through the publisher's side the same change needs the publisher's authority. -/
theorem takeOver_publisher_needs_authority :
    ∃ s s', Reachable s ∧
      Runs (applyOperation BTCM_MAX_PROPOSAL_NESTING (.contentUpdate (takeOver 1))) s () s' ∧
      ∀ id c c', s.contents.find? id = some c → s'.contents.find? id = some c' →
        NeedsSideAuthority (.contentUpdate (takeOver 1)) c c' := by
  have hrun : leadsTo (replay {} [contentBlock]) {} (fun s =>
      leadsTo (applyOperation BTCM_MAX_PROPOSAL_NESTING (.contentUpdate (takeOver 1))) s
        fun _ => true) = true := by
    decide +kernel
  obtain ⟨s, hs, hrun⟩ := leadsTo_iff.mp hrun
  obtain ⟨s', hop, -⟩ := leadsTo_iff.mp hrun
  exact ⟨s, s', replay_reachable hs, hop,
    (contentUpdate_needsSideAuthority_iff hop).mpr (Or.inr (Or.inl rfl))⟩

end Samples

end BtcmChain
