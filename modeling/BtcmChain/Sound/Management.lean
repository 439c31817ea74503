import BtcmChain.Chain.Beside
import BtcmChain.Chain.Chronicle
import BtcmChain.Lib.LastWins
import BtcmChain.Sound.ContentSides

set_option autoImplicit false
set_option synthInstance.maxSize 10000000
set_option synthInstance.maxHeartbeats 200000

/-!
# The votes that manage a content

A content is managed by accounts with weights that should be the requested percentages and add up
to 100. The checks add the percentages up in 32 bits, which may wrap; the weights are kept in a map,
where a voter who is named again loses what was requested before. Without these two the weights are
what was requested, in every state of every run.
-/

namespace BtcmChain

/-! ## One list of votes -/

/-- What a list of votes requests for a voter, all entries together. -/
def requestedFor (votes : List ManagementVote) (voter : String) : ℕ :=
  FlatMap.amountOf ManagementVote.voter (fun v => v.percentage.toNat) votes voter

/-- What a list of votes requests in all, in unbounded numbers. -/
def requestedTotal (votes : List ManagementVote) : ℕ :=
  (votes.map fun v => v.percentage.toNat).sum

/-- The weight of an account in a list of weighted accounts, and 0 if it is not there. -/
def weightOf (auths : FlatMap String UInt16) (account : String) : ℕ :=
  (auths.find? account).elim 0 UInt16.toNat

/-- The weights are the requested percentages, and add up to 100. -/
structure CarriesVotes (votes : List ManagementVote) (auths : FlatMap String UInt16) : Prop where
  weights : ∀ voter, weightOf auths voter = requestedFor votes voter
  total : auths.sum (fun _ w => (w.toNat : ℤ)) = 100

/-- The percentages do not wrap, and of each voter only the last entry counts. -/
structure PlainVotes (votes : List ManagementVote) : Prop where
  fits : requestedTotal votes < 2 ^ 32
  last : ∀ voter, ∀ v ∈ (votes.filter fun v => v.voter = voter).dropLast, v.percentage = 0

theorem managementAuths_eq (votes : List ManagementVote) :
    managementAuths votes =
      FlatMap.ofItems ManagementVote.voter (fun v => v.percentage.toUInt16) votes := rfl

theorem toNat_managementTotal (votes : List ManagementVote) :
    (managementTotal votes).toNat = requestedTotal votes % 2 ^ 32 := by
  induction votes with
  | nil => rfl
  | cons v votes ih =>
      simp only [managementTotal, requestedTotal, List.map_cons, List.sum_cons, UInt32.toNat_add] at ih ⊢
      rw [ih, Nat.add_mod_mod]

/-- The weight of a voter is what the last entry says, cut to 16 bits. -/
theorem weightOf_managementAuths (votes : List ManagementVote) (voter : String) :
    weightOf (managementAuths votes) voter =
      ((votes.filter fun v => v.voter = voter).getLast?).elim 0 fun v => v.percentage.toNat % 65536 := by
  rw [weightOf, managementAuths_eq, FlatMap.find?_ofItems]
  cases (votes.filter fun v => v.voter = voter).getLast? with
  | none => rfl
  | some v => exact UInt32.toNat_toUInt16 v.percentage

/-- If each weight is what was requested, they add up to what was requested in all. -/
theorem sum_managementAuths {votes : List ManagementVote}
    (h : ∀ voter, weightOf (managementAuths votes) voter = requestedFor votes voter) :
    (managementAuths votes).sum (fun _ w => (w.toNat : ℤ)) = requestedTotal votes := by
  rw [requestedTotal, ← FlatMap.sum_amountOf (m := managementAuths votes) ManagementVote.voter
    (fun v => v.percentage.toNat) fun v hv => FlatMap.find?_ofItems_ne_none hv]
  refine FlatMap.sum_congr fun voter w hw => ?_
  have hweight := h voter
  rw [weightOf, hw] at hweight
  exact congrArg Nat.cast hweight

/-- A voter has what was requested just if the last entry fits and the others are zero. -/
theorem weightOf_eq_requestedFor_iff (votes : List ManagementVote) (voter : String) :
    weightOf (managementAuths votes) voter = requestedFor votes voter ↔
      ((votes.filter fun v => v.voter = voter).getLast?.elim True fun v => v.percentage.toNat < 65536) ∧
        ∀ v ∈ (votes.filter fun v => v.voter = voter).dropLast, v.percentage = 0 := by
  rw [weightOf_managementAuths, requestedFor, FlatMap.amountOf]
  generalize votes.filter (fun v => decide (v.voter = voter)) = entries
  rcases List.eq_nil_or_concat entries with rfl | ⟨before, v, rfl⟩
  · simp
  · rw [List.concat_eq_append, List.getLast?_concat, List.dropLast_concat, List.map_append,
      List.sum_append]
    have hzero : (before.map fun v => v.percentage.toNat).sum = 0 ↔ ∀ v ∈ before, v.percentage = 0 := by
      rw [List.sum_eq_zero_iff, List.forall_mem_map]
      exact forall₂_congr fun w _ => UInt32.toNat_inj (b := 0)
    simp only [Option.elim_some, List.map_cons, List.map_nil, List.sum_cons, List.sum_nil, ← hzero]
    omega

/-- **One list.** Its map carries what was requested just if it is plain. -/
theorem carriesVotes_iff {votes : List ManagementVote} (h : managementTotal votes = 100) :
    CarriesVotes votes (managementAuths votes) ↔ PlainVotes votes := by
  have hmod : requestedTotal votes % 2 ^ 32 = 100 := by
    rw [← toNat_managementTotal, h]
    rfl
  constructor
  · rintro ⟨hweights, htotal⟩
    rw [sum_managementAuths hweights] at htotal
    have htotal : requestedTotal votes = 100 := by exact_mod_cast htotal
    refine ⟨by rw [htotal]; decide, fun voter => ?_⟩
    exact ((weightOf_eq_requestedFor_iff votes voter).mp (hweights voter)).2
  · rintro ⟨hfits, hlast⟩
    rw [Nat.mod_eq_of_lt hfits] at hmod
    have hweights : ∀ voter, weightOf (managementAuths votes) voter = requestedFor votes voter := by
      refine fun voter => (weightOf_eq_requestedFor_iff votes voter).mpr ⟨?_, hlast voter⟩
      cases hv : (votes.filter fun v => v.voter = voter).getLast? with
      | none => trivial
      | some v =>
          -- no percentage exceeds the total
          have hmem : v ∈ votes := (List.mem_filter.mp (List.mem_of_getLast? hv)).1
          have hle : v.percentage.toNat ≤ requestedTotal votes :=
            List.le_sum_of_mem (List.mem_map_of_mem hmem)
          show v.percentage.toNat < 65536
          omega
    refine ⟨hweights, ?_⟩
    rw [sum_managementAuths hweights, hmod]
    rfl

/-- Different voters do not get into each other's way, so that their votes are plain. -/
theorem PlainVotes.of_nodup {votes : List ManagementVote}
    (h : (votes.map ManagementVote.voter).Nodup) (hfits : requestedTotal votes < 2 ^ 32) :
    PlainVotes votes := by
  refine ⟨hfits, fun voter v hv => ?_⟩
  have hnodup := (List.filter_sublist (p := fun v => v.voter = voter)).map ManagementVote.voter |>.nodup h
  have hsame : ∀ x ∈ votes.filter fun v => v.voter = voter, x.voter = voter :=
    fun x hx => of_decide_eq_true (List.mem_filter.mp hx).2
  generalize votes.filter (fun v => decide (v.voter = voter)) = entries at hv hnodup hsame
  match entries with
  | [] => cases hv
  | [_] => cases hv
  | x :: y :: rest =>
      have hxy : x.voter = y.voter := (hsame x (by simp)).trans (hsame y (by simp)).symm
      simp [hxy] at hnodup

/-! ## What a content is managed by -/

/-- What decides who manages a content: its address, whether there are two sides, and the managers
of each. -/
structure Charter where
  url : String
  thirdParty : Bool
  manage : Side → FlatMap String UInt16

def ContentObject.charter (c : ContentObject) : Charter where
  url := c.url
  thirdParty := c.compMeta.thirdPartyPublishers
  manage
    | .master => c.manageMaster.accountAuths
    | .comp => c.manageComp.accountAuths

def Database.charters (s : Database) : FlatMap Nat Charter :=
  s.contents.objs.mapVals ContentObject.charter

theorem find?_charters (s : Database) (id : Nat) :
    s.charters.find? id = (s.contents.find? id).map ContentObject.charter :=
  FlatMap.find?_mapVals ..

/-- The votes a call requests for a side of the content. -/
def Call.requests (side : Side) (url : String) (c : Call) : Option (List ManagementVote) :=
  match c.op with
  | .content o =>
      if o.url = url then
        match side with
        | .master => some o.management
        | .comp => if o.compMeta.thirdPartyPublishers then o.managementComp else none
      else none
  | .contentUpdate o =>
      if o.url = url ∧ o.editedSide = side ∧ o.newManagement ≠ [] then some o.newManagement else none
  | _ => none

theorem requests_contentUpdate (side : Side) (url : String) (s : Database)
    (o : ContentUpdateOperation) : Call.requests side url ⟨s, .contentUpdate o⟩ =
      if o.url = url ∧ o.editedSide = side ∧ o.newManagement ≠ [] then some o.newManagement
      else none := rfl

/-- The votes that were requested last for one side of a content. -/
def lastRequest (side : Side) (url : String) (l : List Call) : Option (List ManagementVote) :=
  (l.filterMap (Call.requests side url)).getLast?

theorem lastRequest_append (side : Side) (url : String) (l : List Call) (c : Call) :
    lastRequest side url (l ++ [c]) =
      ((c.requests side url).elim (lastRequest side url l) some) := by
  rw [lastRequest, List.filterMap_append]
  cases h : c.requests side url with
  | none => simp [h, lastRequest]
  | some votes => simp [h]

/-- Each side of each content is managed by what was requested for it last, and urls are unique. -/
structure Managed (l : List Call) (m : FlatMap Nat Charter) : Prop where
  requested : ∀ id c, m.find? id = some c → ∀ side, (side = .comp → c.thirdParty = true) →
    ∃ votes, lastRequest side c.url l = some votes ∧ managementTotal votes = 100 ∧
      c.manage side = managementAuths votes
  distinct : ∀ id id' c c', m.find? id = some c → m.find? id' = some c' → c.url = c'.url → id = id'

variable {l : List Call} {m : FlatMap Nat Charter} {s s' : Database}

theorem Managed.empty : Managed [] .empty where
  requested := by
    intro id c hc
    cases hc
  distinct := by
    intro id id' c c' hc
    cases hc

/-- A call that requests nothing leaves the managers as they were requested before. -/
theorem Managed.append (h : Managed l m) {c : Call}
    (hnone : ∀ side url, c.requests side url = none) : Managed (l ++ [c]) m := by
  refine ⟨fun id ch hch side hside => ?_, h.distinct⟩
  obtain ⟨votes, hlast, hrest⟩ := h.requested id ch hch side hside
  exact ⟨votes, by rw [lastRequest_append, hnone, Option.elim_none, hlast], hrest⟩

/-- A call that sets one content, which alone has its url. -/
theorem Managed.set (h : Managed l m) {m' : FlatMap Nat Charter} {call : Call} (k : Nat) (c' : Charter)
    (hset : ∀ id, m'.find? id = if id = k then some c' else m.find? id)
    (halone : ∀ id c, m.find? id = some c → id ≠ k → c.url ≠ c'.url)
    (hforeign : ∀ side url, url ≠ c'.url → call.requests side url = none)
    (hown : ∀ side, (side = .comp → c'.thirdParty = true) →
      ∃ votes, (call.requests side c'.url).elim (lastRequest side c'.url l) some = some votes ∧
        managementTotal votes = 100 ∧ c'.manage side = managementAuths votes) :
    Managed (l ++ [call]) m' := by
  constructor
  · intro id c hc side hside
    rw [hset] at hc
    rw [lastRequest_append]
    split at hc
    · obtain rfl := Option.some.inj hc
      exact hown side hside
    case isFalse hid =>
      rw [hforeign side c.url (halone id c hc hid), Option.elim_none]
      exact h.requested id c hc side hside
  · intro id id' c d hc hd hurl
    rw [hset] at hc hd
    split at hc
    case isTrue hid =>
      obtain rfl := Option.some.inj hc
      split at hd
      case isTrue hid' => exact hid.trans hid'.symm
      case isFalse hid' => exact absurd hurl.symm (halone id' d hd hid')
    case isFalse hid =>
      split at hd
      · obtain rfl := Option.some.inj hd
        exact absurd hurl (halone id c hc hid)
      · exact h.distinct id id' c d hc hd hurl

/-! ## The operations -/

theorem managementTotal_of_validate [Externals] {votes : List ManagementVote}
    (h : validateManagement votes = .ok ()) : managementTotal votes = 100 := by
  simp only [validateManagement, except_bind_ok] at h
  obtain ⟨_, -, h⟩ := h
  simpa using h

section Evaluators

variable [Externals]

/-- A valid `content_operation` requests 100 votes for each side it has. -/
theorem ContentOperation.requests_of_validate {o : ContentOperation} (hv : o.validate = .ok ()) :
    managementTotal o.management = 100 ∧
      (o.compMeta.thirdPartyPublishers = true →
        ∃ votes, o.managementComp = some votes ∧ managementTotal votes = 100) := by
  simp only [ContentOperation.validate, except_bind_ok] at hv
  obtain ⟨_, -, _, -, _, -, _, -, _, -, _, -, _, hmaster, hv⟩ := hv
  refine ⟨managementTotal_of_validate hmaster, fun htwo => ?_⟩
  rw [if_pos htwo] at hv
  simp only [except_bind_ok] at hv
  obtain ⟨_, -, _, -, _, hsome, _, hcomp, -⟩ := hv
  have hsome : o.managementComp.isSome = true := by
    simp only [fcAssert_ok, Bool.and_eq_true] at hsome
    exact hsome.1
  obtain ⟨votes, hvotes⟩ := Option.isSome_iff_exists.mp hsome
  rw [hvotes] at hcomp
  exact ⟨votes, hvotes, managementTotal_of_validate hcomp⟩

/-- A new content is managed by what its operation requests. -/
theorem Managed.content (h : Managed l s.charters) {o : ContentOperation} (hv : o.validate = .ok ())
    (hr : Runs (contentEvaluator o) s () s') : Managed (l ++ [⟨s, .content o⟩]) s'.charters := by
  obtain ⟨hnew, rfl⟩ := runs_contentEvaluator hr
  obtain ⟨hmaster, hcomp⟩ := o.requests_of_validate hv
  refine h.set s.contents.nextId (o.toObject s.dgpo.time).charter ?_ ?_ ?_ ?_
  · intro id
    rw [find?_charters, find?_charters, ObjectIndex.find?_create]
    split <;> rfl
  · intro id c hc hid
    rw [find?_charters] at hc
    obtain ⟨c, hfound, rfl⟩ := Option.map_eq_some_iff.mp hc
    have hnone : s.contents.findBy? (·.url = o.url) = none := by
      simpa [ObjectIndex.any] using hnew
    exact of_decide_eq_false (ObjectIndex.findBy?_eq_none.mp hnone id c hfound)
  · exact fun side url hurl => if_neg (Ne.symm hurl)
  · intro side hside
    cases side with
    | master =>
        refine ⟨o.management, ?_, hmaster, rfl⟩
        simp [Call.requests, ContentObject.charter, ContentOperation.toObject]
    | comp =>
        have htwo : o.compMeta.thirdPartyPublishers = true := hside rfl
        obtain ⟨votes, hvotes, htotal⟩ := hcomp htwo
        refine ⟨votes, ?_, htotal, ?_⟩
        · simp [Call.requests, ContentObject.charter, htwo, hvotes, ContentOperation.toObject]
        · simp [ContentObject.charter, ContentOperation.toObject, htwo, hvotes]

omit [Externals] in
/-- What an update leaves of the charter of a content: the managers of one side may be new. -/
theorem charter_edit (o : ContentUpdateOperation) (now : TimePointSec) (c : ContentObject) :
    (o.edit now c).charter = { c.charter with
      manage := fun side =>
        if o.editedSide = side ∧ o.newManagement ≠ [] then managementAuths o.newManagement
        else c.charter.manage side } := by
  simp only [ContentObject.charter, ContentUpdateOperation.edit, ContentUpdateOperation.finish,
    ContentUpdateOperation.editedSide, Charter.mk.injEq]
  by_cases hm : o.side = SIDE_MASTER
  · simp only [if_pos hm, ContentUpdateOperation.editMaster, ContentUpdateOperation.management]
    refine ⟨trivial, trivial, funext fun side => ?_⟩
    cases side <;> by_cases hnew : o.newManagement = [] <;> simp [hnew]
  · simp only [if_neg hm, ContentUpdateOperation.editComp, ContentUpdateOperation.management]
    refine ⟨trivial, trivial, funext fun side => ?_⟩
    cases side <;> by_cases hnew : o.newManagement = [] <;> simp [hnew]

/-- A valid `content_update_operation` requests 100 votes, if it requests any. -/
theorem ContentUpdateOperation.requests_of_validate {o : ContentUpdateOperation}
    (hv : o.validate = .ok ()) (hnew : o.newManagement ≠ []) :
    managementTotal o.newManagement = 100 := by
  simp only [ContentUpdateOperation.validate, except_bind_ok] at hv
  obtain ⟨_, -, _, -, _, -, _, -, _, -, hv⟩ := hv
  have hsome : ¬o.newManagement.isEmpty = true := by simpa using hnew
  rw [if_neg hsome] at hv
  split at hv
  · obtain ⟨_, hvotes, -⟩ := except_bind_ok.mp hv
    exact managementTotal_of_validate hvotes
  · simp only [except_bind_ok] at hv
    obtain ⟨_, -, _, -, _, hvotes, -⟩ := hv
    exact managementTotal_of_validate hvotes

/-- An update replaces the votes of the side it edits, if it brings any. -/
theorem Managed.contentUpdate (h : Managed l s.charters) {push : Nat → DbM Unit}
    {o : ContentUpdateOperation} (hv : o.validate = .ok ())
    (hr : Runs (evaluate push (.contentUpdate o)) s () s') :
    Managed (l ++ [⟨s, .contentUpdate o⟩]) s'.charters := by
  obtain ⟨e, he, hside, hcontents⟩ := contentUpdate_contents hr
  obtain ⟨hfound, hurl⟩ := ObjectIndex.find?_of_findBy? he
  have hurl : e.val.url = o.url := of_decide_eq_true hurl
  have hcharter : s.charters.find? e.id = some e.val.charter := by
    rw [find?_charters, hfound]
    rfl
  refine h.set e.id (o.edit s.dgpo.time e.val).charter ?_ ?_ ?_ ?_
  · intro id
    -- the charter does not depend on the pool
    have hview : ∀ t : Database, t.charters.find? id =
        ((t.contents.find? id).map fun c => { c with toContentPool := {} }).map
          ContentObject.charter := by
      intro t
      rw [find?_charters, Option.map_map]
      rfl
    rw [hview s', hcontents id, hview s]
    split <;> rfl
  · intro id c hc hid hsame
    rw [charter_edit] at hsame
    exact hid (h.distinct id e.id c e.val.charter hc hcharter hsame)
  · intro side url hne
    rw [charter_edit] at hne
    exact if_neg fun hrequests => hne (hrequests.1.symm.trans hurl.symm)
  · intro side hthird
    rw [charter_edit] at hthird ⊢
    by_cases hrequests : o.editedSide = side ∧ o.newManagement ≠ []
    · refine ⟨o.newManagement, ?_, o.requests_of_validate hv hrequests.2, if_pos hrequests⟩
      rw [requests_contentUpdate, if_pos ⟨hurl.symm, hrequests⟩, Option.elim_some]
    · obtain ⟨votes, hlast, htotal, hmanage⟩ := h.requested e.id e.val.charter hcharter side hthird
      refine ⟨votes, ?_, htotal, (if_neg hrequests).trans hmanage⟩
      rw [requests_contentUpdate, if_neg fun hall => hrequests hall.2]
      exact hlast

end Evaluators

/-! ## Everything else -/

section Elsewhere

/-- All concerns but the catalogue, with which no charter changes. -/
abbrev besideCatalogue : List Concern :=
  [.funds, .stakes, .listening, .requests, .splits, .pools, .pending, .names, .clock, .rates,
    .feeds, .voting, .redelegations, .routes, .finality, .slots, .laps, .orders]

/-- The charters of the contents are a part of the catalogue. -/
theorem charters_of_catalogue (h : Cut.same .catalogue s s') : s'.charters = s.charters := by
  have hview : ∀ t : Database, t.charters = t.catalogue.mapVals ContentObject.charter := by
    intro t
    refine FlatMap.ext_find? fun id => ?_
    rw [find?_charters, FlatMap.find?_mapVals, Database.catalogue, FlatMap.find?_mapVals,
      Option.map_map]
    rfl
  rw [hview, hview, show s'.catalogue = s.catalogue from h]

instance (priority := low) {α : Type} (m : DbM α) [Within besideCatalogue m] :
    Respects (Fixing Database.charters) m :=
  respects_of_within (D := besideCatalogue) charters_of_catalogue (by decide)

/-- Counting plays and switching a content off is no business of its charter. -/
theorem respects_modifyContentInfo (id : Nat) (change : ContentObject → ContentObject)
    (h : ∀ c, (change c).charter = c.charter) :
    Respects (Fixing Database.charters) (modifyContentInfo id change) :=
  ⟨fun {s _ _} hr => by
    obtain ⟨c, d, hc, hd, rfl⟩ := Table.runs_modify.mp hr
    cases hd
    refine FlatMap.ext_find? fun id' => ?_
    have hc : s.contents.find? id = some c := hc
    rw [find?_charters, find?_charters]
    show ((s.contents.update id _).find? id').map _ = _
    rw [ObjectIndex.find?_update]
    split
    case isTrue heq =>
      rw [heq, hc]
      exact congrArg some (h c)
    case isFalse => rfl⟩

instance (url : String) : Respects (Fixing Database.charters) (contentDisableEvaluator url) := by
  have hdisable := fun id => respects_modifyContentInfo id (fun c => { c with disabled := true })
    fun _ => rfl
  unfold contentDisableEvaluator
  infer_instance

instance (o : StreamingPlatformReportOperation) :
    Respects (Fixing Database.charters) (streamingPlatformReportEvaluator o) := by
  have hplayed := fun id => respects_modifyContentInfo id (fun c => { c with
    timesPlayed := c.timesPlayed + 1
    timesPlayed24 := c.timesPlayed24 + 1 }) fun _ => rfl
  unfold streamingPlatformReportEvaluator
  infer_instance

instance (content : Nat) (x : ShareType) : Respects (Fixing Database.charters) (payToContent content x) := by
  have hplayed := fun id => respects_modifyContentInfo id
    (fun c => { c with timesPlayed24 := c.timesPlayed24 - 1 }) fun _ => rfl
  unfold payToContent
  infer_instance

instance (x : ShareType) (acc : Cashout) (r : Entry ReportObject) :
    Respects (Fixing Database.charters) (cashReport x acc r) := by
  unfold cashReport
  infer_instance

instance (x : ShareType) : Respects (Fixing Database.charters) (processContentCashout x) := by
  unfold processContentCashout
  infer_instance

instance : Respects (Fixing Database.charters) settleBlock := by
  unfold settleBlock
  infer_instance

end Elsewhere

/-! ## Runs -/

section Runs

variable [Externals]

/-- What the last requests ask for is what there is, whatever was called before. -/
def Manages (s : Database) (l : List Call) (s' : Database) : Prop :=
  ∀ before, Managed before s.charters → Managed (before ++ l) s'.charters

omit [Externals] in
theorem manages_of_charters (h : s'.charters = s.charters) : Manages s [] s' := by
  intro before hm
  rw [List.append_nil, h]
  exact hm

omit [Externals] in
theorem traces_manages : Traces Manages where
  pending s x := manages_of_charters rfl
  append h1 h2 := by
    intro before hm
    rw [← List.append_assoc]
    exact h2 _ (h1 before hm)
  update {s u o l} h := by
    intro before hm
    have hupdate := h _ (hm.append (c := ⟨s, .proposalUpdate o⟩) fun _ _ => rfl)
    rwa [List.append_assoc] at hupdate

/-- One evaluator call makes those managers that its operation requests, and no others. -/
theorem evaluate_manages {push : Nat → DbM Unit} {op : Operation} (hop : op.isProposalUpdate = false)
    (hv : op.validate = .ok ()) (hr : Runs (evaluate push op) s () s') : Manages s [⟨s, op⟩] s' := by
  intro before hm
  cases hi : op.writes .catalogue with
  | false =>
      rw [charters_of_catalogue (evaluate_same hop hi hr)]
      refine hm.append fun side url => ?_
      cases op <;> first | rfl | exact (Bool.false_ne_true hi.symm).elim
  | true =>
      cases op <;> first | exact (Bool.false_ne_true hi).elim | skip
      case content o => exact hm.content hv hr
      case contentUpdate o => exact hm.contentUpdate hv hr
      case contentDisable url =>
        have hr : Runs (contentDisableEvaluator url) s () s' := hr
        rw [Respects.rel (R := Fixing Database.charters) hr]
        exact hm.append fun _ _ => rfl
      case streamingPlatformReport o =>
        have hr : Runs (streamingPlatformReportEvaluator o) s () s' := hr
        rw [Respects.rel (R := Fixing Database.charters) hr]
        exact hm.append fun _ _ => rfl

/-- One move makes those managers that its calls request, in their order. -/
theorem move_manages {m : Move} (hs : ProposalsValid s) (hr : Runs m.run s () s') :
    Manages s (m.calls s) s' := by
  refine (Move.run_trace traces_manages (fun _ _ _ _ hop hv h => evaluate_manages hop hv h) ?_ ?_ ?_ ?_
    hs hr).1
  · exact fun _ _ _ h => manages_of_charters (Respects.rel (R := Fixing Database.charters) h)
  · exact fun _ _ _ h => manages_of_charters (Respects.rel (R := Fixing Database.charters) h)
  · exact fun _ _ _ h => manages_of_charters (Respects.rel (R := Fixing Database.charters) h)
  · exact fun _ _ h => manages_of_charters (Respects.rel (R := Fixing Database.charters) h)

/-- Every run leaves each side of each content to the managers that were requested for it last. -/
theorem Chronicle.managed {p : Phase} (h : Chronicle p l s) : Managed l s.charters := by
  induction h with
  | genesis hg =>
      rw [charters_of_catalogue (Writes.catalogue_eq hg (by decide))]
      exact Managed.empty
  | move hs _ hm ih => exact move_manages hs.reachable.proposalsValid hm _ ih

/-- **Management.** In every state of every run, for each content and each side it has: votes were
requested, and the weights of the accounts are what was requested last and add up to 100 just if that
request is plain. -/
theorem management_exact {p : Phase} (h : Chronicle p l s) {id : Nat} {c : ContentObject}
    (hc : s.contents.find? id = some c) :
    (∃ votes, lastRequest .master c.url l = some votes ∧
      (CarriesVotes votes c.manageMaster.accountAuths ↔ PlainVotes votes)) ∧
    (c.compMeta.thirdPartyPublishers = true → ∃ votes, lastRequest .comp c.url l = some votes ∧
      (CarriesVotes votes c.manageComp.accountAuths ↔ PlainVotes votes)) := by
  have hcharter : s.charters.find? id = some c.charter := by
    rw [find?_charters, hc]
    rfl
  have hside : ∀ side, (side = .comp → c.compMeta.thirdPartyPublishers = true) →
      ∃ votes, lastRequest side c.url l = some votes ∧
        (CarriesVotes votes (c.charter.manage side) ↔ PlainVotes votes) := by
    intro side hthird
    obtain ⟨votes, hlast, htotal, hmanage⟩ := h.managed.requested id c.charter hcharter side hthird
    exact ⟨votes, hlast, hmanage ▸ carriesVotes_iff htotal⟩
  exact ⟨hside .master (by simp), fun htwo => hside .comp fun _ => htwo⟩

end Runs

section Samples

open Sample

/-- A content whose master side is managed by these votes. -/
def managedContent (votes : List ManagementVote) : ContentOperation :=
  { sampleContent with management := votes }

/-- 60 votes of one account and 40 of another are kept. -/
theorem management_exact_plain : ∃ l s c, Chronicle .applying l s ∧ s.contents.find? 0 = some c ∧
    CarriesVotes [⟨"initminer", 60⟩, ⟨"initminer1", 40⟩] c.manageMaster.accountAuths := by
  have hrun : leadsTo (initGenesis {}) {} (fun s => leadsTo (applyOperation BTCM_MAX_PROPOSAL_NESTING
      (.content (managedContent [⟨"initminer", 60⟩, ⟨"initminer1", 40⟩]))) s fun s' =>
        (s'.contents.find? 0).any fun c => decide (c.url = "bmfs://song")) = true := by
    decide +kernel
  obtain ⟨s, hs, hrun⟩ := leadsTo_iff.mp hrun
  obtain ⟨s', hr, hc⟩ := leadsTo_iff.mp hrun
  obtain ⟨c, hc, hurl⟩ := (Option.any_eq_true _ _).mp hc
  have hl := (Chronicle.genesis hs).operation (by decide +kernel) hr
  rw [calls_eq_self rfl, List.nil_append] at hl
  obtain ⟨⟨votes, hlast, hiff⟩, -⟩ := management_exact hl hc
  rw [of_decide_eq_true hurl] at hlast
  obtain rfl := Option.some.inj hlast
  exact ⟨_, s', c, hl, hc, hiff.mpr (.of_nodup (by decide) (by decide))⟩

/-- An account that is named twice, with 50 votes each, keeps 50, and nobody has the others. -/
theorem repeated_voter_loses : ∃ l s c, Chronicle .applying l s ∧
    (managedContent [⟨"initminer", 50⟩, ⟨"initminer", 50⟩]).validate = .ok () ∧
    s.contents.find? 0 = some c ∧
    lastRequest .master c.url l = some [⟨"initminer", 50⟩, ⟨"initminer", 50⟩] ∧
    weightOf c.manageMaster.accountAuths "initminer" = 50 ∧
    c.manageMaster.accountAuths.sum (fun _ w => (w.toNat : ℤ)) = 50 ∧
    ¬CarriesVotes [⟨"initminer", 50⟩, ⟨"initminer", 50⟩] c.manageMaster.accountAuths := by
  have hrun : leadsTo (initGenesis {}) {} (fun s => leadsTo (applyOperation BTCM_MAX_PROPOSAL_NESTING
      (.content (managedContent [⟨"initminer", 50⟩, ⟨"initminer", 50⟩]))) s fun s' =>
        (s'.contents.find? 0).any fun c => decide (c.url = "bmfs://song" ∧
          weightOf c.manageMaster.accountAuths "initminer" = 50 ∧
          c.manageMaster.accountAuths.sum (fun _ w => (w.toNat : ℤ)) = 50)) = true := by
    decide +kernel
  have hv : (managedContent [⟨"initminer", 50⟩, ⟨"initminer", 50⟩]).validate = .ok () := by
    decide +kernel
  obtain ⟨s, hs, hrun⟩ := leadsTo_iff.mp hrun
  obtain ⟨s', hr, hc⟩ := leadsTo_iff.mp hrun
  obtain ⟨c, hc, hkept⟩ := (Option.any_eq_true _ _).mp hc
  obtain ⟨hurl, hweight, htotal⟩ := of_decide_eq_true hkept
  have hop : (Operation.content (managedContent [⟨"initminer", 50⟩, ⟨"initminer", 50⟩])).validate =
    .ok () := hv
  have hl := (Chronicle.genesis hs).operation hop hr
  rw [calls_eq_self rfl, List.nil_append] at hl
  refine ⟨_, s', c, hl, hv, hc, by rw [hurl]; rfl, hweight, htotal, fun hcarries => ?_⟩
  have hrequested := hcarries.total
  rw [htotal] at hrequested
  cases hrequested

end Samples

end BtcmChain
