import BtcmChain.Chain.Run
import Mathlib.Algebra.BigOperators.Ring.List

set_option autoImplicit false

/-!
# Content splits

The payees of a content side share its royalties in base points. The stateless checks
add the shares of a list up in 32 bits, so a list whose exact total is a multiple of
2^32 away from 10000 passes too; and a `content_operation` may carry payees that all have
the share zero. Lists without these two defects are true splits, they stay so over whole
runs, and a true split never pays out more than it was given.
-/

namespace BtcmChain

/-- The base points of a list of payees, as an unbounded number. -/
def bpTotal (ds : List Distribution) : ℕ := (ds.map fun d => d.bp.toNat).sum

/-- No payees, or shares that add up to the whole. -/
def TrueSplit (ds : List Distribution) : Prop := ds = [] ∨ bpTotal ds = 10000

/-- The shares do not wrap, and payees are there to be paid. -/
def FitsSplit (ds : List Distribution) : Prop := bpTotal ds < 2 ^ 32 ∧ (bpTotal ds = 0 → ds = [])

theorem toNat_distributionTotal (ds : List Distribution) :
    (distributionTotal ds).toNat = bpTotal ds % 2 ^ 32 := by
  induction ds with
  | nil => rfl
  | cons d ds ih =>
      simp only [distributionTotal, bpTotal, List.map_cons, List.sum_cons, UInt32.toNat_add] at ih ⊢
      rw [ih, Nat.add_mod_mod]

/-- A list that passes the check of a `content_operation` is a true split exactly when
it fits. -/
theorem trueSplit_iff_fits {ds : List Distribution}
    (h : distributionTotal ds = 0 ∨ distributionTotal ds = 10000) : TrueSplit ds ↔ FitsSplit ds := by
  have hmod : bpTotal ds % 2 ^ 32 = 0 ∨ bpTotal ds % 2 ^ 32 = 10000 := by
    rw [← toNat_distributionTotal]
    exact h.imp (fun h => by rw [h]; rfl) (fun h => by rw [h]; rfl)
  unfold TrueSplit FitsSplit
  constructor
  · rintro (rfl | h)
    · exact ⟨by decide, fun _ => rfl⟩
    · omega
  · rintro ⟨hlt, hzero⟩
    rw [Nat.mod_eq_of_lt hlt] at hmod
    exact hmod.imp hzero id

/-- A list of new payees that passes the check of a `content_update_operation` is a true
split exactly when its shares do not wrap. -/
theorem trueSplit_iff_of_total {ds : List Distribution} (h : distributionTotal ds = 10000) :
    TrueSplit ds ↔ bpTotal ds < 2 ^ 32 := by
  rw [trueSplit_iff_fits (Or.inr h)]
  have hmod : bpTotal ds % 2 ^ 32 = 10000 := by rw [← toNat_distributionTotal, h]; rfl
  exact ⟨And.left, fun hlt => ⟨hlt, fun hz => by rw [hz] at hmod; cases hmod⟩⟩

/-! ## Paying along a split -/

section Pay

variable {toPay total total' : ShareType} {d : Distribution} {ds : List Distribution}
  {s s' : Database}

/-- What one payee is paid out of an amount: its share of it in basis points, cut off towards zero.
-/
theorem payDistribution_total (h : Runs (payDistribution toPay total d) s total' s') :
    total'.toInt = total.toInt + (toPay.toInt * d.bp.toNat).tdiv 10000 := by
  simp only [payDistribution, runs_bind_ofExcept, bpShare, except_bind_ok] at h
  obtain ⟨reward, ⟨scaled, hscaled, hreward⟩, t, ht, _, _, h⟩ := h
  rw [runs_bind_getAccount] at h
  obtain ⟨author, -, h⟩ := h
  rw [runs_bind] at h
  obtain ⟨_, t1, -, h⟩ := h
  rw [runs_bind] at h
  obtain ⟨_, t2, -, h⟩ := h
  obtain ⟨rfl, -⟩ := runs_pure.mp h
  rw [safeAdd_ok] at ht
  rw [safeMul_ok, ShareType.toInt_ofUInt32] at hscaled
  rw [safeDiv_ok, hscaled] at hreward
  rw [ht, hreward.2]
  rfl

/-- What a list of payees is paid out of an amount: the sum of the shares of all of them. -/
theorem payDistributions_total (h : Runs (payDistributions toPay ds) s total s') :
    total.toInt = (ds.map fun d => (toPay.toInt * d.bp.toNat).tdiv 10000).sum := by
  suffices hsum : ∀ (ds : List Distribution) (acc : ShareType) (s : Database),
      Runs (ds.foldlM (payDistribution toPay) acc) s total s' →
      total.toInt = acc.toInt + (ds.map fun d => (toPay.toInt * d.bp.toNat).tdiv 10000).sum by
    simpa using hsum ds 0 s h
  intro ds
  induction ds with
  | nil =>
      intro acc s h
      obtain ⟨rfl, -⟩ := runs_pure.mp h
      simp
  | cons d ds ih =>
      intro acc s h
      rw [List.foldlM_cons, runs_bind] at h
      obtain ⟨acc', t, h1, h2⟩ := h
      rw [ih acc' t h2, payDistribution_total h1, List.map_cons, List.sum_cons]
      ring

/-- Rounding down each share, the shares of a whole never exceed the whole. -/
theorem sum_shares_le {x : ℤ} (hx : 0 ≤ x) (ds : List Distribution) :
    10000 * (ds.map fun d => (x * d.bp.toNat).tdiv 10000).sum ≤ x * bpTotal ds := by
  induction ds with
  | nil => simp [bpTotal]
  | cons d ds ih =>
      have hd : 0 ≤ x * d.bp.toNat := mul_nonneg hx (Int.natCast_nonneg _)
      have hshare : 10000 * (x * d.bp.toNat).tdiv 10000 ≤ x * d.bp.toNat := by
        rw [Int.tdiv_eq_ediv_of_nonneg hd]
        omega
      simp only [bpTotal, List.map_cons, List.sum_cons, Nat.cast_add] at ih ⊢
      linarith

/-- A true split pays out at most what it is given. -/
theorem payDistributions_le (hsplit : TrueSplit ds) (hpay : 0 ≤ toPay.toInt)
    (h : Runs (payDistributions toPay ds) s total s') : total.toInt ≤ toPay.toInt := by
  rw [payDistributions_total h]
  rcases hsplit with rfl | htotal
  · simpa using hpay
  · have hle := sum_shares_le hpay ds
    rw [htotal] at hle
    push_cast at hle
    linarith

/-- Paying a side that is truly split leaves it with a non-negative rest. -/
theorem payToContentSide_accumulated {side : Side} {content : Nat} {payout : ShareType}
    {co : ContentObject} (hco : s.contents.find? content = some co)
    (hsplit : TrueSplit (co.distributions side))
    (hpay : 0 ≤ payout.toInt + (co.accumulated side).toInt)
    (h : Runs (payToContentSide side content payout) s () s') :
    ∃ co', s'.contents.find? content = some co' ∧ 0 ≤ (co'.accumulated side).toInt := by
  have hset : ∀ {t : Database} {x : ShareType}, 0 ≤ x.toInt →
      Runs (modifyPool content fun p => .ok (p.setAccumulated x side)) t () s' →
      ∃ co', s'.contents.find? content = some co' ∧ 0 ≤ (co'.accumulated side).toInt := by
    intro t x hx hr
    obtain ⟨c, p, hc, hp, rfl⟩ := runs_modifyPool.mp hr
    obtain rfl := Except.ok.inj hp
    refine ⟨_, by rw [ObjectIndex.find?_update, if_pos rfl, hc]; rfl, ?_⟩
    cases side <;> exact hx
  obtain ⟨c, hc, hcases⟩ := runs_payToContentSide h
  obtain rfl := Option.some.inj (hco.symm.trans hc)
  rcases hcases with ⟨-, x, hx, hr⟩ | ⟨-, toPay, totalPaid, rest, t, htoPay, hpaid, hrest, hr⟩
  · exact hset (by omega) hr
  · have hle := payDistributions_le hsplit (by omega) hpaid
    rcases hr with hr | ⟨heq, rfl⟩
    · exact hset (by omega) hr
    · obtain ⟨co', hco', hpool⟩ := payDistributions_pool hpaid hco
      refine ⟨co', hco', ?_⟩
      rw [hpool, heq]
      omega

end Pay

/-! ## Splits over runs -/

/-- Both sides of every content in the state are truly split among their payees. -/
def SplitsTrue (s : Database) : Prop :=
  ∀ id c, s.contents.find? id = some c → ∀ side, TrueSplit (c.distributions side)

theorem SplitsTrue.congr {s s' : Database} (h : SplitsTrue s) (he : s'.splits = s.splits) :
    SplitsTrue s' := by
  intro id c hc side
  have hfind : s.splits.find? id = some c.toContentSplit := by
    rw [← he, Database.splits, FlatMap.find?_mapVals]
    exact congrArg (Option.map _) hc
  rw [Database.splits, FlatMap.find?_mapVals] at hfind
  obtain ⟨c', hc', hsplit⟩ := Option.map_eq_some_iff.mp hfind
  rw [← hsplit]
  exact h id c' hc' side

/-- The lists of payees that an operation brings along fit: they add up as they should without
wrapping around. -/
def Operation.SplitsFit : Operation → Prop
  | .content o =>
      FitsSplit o.distributions ∧
        (o.compMeta.thirdPartyPublishers = true → FitsSplit (o.distributionsComp.getD []))
  | .contentUpdate o => bpTotal o.newDistributions < 2 ^ 32
  | _ => True

section Runs

variable [Externals]

/-- What a valid `content_operation` stores is truly split exactly when it fits. -/
theorem toObject_trueSplit_iff {o : ContentOperation} (hv : o.validate = .ok ())
    (now : TimePointSec) :
    (∀ side, TrueSplit ((o.toObject now).distributions side)) ↔
      (Operation.content o).SplitsFit := by
  simp only [ContentOperation.validate, except_bind_ok] at hv
  obtain ⟨_, -, _, -, _, -, _, -, _, -, _, hmaster, _, -, hv⟩ := hv
  have hmaster : distributionTotal o.distributions = 0 ∨ distributionTotal o.distributions = 10000 := by
    simpa using hmaster
  have hcomp : o.compMeta.thirdPartyPublishers = true →
      distributionTotal (o.distributionsComp.getD []) = 0 ∨
        distributionTotal (o.distributionsComp.getD []) = 10000 := by
    intro htwo
    rw [if_pos htwo] at hv
    simp only [except_bind_ok] at hv
    obtain ⟨_, -, _, hcomp, -⟩ := hv
    simpa using hcomp
  have hsides : (∀ side, TrueSplit ((o.toObject now).distributions side)) ↔
      TrueSplit o.distributions ∧
        TrueSplit (if o.compMeta.thirdPartyPublishers then o.distributionsComp.getD [] else []) :=
    ⟨fun h => ⟨h .master, h .comp⟩, fun h side => by cases side; exacts [h.1, h.2]⟩
  rw [hsides, Operation.SplitsFit, trueSplit_iff_fits hmaster]
  refine and_congr_right fun _ => ?_
  by_cases htwo : o.compMeta.thirdPartyPublishers = true
  · rw [if_pos htwo, trueSplit_iff_fits (hcomp htwo)]
    exact ⟨fun h _ => h, fun h => h htwo⟩
  · rw [if_neg htwo]
    exact ⟨fun _ h => absurd h htwo, fun _ => Or.inl rfl⟩

/-- An edit keeps the sides truly split if its new payees do not wrap. -/
theorem edit_trueSplit {o : ContentUpdateOperation} (hv : o.validate = .ok ())
    (hfit : bpTotal o.newDistributions < 2 ^ 32) {now : TimePointSec} {c : ContentObject}
    (hc : ∀ side, TrueSplit (c.distributions side)) (side : Side) :
    TrueSplit ((o.edit now c).distributions side) := by
  have hnew : ∀ ds, TrueSplit ds → TrueSplit (o.distributions ds) := by
    intro ds hds
    simp only [ContentUpdateOperation.validate, except_bind_ok] at hv
    obtain ⟨_, -, _, -, _, -, _, -, _, -, hv⟩ := hv
    unfold ContentUpdateOperation.distributions
    by_cases hempty : o.newDistributions.isEmpty = true
    · rw [if_pos hempty]
      exact hds
    · rw [if_neg hempty] at hv ⊢
      simp only [except_bind_ok] at hv
      obtain ⟨_, -, _, htotal, -⟩ := hv
      exact (trueSplit_iff_of_total (by simpa using htotal)).mpr hfit
  have hmaster : TrueSplit c.distributionsMaster := hc .master
  have hcomp : TrueSplit c.distributionsComp := hc .comp
  by_cases hm : o.side = SIDE_MASTER <;> cases side <;>
    simp only [ContentSplit.distributions, ContentUpdateOperation.edit, ContentUpdateOperation.finish,
      hm, if_true, if_false, ContentUpdateOperation.editMaster, ContentUpdateOperation.editComp]
  · exact hnew _ hmaster
  · exact hcomp
  · exact hmaster
  · exact hnew _ hcomp

/-- One evaluator call keeps the contents truly split, when the lists it brings along fit. -/
theorem evaluate_splitsTrue {push : Nat → DbM Unit} {op : Operation} {s s' : Database}
    (hop : op.isProposalUpdate = false) (hv : op.validate = .ok ()) (hfit : op.SplitsFit)
    (hs : SplitsTrue s) (h : Runs (evaluate push op) s () s') : SplitsTrue s' := by
  cases hi : op.writes .splits with
  | false => exact hs.congr (evaluate_same hop hi h)
  | true =>
    cases op <;> first | exact (Bool.false_ne_true hi).elim | skip
    case content o =>
      obtain ⟨-, rfl⟩ := runs_contentEvaluator h
      intro id c hc
      have hc' : (s.contents.create (o.toObject s.dgpo.time)).find? id = some c := hc
      rw [ObjectIndex.find?_create] at hc'
      split at hc'
      · cases hc'
        exact (toObject_trueSplit_iff hv _).mpr hfit
      · exact hs id c hc'
    case contentUpdate o =>
      obtain ⟨e, he, -, h⟩ := runs_contentUpdateEvaluator h
      have hc := (ObjectIndex.find?_of_findBy? he).1
      have hedited : SplitsTrue (o.editedState e s) := by
        intro id c hid
        have hid' : (s.contents.update e.id fun _ => o.edit s.dgpo.time e.val).find? id = some c := hid
        rw [ObjectIndex.find?_update, hc] at hid'
        split at hid'
        · cases hid'
          exact edit_trueSplit hv hfit (hs e.id e.val hc)
        · exact hs id c hid'
      rcases h with rfl | ⟨-, -, hr⟩
      · exact hedited
      · exact hedited.congr (Writes.splits_eq hr (by decide))

/-- Every call of a move brings along payees that fit. -/
def PayeesFit (s : Database) (m : Move) : Prop := ∀ c ∈ m.calls s, c.op.SplitsFit

theorem splitsTrue_of_reachableIf {s : Database} (hs : ReachableIf PayeesFit s) : SplitsTrue s := by
  induction hs with
  | genesis h =>
      have hnone : SplitsTrue {} := fun id c hc => by cases hc
      exact hnone.congr (Writes.splits_eq h (by decide))
  | move hr hfit hm ih =>
      refine (Move.run_induction (C := fun c => c.op.SplitsFit) (fun s x h => h) ?_ ?_ ?_ ?_ ?_
        hr.reachable.proposalsValid hfit ih hm).1
      · exact fun push op s s' hop hv hc hP h => evaluate_splitsTrue hop hv hc hP h
      · exact fun b s s' hP h => hP.congr (Writes.splits_eq h (by decide))
      · exact fun b s s' hP h => hP.congr (Writes.splits_eq h (by decide))
      · exact fun _ s s' hP h => hP.congr (Writes.splits_eq h (by decide))
      · exact fun s s' hP h => hP.congr (Writes.splits_eq h (by decide))

/-- In a run whose payees fit, every content is truly split; and wherever a side is paid,
be it in the middle of a move, its payees get at most what there is to pay and the rest
that is kept is not negative. -/
theorem content_splits_pay_within {s : Database} (hs : ReachableIf PayeesFit s) :
    SplitsTrue s ∧
      ∀ (t : Database) (id : Nat) (c : ContentObject) (side : Side) (payout : ShareType),
        t.splits = s.splits → t.contents.find? id = some c →
        0 ≤ payout.toInt + (c.accumulated side).toInt →
        (∀ toPay total u, toPay.toInt = payout.toInt + (c.accumulated side).toInt →
          Runs (payDistributions toPay (c.distributions side)) t total u →
          total.toInt ≤ payout.toInt + (c.accumulated side).toInt) ∧
        ∀ t', Runs (payToContentSide side id payout) t () t' →
          ∃ c', t'.contents.find? id = some c' ∧ 0 ≤ (c'.accumulated side).toInt := by
  have htrue := splitsTrue_of_reachableIf hs
  refine ⟨htrue, fun t id c side payout ht hc hpay => ⟨?_, ?_⟩⟩
  · intro toPay total u htoPay hr
    rw [← htoPay] at hpay ⊢
    exact payDistributions_le (htrue.congr ht id c hc side) hpay hr
  · intro t' hr
    exact payToContentSide_accumulated hc (htrue.congr ht id c hc side) hpay hr

end Runs

section Samples

open Sample

/-- A content with two payees, who get the given shares of its rewards. -/
def splitContent (bp1 bp2 : UInt32) : ContentOperation where
  uploader := "initminer"
  url := "bmfs://song"
  albumMeta := { albumTitle := "album" }
  trackMeta := { trackTitle := "track" }
  compMeta := {}
  distributions := [⟨"initminer", bp1⟩, ⟨"initminer1", bp2⟩]
  management := [⟨"initminer", 100⟩]
  managementThreshold := 100

/-- Shares of 4294967295 and 10001 base points add up to 10000 in 32 bits. -/
theorem wrapped_split_is_stored :
    (Operation.content (splitContent 4294967295 10001)).validate = .ok () ∧
      ∃ s, Reachable s ∧ ∃ id c, s.contents.find? id = some c ∧
        ¬ TrueSplit (c.distributions .master) := by
  refine ⟨by decide +kernel, ?_⟩
  have hrun : leadsTo
      (replay {} [⟨"initminer", 1585422003, [[.content (splitContent 4294967295 10001)]]⟩]) {}
      (fun s => (s.contents.find? 0).any fun c =>
        decide (c.distributionsMaster = [⟨"initminer", 4294967295⟩, ⟨"initminer1", 10001⟩])) = true := by
    decide +kernel
  obtain ⟨s, hs, hc⟩ := leadsTo_iff.mp hrun
  obtain ⟨c, hc, hds⟩ := (Option.any_eq_true _ _).mp hc
  refine ⟨s, replay_reachable hs, 0, c, hc, ?_⟩
  rw [ContentSplit.distributions, of_decide_eq_true hds]
  rintro (h | h) <;> simp [bpTotal] at h

/-- Shares of 6000 and 4000 base points are stored as they should be. -/
theorem fitting_split_is_stored :
    ∃ s, ReachableIf PayeesFit s ∧ (s.contents.find? 0).isSome ∧ SplitsTrue s := by
  have hrun : leadsTo (initGenesis {}) {} (fun s =>
      leadsTo (Move.operation (.content (splitContent 6000 4000))).run s fun s' =>
        (s'.contents.find? 0).isSome) = true := by
    decide +kernel
  obtain ⟨s, hs, hrun⟩ := leadsTo_iff.mp hrun
  obtain ⟨s', hm, hc⟩ := leadsTo_iff.mp hrun
  have hfit : PayeesFit s (.operation (.content (splitContent 6000 4000))) := by
    intro c hcall
    rw [Move.calls, calls_eq_self rfl, List.mem_singleton] at hcall
    subst hcall
    exact ⟨⟨by decide, fun h => absurd h (by decide)⟩, fun h => by cases h⟩
  have hreach : ReachableIf PayeesFit s' := .move (.genesis hs) hfit hm
  exact ⟨s', hreach, hc, (content_splits_pay_within hreach).1⟩

end Samples

end BtcmChain
