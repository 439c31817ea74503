import BtcmChain.Sound.ContentSides
import BtcmChain.Sound.Payouts
import BtcmChain.Sound.Suffrage

set_option autoImplicit false
set_option synthInstance.maxSize 10000000
set_option synthInstance.maxHeartbeats 200000

/-!
# Where the reward of a report goes

The reward of a report is divided among the two sides of the content, the platform that played it
and the platform that reported it, by two percentages of the content and one of the report. Each
part is a difference to what was rounded down before, so nothing is lost or made: the four parts are
not negative and add up to the reward, each of them reaches those it is for, and the reward is what
the cashout counts as paid.

Who has what afterwards is said in the terms of `Sound.Payouts`: payees have XUSD, owners of
platforms have vesting shares, and a side without payees has accumulated its part.
-/

namespace BtcmChain

/-! ## The four parts -/

/-- What the reward of a report is divided into: a part for each side, and one for each platform. -/
structure RewardSplit where
  master : ShareType
  comp : ShareType
  spinning : ShareType
  reporting : ShareType

/-- The part of a reward that goes to one side of the content. -/
def RewardSplit.side (x : RewardSplit) : Side → ShareType
  | .master => x.master
  | .comp => x.comp

/-- What is left of the platform reward for the spinning platform, if it is shared. -/
def ReportObject.spinnerReward (r : ReportObject) (platformReward reporterReward : ShareType) :
    Except Exn ShareType :=
  if r.isShared && decide (reporterReward < platformReward) then
    safeSub platformReward reporterReward
  else .ok 0

/-- The parts as `pay_to_content` and the loop of `process_content_cashout` compute them. -/
def rewardSplit (c : ContentSplit) (r : ReportObject) (reward : ShareType) :
    Except Exn RewardSplit := do
  let toPlatforms ← bpShare reward (.ofUInt32 c.playingReward)
  let forOwners ← safeSub reward toPlatforms
  let comp ← bpShare forOwners (.ofUInt32 c.publishersShare)
  let master ← safeSub forOwners comp
  let contentPayment ← safeAdd master comp
  let platformReward ← safeSub reward contentPayment
  let reporting ← r.reporterReward platformReward
  let spinning ← r.spinnerReward platformReward reporting
  return { master, comp, spinning, reporting }

/-- The parts are not negative and add up to the reward. -/
structure RewardSplit.Exact (x : RewardSplit) (reward : ShareType) : Prop where
  master : 0 ≤ x.master.toInt
  comp : 0 ≤ x.comp.toInt
  spinning : 0 ≤ x.spinning.toInt
  reporting : 0 ≤ x.reporting.toInt
  total : x.master.toInt + x.comp.toInt + x.spinning.toInt + x.reporting.toInt = reward.toInt

/-- The shares of a content that its operations are allowed to set. -/
def ContentSplit.SharesValid (c : ContentSplit) : Prop :=
  c.playingReward < 10000 ∧ c.publishersShare < 10000

/-- The percentage for the reporting platform that a request is allowed to offer. -/
def ReportObject.PctValid (r : ReportObject) : Prop := ∀ pct, r.rewardPct = some pct → pct ≤ 10000

variable {amount factor x reward : ShareType} {c : ContentSplit} {r : ReportObject} {split : RewardSplit}

/-- A share of at most the whole is neither negative nor more than the whole. -/
theorem bpShare_bounds (hx : bpShare amount factor = .ok x) (hamount : 0 ≤ amount.toInt)
    (hfactor : 0 ≤ factor.toInt) (hwhole : factor.toInt ≤ 10000) :
    0 ≤ x.toInt ∧ x.toInt ≤ amount.toInt := by
  simp only [bpShare, except_bind_ok, safeMul_ok, safeDiv_ok] at hx
  obtain ⟨scaled, hscaled, -, hx⟩ := hx
  have hnonneg : 0 ≤ amount.toInt * factor.toInt := mul_nonneg hamount hfactor
  have hle : amount.toInt * factor.toInt ≤ amount.toInt * 10000 :=
    mul_le_mul_of_nonneg_left hwhole hamount
  have h10000 : (10000 : ShareType).toInt = 10000 := rfl
  rw [hx, hscaled, h10000, Int.tdiv_eq_ediv_of_nonneg hnonneg]
  omega

/-- The share of an amount is computed if its product fits into 64 bits. -/
theorem exists_bpShare (hamount : 0 ≤ amount.toInt) (hfactor : 0 ≤ factor.toInt)
    (hfits : amount.toInt * factor.toInt < 2 ^ 63) : ∃ x, bpShare amount factor = .ok x := by
  have hnonneg : 0 ≤ amount.toInt * factor.toInt := mul_nonneg hamount hfactor
  have hscaled := Int64.toInt_ofInt_of_le (by omega : -2 ^ 63 ≤ amount.toInt * factor.toInt) hfits
  have hquot : (Int64.ofInt (amount.toInt * factor.toInt)).toInt.tdiv (10000 : ShareType).toInt =
      amount.toInt * factor.toInt / 10000 := by
    rw [hscaled, Int.tdiv_eq_ediv_of_nonneg hnonneg]
    rfl
  refine ⟨Int64.ofInt (amount.toInt * factor.toInt / 10000), ?_⟩
  simp only [bpShare, except_bind_ok, safeMul_ok, safeDiv_ok]
  refine ⟨_, hscaled, by decide, ?_⟩
  rw [hquot]
  exact Int64.toInt_ofInt_of_le (by omega) (by omega)

theorem toInt_share_bounds {n : UInt32} (h : n < 10000) :
    0 ≤ (ShareType.ofUInt32 n).toInt ∧ (ShareType.ofUInt32 n).toInt ≤ 10000 := by
  rw [ShareType.toInt_ofUInt32]
  have hn : n.toNat < 10000 := UInt32.lt_iff_toNat_lt.mp h
  omega

theorem ReportObject.PctValid.bounds (h : r.PctValid) :
    0 ≤ (ShareType.ofUInt32 (r.rewardPct.getD 0).toUInt32).toInt ∧
      (ShareType.ofUInt32 (r.rewardPct.getD 0).toUInt32).toInt ≤ 10000 := by
  rw [ShareType.toInt_ofUInt32, UInt16.toNat_toUInt32]
  cases hpct : r.rewardPct with
  | none => simp
  | some pct =>
      have hle : pct.toNat ≤ 10000 := UInt16.le_iff_toNat_le.mp (h pct hpct)
      simp only [Option.getD_some]
      omega

/-- The reporting platform gets some of the platform reward, and not more than all of it. -/
theorem reporterReward_bounds (h : r.reporterReward amount = .ok x) (hr : r.PctValid)
    (hamount : 0 ≤ amount.toInt) : 0 ≤ x.toInt ∧ x.toInt ≤ amount.toInt := by
  rw [ReportObject.reporterReward] at h
  split at h
  · exact bpShare_bounds h hamount hr.bounds.1 hr.bounds.2
  · cases h
    exact ⟨hamount, le_refl _⟩

/-- The spinning platform gets what the reporting platform leaves of the platform reward. -/
theorem spinnerReward_eq {reporting spinning : ShareType}
    (hreporting : r.reporterReward amount = .ok reporting) (hle : reporting.toInt ≤ amount.toInt)
    (h : r.spinnerReward amount reporting = .ok spinning) :
    spinning.toInt = amount.toInt - reporting.toInt := by
  rw [ReportObject.spinnerReward] at h
  split at h
  case isTrue => exact safeSub_ok.mp h
  case isFalse hnone =>
    cases h
    rw [ReportObject.reporterReward] at hreporting
    split at hreporting
    case isTrue hshared =>
      rw [hshared, Bool.true_and, decide_eq_true_eq, Int64.lt_iff_toInt_lt] at hnone
      show (0 : ℤ) = _
      omega
    case isFalse =>
      cases hreporting
      show (0 : ℤ) = _
      omega

/-- **The parts** of a reward that is split add up to the reward, and none of them is negative. -/
theorem rewardSplit_exact (h : rewardSplit c r reward = .ok split) (hc : c.SharesValid)
    (hr : r.PctValid) (hreward : 0 ≤ reward.toInt) : split.Exact reward := by
  simp only [rewardSplit, except_bind_ok, except_pure_ok, safeSub_ok, safeAdd_ok] at h
  obtain ⟨toPlatforms, hplatforms, forOwners, howners, comp, hcomp, master, hmaster, contentPayment,
    hpayment, platformReward, hrest, reporting, hreporting, spinning, hspinning, rfl⟩ := h
  obtain ⟨hp, hp'⟩ := toInt_share_bounds hc.1
  obtain ⟨hs, hs'⟩ := toInt_share_bounds hc.2
  obtain ⟨hplatforms, hplatforms'⟩ := bpShare_bounds hplatforms hreward hp hp'
  obtain ⟨hcomp, hcomp'⟩ := bpShare_bounds hcomp (by omega) hs hs'
  obtain ⟨hreporting₁, hreporting₂⟩ := reporterReward_bounds hreporting hr (by omega)
  have hspinning := spinnerReward_eq hreporting hreporting₂ hspinning
  constructor
  case master | comp | spinning | reporting | total => grind

/-- A number in the range of 64 bits is the value of some amount. -/
theorem exists_toInt_eq {z : ℤ} (h1 : -2 ^ 63 ≤ z) (h2 : z < 2 ^ 63) : ∃ y : ShareType, y.toInt = z :=
  ⟨_, Int64.toInt_ofInt_of_le h1 h2⟩

/-- A reward whose products fit is divided without an exception. -/
theorem exists_rewardSplit (hc : c.SharesValid) (hr : r.PctValid) (hreward : 0 ≤ reward.toInt)
    (hfits : reward.toInt * 10000 < 2 ^ 63) : ∃ split, rewardSplit c r reward = .ok split := by
  have hproduct : ∀ {a f : ShareType}, 0 ≤ a.toInt → a.toInt ≤ reward.toInt → 0 ≤ f.toInt →
      f.toInt ≤ 10000 → a.toInt * f.toInt < 2 ^ 63 := fun ha hle hf hf' =>
    lt_of_le_of_lt (mul_le_mul hle hf' hf hreward) hfits
  obtain ⟨hp, hp'⟩ := toInt_share_bounds hc.1
  obtain ⟨hs, hs'⟩ := toInt_share_bounds hc.2
  obtain ⟨toPlatforms, hplatforms⟩ := exists_bpShare hreward hp (hproduct hreward le_rfl hp hp')
  obtain ⟨hplatforms₁, hplatforms₂⟩ := bpShare_bounds hplatforms hreward hp hp'
  obtain ⟨forOwners, howners⟩ : ∃ y : ShareType, y.toInt = reward.toInt - toPlatforms.toInt :=
    exists_toInt_eq (by omega) (by omega)
  obtain ⟨comp, hcomp⟩ : ∃ y, bpShare forOwners (.ofUInt32 c.publishersShare) = .ok y :=
    exists_bpShare (by omega) hs (hproduct (by omega) (by omega) hs hs')
  obtain ⟨hcomp₁, hcomp₂⟩ := bpShare_bounds hcomp (by omega) hs hs'
  obtain ⟨master, hmaster⟩ : ∃ y : ShareType, y.toInt = forOwners.toInt - comp.toInt :=
    exists_toInt_eq (by omega) (by omega)
  obtain ⟨contentPayment, hpayment⟩ : ∃ y : ShareType, y.toInt = master.toInt + comp.toInt :=
    exists_toInt_eq (by omega) (by omega)
  obtain ⟨platformReward, hrest⟩ : ∃ y : ShareType, y.toInt = reward.toInt - contentPayment.toInt :=
    exists_toInt_eq (by omega) (by omega)
  obtain ⟨reporting, hreporting⟩ : ∃ y, r.reporterReward platformReward = .ok y := by
    rw [ReportObject.reporterReward]
    split
    · exact exists_bpShare (by omega) hr.bounds.1
        (hproduct (by omega) (by omega) hr.bounds.1 hr.bounds.2)
    · exact ⟨_, rfl⟩
  obtain ⟨hreporting₁, hreporting₂⟩ := reporterReward_bounds hreporting hr (by omega)
  obtain ⟨spinning, hspinning⟩ : ∃ y, r.spinnerReward platformReward reporting = .ok y := by
    rw [ReportObject.spinnerReward]
    split
    · obtain ⟨y, hy⟩ := exists_toInt_eq (by omega : -2 ^ 63 ≤ platformReward.toInt - reporting.toInt)
        (by omega)
      exact ⟨y, safeSub_ok.mpr hy⟩
    · exact ⟨0, rfl⟩
  refine ⟨⟨master, comp, spinning, reporting⟩, ?_⟩
  simp only [rewardSplit, except_bind_ok, except_pure_ok, safeSub_ok, safeAdd_ok]
  exact ⟨_, hplatforms, _, howners, _, hcomp, _, hmaster, _, hpayment, _, hrest, _, hreporting, _,
    hspinning, rfl⟩

/-! ## The payments -/

/-- A report's play does not count for the last day any more; nothing else changes. -/
structure PlayCounted (content : Nat) (s s' : Database) : Prop where
  counted : ∃ c c', s.contents.find? content = some c ∧ s'.contents.find? content = some c' ∧
    c'.timesPlayed24 = c.timesPlayed24 - 1
  funds : s'.funds = s.funds
  stakes : s'.stakes = s.stakes

/-- The parts have been handed out, one after the other: a side's part to its payees or into what it
has accumulated, a platform's part to its owner as vesting shares. -/
def RewardSplit.HandedOut (x : RewardSplit) (r : ReportObject) (s s' : Database) : Prop :=
  ∃ t u v w : Database,
    SidePaid .master r.content x.master s t ∧ SidePaid .comp r.content x.comp t u ∧
    PlayCounted r.content u v ∧ PlatformPaid r.spinner x.spinning v w ∧
    PlatformPaid r.streamingPlatform x.reporting w s'

section Payments

variable {s s' : Database} {content : Nat} {co : ContentObject}

/-- Whoever leaves the pools alone leaves each content its pool. -/
theorem find?_of_pools (h : s'.pools = s.pools) (hco : s.contents.find? content = some co) :
    ∃ co', s'.contents.find? content = some co' ∧ co'.toContentPool = co.toContentPool := by
  have hfind : s'.pools.find? content = some co.toContentPool := by
    rw [h, Database.pools, FlatMap.find?_mapVals]
    exact congrArg (Option.map _) hco
  rw [Database.pools, FlatMap.find?_mapVals] at hfind
  exact Option.map_eq_some_iff.mp hfind

theorem playCounted_of_runs
    (h : Runs (modifyContentInfo content fun c => { c with timesPlayed24 := c.timesPlayed24 - 1 })
      s () s') : PlayCounted content s s' := by
  refine ⟨?_, Writes.funds_eq h (by decide), Writes.stakes_eq h (by decide)⟩
  obtain ⟨c, c', hc, hchange, rfl⟩ := Table.runs_modify.mp h
  have hc : s.contents.find? content = some c := hc
  refine ⟨c, c', hc, ?_, ?_⟩
  · show ObjectIndex.find? (s.contents.update content _) content = _
    rw [ObjectIndex.find?_update, if_pos rfl, hc, Option.map_some]
  · obtain rfl := Except.ok.inj hchange
    rfl

theorem PlatformPaid.pools {p : StreamingPlatformId} {payout : ShareType}
    (h : PlatformPaid p payout s s') : s'.pools = s.pools := by
  rcases h with ⟨-, rfl⟩ | ⟨-, _, _, _, -, -, hvested, -⟩
  · rfl
  · exact hvested.pools

/-- The payout of a platform enters the vesting fund. -/
theorem PlatformPaid.fund {p : StreamingPlatformId} {payout : ShareType} (hpayout : 0 ≤ payout.toInt)
    (h : PlatformPaid p payout s s') :
    s'.dgpo.totalVestingFundBtcm.toInt = s.dgpo.totalVestingFundBtcm.toInt + payout.toInt := by
  rcases h with ⟨hnone, rfl⟩ | ⟨-, _, _, _, -, -, hvested, -⟩
  · omega
  · exact hvested.fund

/-- The payout of a platform is held from then on, while the books do not change. -/
theorem PlatformPaid.booked {p : StreamingPlatformId} {payout : ShareType} (hpayout : 0 ≤ payout.toInt)
    (h : PlatformPaid p payout s s') (id : AssetId) :
    s'.gap id = s.gap id - (btcm payout).amountIn id := by
  rcases h with ⟨hnone, rfl⟩ | ⟨-, _, _, _, -, -, -, hbooked⟩
  · have hzero : payout = 0 := Int64.toInt_inj.mp (le_antisymm hnone hpayout)
    rw [amountIn_of_zero hzero, sub_zero]
  · exact hbooked id

/-- Each side gets its part: what its payees do not get is accumulated. -/
theorem RewardSplit.HandedOut.accumulated {x : RewardSplit} (h : x.HandedOut r s s')
    (hco : s.contents.find? r.content = some co) :
    ∃ co', s'.contents.find? r.content = some co' ∧ ∀ side, (co'.accumulated side).toInt =
      (co.accumulated side).toInt + (x.side side).toInt - co.payeesTotal side (x.side side) := by
  obtain ⟨t, u, v, w, hmaster, hcomp, hplayed, hspinning, hreporting⟩ := h
  obtain ⟨c, c₁, -, kept₁, -, hc, -, -, -, hc₁, hsplit₁, hpool₁, hkept₁⟩ := hmaster.paid
  obtain rfl := Option.some.inj (hco.symm.trans hc)
  obtain ⟨c, c₂, -, kept₂, -, hc, -, -, -, hc₂, hsplit₂, hpool₂, hkept₂⟩ := hcomp.paid
  obtain rfl := Option.some.inj (hc₁.symm.trans hc)
  have hlater : s'.pools = u.pools :=
    hreporting.pools.trans (hspinning.pools.trans (congrArg Funds.pools hplayed.funds))
  obtain ⟨co', hco', hpool⟩ := find?_of_pools hlater hc₂
  refine ⟨co', hco', fun side => ?_⟩
  rw [hpool, hpool₂, hpool₁]
  cases side with
  | master => exact hkept₁
  | comp =>
      -- the master side's payment did not touch this one
      have hbefore : c₁.accumulated .comp = co.accumulated .comp := by
        rw [hpool₁]
        rfl
      have hpayees : c₁.payeesTotal .comp x.comp = co.payeesTotal .comp x.comp := by
        rw [ContentObject.payeesTotal, ContentObject.payeesTotal, hsplit₁, hbefore]
      rw [hbefore, hpayees] at hkept₂
      exact hkept₂

/-- What the platforms get enters the vesting fund, and nothing else does. -/
theorem RewardSplit.HandedOut.fund {x : RewardSplit} (h : x.HandedOut r s s') (hx : x.Exact reward) :
    s'.dgpo.totalVestingFundBtcm.toInt =
      s.dgpo.totalVestingFundBtcm.toInt + x.spinning.toInt + x.reporting.toInt := by
  obtain ⟨t, u, v, w, hmaster, hcomp, hplayed, hspinning, hreporting⟩ := h
  have hcounted : v.dgpo.totalVestingFundBtcm = u.dgpo.totalVestingFundBtcm :=
    congrArg GlobalSupply.totalVestingFundBtcm (supply_of_funds hplayed.funds)
  rw [hreporting.fund hx.reporting, hspinning.fund hx.spinning, hcounted, hcomp.fund, hmaster.fund]

/-- The whole reward is held by somebody from then on. -/
theorem RewardSplit.HandedOut.booked {x : RewardSplit} (h : x.HandedOut r s s') (hx : x.Exact reward)
    (id : AssetId) : s'.gap id = s.gap id - (btcm reward).amountIn id := by
  obtain ⟨t, u, v, w, hmaster, hcomp, hplayed, hspinning, hreporting⟩ := h
  rw [hreporting.booked hx.reporting, hspinning.booked hx.spinning, gap_congr hplayed.funds,
    hcomp.booked, hmaster.booked]
  simp only [amountIn_btcm, ← hx.total]
  split <;> ring

end Payments

/-! ## One round -/

section Rounds

variable {totalPayout : ShareType} {acc acc' : Cashout} {e : Entry ReportObject} {s s' : Database}

/-- What a report is worth in a state, and nothing if it cannot be assessed. -/
def reportReward (totalPayout : ShareType) (s : Database) (r : ReportObject) : ShareType :=
  match assessReport totalPayout r s with
  | .ok (a, _) => a.reward
  | .error _ => 0

theorem runs_assessReport {a : Assessed} (h : Runs (assessReport totalPayout r) s a s') :
    s' = s ∧ reportReward totalPayout s r = a.reward := by
  have hreward : reportReward totalPayout s r = a.reward := by
    rw [reportReward, show assessReport totalPayout r s = .ok (a, s') from h]
  simp only [assessReport, runs_bind_get, runs_bind_getAccount] at h
  obtain ⟨_, -, _, -, h⟩ := h
  obtain ⟨listened, t, hlistener, hrest⟩ := runs_bind.mp h
  obtain rfl := runs_listenerOf hlistener
  simp only [runs_bind_ofExcept, runs_bind_reads, runs_pure] at hrest
  obtain ⟨_, -, _, -, -, rfl⟩ := hrest
  exact ⟨rfl, hreward⟩

/-- The owners are paid what the platforms do not get, side by side. -/
theorem runs_payToContent {content : Nat} {payout paid : ShareType}
    (h : Runs (payToContent content payout) s paid s') :
    ∃ (co : ContentObject) (toPlatforms forOwners comp master : ShareType) (t u : Database),
      s.contents.find? content = some co ∧
      bpShare payout (.ofUInt32 co.playingReward) = .ok toPlatforms ∧
      safeSub payout toPlatforms = .ok forOwners ∧
      bpShare forOwners (.ofUInt32 co.publishersShare) = .ok comp ∧
      safeSub forOwners comp = .ok master ∧ safeAdd master comp = .ok paid ∧
      Runs (payToContentSide .master content master) s () t ∧
      Runs (payToContentSide .comp content comp) t () u ∧
      Runs (modifyContentInfo content fun c => { c with timesPlayed24 := c.timesPlayed24 - 1 })
        u () s' := by
  simp only [payToContent, runs_bind_get, runs_bind_ofExcept] at h
  obtain ⟨co, hco, toPlatforms, hplatforms, forOwners, howners, comp, hcomp, master, hmaster, h⟩ := h
  obtain ⟨⟨⟩, t, h1, h⟩ := runs_bind.mp h
  obtain ⟨⟨⟩, u, h2, h⟩ := runs_bind.mp h
  rw [runs_bind_ofExcept] at h
  obtain ⟨paid', hpaid, h⟩ := h
  obtain ⟨⟨⟩, v, h3, h⟩ := runs_bind.mp h
  obtain ⟨rfl, rfl⟩ := runs_pure.mp h
  exact ⟨co, toPlatforms, forOwners, comp, master, t, u, hco, hplatforms, howners, hcomp, hmaster,
    hpaid, h1, h2, h3⟩

/-- The two platforms are paid when what they get is more than nothing. -/
theorem runs_payPlatforms {platformReward reporting : ShareType}
    (h : Runs (payPlatforms r platformReward reporting) s () s') :
    ∃ (spinning : ShareType) (u : Database), r.spinnerReward platformReward reporting = .ok spinning ∧
      Runs (whenM (0 < spinning) (payToPlatform r.spinner spinning)) s () u ∧
      Runs (whenM (0 < reporting) (payToPlatform r.streamingPlatform reporting)) u () s' := by
  obtain ⟨⟨⟩, u, hspinner, hreporter⟩ := runs_bind.mp h
  rcases runs_whenM.mp hspinner with ⟨hshared, hpay⟩ | ⟨hnone, rfl⟩
  · obtain ⟨spinning, hspinning, hpay⟩ := runs_bind_ofExcept.mp hpay
    have hpositive : 0 < spinning := by
      rw [Bool.and_eq_true, decide_eq_true_eq, Int64.lt_iff_toInt_lt] at hshared
      rw [safeSub_ok] at hspinning
      rw [Int64.lt_iff_toInt_lt, Int64.toInt_zero]
      omega
    refine ⟨spinning, u, ?_, runs_whenM.mpr (.inl ⟨decide_eq_true hpositive, hpay⟩), hreporter⟩
    rw [ReportObject.spinnerReward, if_pos hshared, hspinning]
  · refine ⟨0, u, ?_, runs_whenM.mpr (.inr ⟨rfl, rfl⟩), hreporter⟩
    rw [ReportObject.spinnerReward, hnone]
    rfl

/-- What does not concern the listening statistics leaves the reports alone. -/
theorem reports_of_listening {α : Type} {m : DbM α} {C : List Concern} [Writes m C] {a : α}
    (h : Runs m s a s') (hC : Concern.listening ∉ C) : s'.reports = s.reports :=
  congrArg Listening.reports (Writes.listening_eq h hC)

/-- A round hands out the parts of what the report is worth, counts it as paid, and takes the report
out. -/
theorem runs_cashReport (h : Runs (cashReport totalPayout acc e) s acc' s') :
    ∃ (co : ContentObject) (split : RewardSplit) (u : Database),
      s.contents.find? e.val.content = some co ∧
      rewardSplit co.toContentSplit e.val (reportReward totalPayout s e.val) = .ok split ∧
      split.HandedOut e.val s u ∧ u.reports = s.reports ∧
      s' = { u with reports := u.reports.remove e.id } ∧
      acc'.paid.toInt = acc.paid.toInt + (reportReward totalPayout s e.val).toInt := by
  obtain ⟨a, s, hassess, hround⟩ := runs_bind.mp h
  obtain ⟨rfl, hreward⟩ := runs_assessReport hassess
  obtain ⟨contentPayment, v, hcontent, hround⟩ := runs_bind.mp hround
  have hreports : v.reports = s.reports := reports_of_listening hcontent (by decide)
  obtain ⟨co, toPlatforms, forOwners, comp, master, t, u, hco, hplatforms, howners, hcomp, hmaster,
    hpayment, h1, h2, h3⟩ := runs_payToContent hcontent
  simp only [runs_bind_ofExcept] at hround
  obtain ⟨paid, hpaid, platformReward, hrest, reporting, hreporting, hround⟩ := hround
  obtain ⟨⟨⟩, w, hpay, hround⟩ := runs_bind.mp hround
  rw [runs_bind_ofExcept] at hround
  obtain ⟨paid', hpaid', hround⟩ := hround
  rw [runs_bind_remove, runs_pure] at hround
  obtain ⟨rfl, rfl⟩ := hround
  rw [hreward]
  have hcount : (acc.note paid' e.val a.listened.listener).paid.toInt =
      acc.paid.toInt + a.reward.toInt := by
    rw [safeAdd_ok] at hpaid hpaid'
    rw [safeSub_ok] at hrest
    show paid'.toInt = _
    omega
  obtain ⟨spinning, x, hspinning, hspinner, hreporter⟩ := runs_payPlatforms hpay
  refine ⟨co, ⟨master, comp, spinning, reporting⟩, w, hco, ?_,
    ⟨t, u, v, x, sidePaid_of_runs h1, sidePaid_of_runs h2, playCounted_of_runs h3,
      platformPaid_of_runs hspinner, platformPaid_of_runs hreporter⟩,
    (reports_of_listening hpay (by decide)).trans hreports, rfl, hcount⟩
  simp only [rewardSplit, except_bind_ok, except_pure_ok]
  exact ⟨_, hplatforms, _, howners, _, hcomp, _, hmaster, _, hpayment, _, hrest, _, hreporting, _,
    hspinning, rfl⟩

/-- A round has split a reward exactly: into parts that are not negative and add up to it, and that
were handed out. So each side has accumulated what its payees did not get of its part, the vesting
fund holds what the platforms got, and the books show that all of the reward is held by somebody. -/
structure SplitsExactly (e : Entry ReportObject) (reward : ShareType) (s s' : Database) : Prop where
  parts : ∃ (co : ContentObject) (split : RewardSplit) (t : Database),
    s.contents.find? e.val.content = some co ∧
    rewardSplit co.toContentSplit e.val reward = .ok split ∧ split.Exact reward ∧
    split.HandedOut e.val s t ∧ s' = { t with reports := t.reports.remove e.id } ∧
    (∃ co', s'.contents.find? e.val.content = some co' ∧ ∀ side, (co'.accumulated side).toInt =
      (co.accumulated side).toInt + (split.side side).toInt - co.payeesTotal side (split.side side)) ∧
    s'.dgpo.totalVestingFundBtcm.toInt =
      s.dgpo.totalVestingFundBtcm.toInt + split.spinning.toInt + split.reporting.toInt
  booked : ∀ id, s'.gap id = s.gap id - (btcm reward).amountIn id

/-- All contents and reports hold what the operations are allowed to set. -/
structure SharesAdmitted (s : Database) : Prop where
  shares : ∀ id c, s.contents.find? id = some c → c.toContentSplit.SharesValid
  pcts : ∀ id r, s.reports.find? id = some r → r.PctValid

/-- A round of the cashout leaves the shares of all objects admitted. -/
theorem SharesAdmitted.cashReport (h : SharesAdmitted s)
    (hr : Runs (BtcmChain.cashReport totalPayout acc e) s acc' s') : SharesAdmitted s' := by
  have hsplits : s.splits = s'.splits := (Writes.splits_eq hr (by decide)).symm
  obtain ⟨co, split, u, -, -, -, hreports, rfl, -⟩ := runs_cashReport hr
  constructor
  · intro id c hc
    obtain ⟨c', hc', hsplit⟩ := find?_of_splits hsplits hc
    rw [← hsplit]
    exact h.shares id c' hc'
  · intro id r hfound
    have hfound : (u.reports.remove e.id).find? id = some r := hfound
    rw [ObjectIndex.find?_remove, hreports] at hfound
    split at hfound
    · cases hfound
    · exact h.pcts id r hfound

/-- A round of the cashout splits the reward of its report exactly. -/
theorem SharesAdmitted.splitsExactly (h : SharesAdmitted s)
    (hfound : s.reports.find? e.id = some e.val)
    (hr : Runs (BtcmChain.cashReport totalPayout acc e) s acc' s')
    (hreward : 0 ≤ (reportReward totalPayout s e.val).toInt) :
    SplitsExactly e (reportReward totalPayout s e.val) s s' := by
  obtain ⟨co, split, u, hco, hsplit, hpaid, -, rfl, -⟩ := runs_cashReport hr
  have hexact := rewardSplit_exact hsplit (h.shares _ co hco) (h.pcts _ _ hfound) hreward
  exact ⟨⟨co, split, u, hco, hsplit, hexact, hpaid, rfl, hpaid.accumulated hco, hpaid.fund hexact⟩,
    hpaid.booked hexact⟩

/-- The rounds that the cashout of a sum goes through from a state on. -/
def cashoutRounds (totalPayout : ShareType) (s : Database) :
    List (Round Database (Entry ReportObject) Cashout) :=
  rounds (reportIndex.due? (·.created.toNat) (ReportObject.isDue s.dgpo.time)) (cashReport totalPayout)
    s.reports.objs.size {} s

/-- **The cashout.** What it counts as paid are the rewards of the reports it cashes, and each round
whose reward is not negative splits it exactly: `s'` and `acc'` are what the round leaves. The parts
exist for every reward whose product with a whole fits 64 bits. -/
theorem cashout_splits {paid : ShareType} (hs : SharesAdmitted s)
    (h : Runs (processContentCashout totalPayout) s paid s') :
    paid.toInt = ((cashoutRounds totalPayout s).map fun ρ =>
      (reportReward totalPayout ρ.state ρ.item.val).toInt).sum ∧
    (∀ ρ ∈ cashoutRounds totalPayout s, 0 ≤ (reportReward totalPayout ρ.state ρ.item.val).toInt →
      ∃ acc' s', Runs (cashReport totalPayout ρ.acc ρ.item) ρ.state acc' s' ∧
        acc'.paid.toInt = ρ.acc.paid.toInt + (reportReward totalPayout ρ.state ρ.item.val).toInt ∧
        SplitsExactly ρ.item (reportReward totalPayout ρ.state ρ.item.val) ρ.state s') ∧
    ∀ id r co (reward : ShareType), s.reports.find? id = some r →
      s.contents.find? r.content = some co → 0 ≤ reward.toInt → reward.toInt * 10000 < 2 ^ 63 →
      ∃ split, rewardSplit co.toContentSplit r reward = .ok split ∧ split.Exact reward := by
  simp only [processContentCashout, runs_bind_headBlockTime, runs_bind_reads] at h
  obtain ⟨cashed, t, hloop, hrest⟩ := runs_bind.mp h
  obtain ⟨⟨⟩, u, -, hrest⟩ := runs_bind.mp hrest
  obtain ⟨rfl, rfl⟩ := runs_pure.mp hrest
  have htrace := drain_trace (R := fun acc s l acc' _ => SharesAdmitted s →
    acc'.paid.toInt = acc.paid.toInt + (l.map fun ρ =>
      (reportReward totalPayout ρ.state ρ.item.val).toInt).sum ∧
    ∀ ρ ∈ l, 0 ≤ (reportReward totalPayout ρ.state ρ.item.val).toInt →
      ∃ acc' s', Runs (cashReport totalPayout ρ.acc ρ.item) ρ.state acc' s' ∧
        acc'.paid.toInt = ρ.acc.paid.toInt + (reportReward totalPayout ρ.state ρ.item.val).toInt ∧
        SplitsExactly ρ.item (reportReward totalPayout ρ.state ρ.item.val) ρ.state s')
    ?_ ?_ hloop hs
  · obtain ⟨hpaid, hall⟩ := htrace
    refine ⟨hpaid.trans (zero_add _), hall, ?_⟩
    intro id r co reward hr hco hreward hfits
    have hc := hs.shares _ co hco
    have hpct := hs.pcts id r hr
    obtain ⟨split, hsplit⟩ := exists_rewardSplit hc hpct hreward hfits
    exact ⟨split, hsplit, rewardSplit_exact hsplit hc hpct hreward⟩
  · intro acc s t _ _
    simp
  · intro acc acc' acc'' e s t u v l hdue hround hrest hs
    obtain ⟨hfound, -, rfl⟩ := runs_due? hdue
    obtain ⟨hpaid, hall⟩ := hrest (hs.cashReport hround)
    obtain ⟨_, _, _, -, -, -, -, -, hcount⟩ := runs_cashReport hround
    refine ⟨?_, List.forall_mem_cons.mpr ⟨fun hreward =>
      ⟨acc', u, hround, hcount, hs.splitsExactly hfound hround hreward⟩, hall⟩⟩
    rw [hpaid, hcount, List.map_cons, List.sum_cons, add_assoc]

end Rounds

namespace Sample

/-- A voted platform reports that the sample content was played, and a day passes. -/
def playedDay : DbM Unit := do
  replay votersGenesis [firstBlock]
  applyOperation 42 (.streamingPlatformUpdate "initminer" "https://platform" (btcm 100000000000000))
  applyOperation 42 (.accountStreamingPlatformVote "initminer" "initminer" true)
  applyOperation 42 (.content sampleContent)
  applyOperation 42 (.streamingPlatformReport
    { streamingPlatform := "initminer", content := "bmfs://song", playTime := 1000 })
  setClock 2 (1585422003 + 86400)

/-- All contents and reports of the state hold admitted shares. -/
def sharesAdmitted (s : Database) : Bool :=
  s.contents.entries.all (fun e => e.2.playingReward < 10000 && e.2.publishersShare < 10000) &&
    s.reports.entries.all fun e => e.2.rewardPct.all (· ≤ 10000)

/-- The cashout of a sum pays out all of it. -/
def cashesAll (totalPayout : ShareType) (s : Database) : Bool :=
  match processContentCashout totalPayout s with
  | .ok (paid, _) => paid == totalPayout
  | .error _ => false

end Sample

open Sample

theorem sharesAdmitted_of_entries {s : Database} (h : sharesAdmitted s = true) :
    SharesAdmitted s := by
  simp only [sharesAdmitted, Bool.and_eq_true, List.all_eq_true, decide_eq_true_eq] at h
  obtain ⟨hcontents, hreports⟩ := h
  constructor
  · intro id c hc
    exact hcontents (id, c) (ObjectIndex.mem_entries_iff.mpr hc)
  · intro id r hr pct hpct
    have hall := hreports (id, r) (ObjectIndex.mem_entries_iff.mpr hr)
    simpa [hpct] using hall

theorem runs_of_cashesAll {totalPayout : ShareType} {s : Database}
    (h : cashesAll totalPayout s = true) :
    ∃ s', Runs (processContentCashout totalPayout) s totalPayout s' := by
  rw [cashesAll] at h
  cases hrun : processContentCashout totalPayout s with
  | error e =>
      rw [hrun] at h
      cases h
  | ok out =>
      rw [hrun] at h
      obtain ⟨paid, s'⟩ := out
      obtain rfl : paid = totalPayout := eq_of_beq h
      exact ⟨s', hrun⟩

/-- When there is one report only, it earns the whole sum, which is split exactly. -/
theorem cashout_splits_playedDay : ∃ s s' : Database,
    Runs (processContentCashout 10007) s 10007 s' ∧
    (10007 : ShareType).toInt = ((cashoutRounds 10007 s).map fun ρ =>
      (reportReward 10007 ρ.state ρ.item.val).toInt).sum := by
  obtain ⟨s, -, hs⟩ := leadsTo_iff.mp (show leadsTo playedDay {} (fun s =>
    sharesAdmitted s && cashesAll 10007 s) = true by decide +kernel)
  rw [Bool.and_eq_true] at hs
  obtain ⟨s', hcash⟩ := runs_of_cashesAll hs.2
  exact ⟨s, s', hcash, (cashout_splits (sharesAdmitted_of_entries hs.1) hcash).1⟩

end BtcmChain
