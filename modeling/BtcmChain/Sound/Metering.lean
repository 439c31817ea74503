import BtcmChain.Sound.Capacity
import BtcmChain.Sound.Chains

set_option autoImplicit false
set_option synthInstance.maxSize 10000000
set_option synthInstance.maxHeartbeats 200000

/-!
# Metering

A charge computes in 64 bits what is meant in unbounded numbers. It is exact just if the product
it divides fits; the comparison with the capacity, in 128 bits, always is. What a charge leaves
behind when its check fails is taken back by the session around the transaction.

`exactFade` and `exactMean` are the figures in unbounded numbers, and `FadeFits` and `MeanFits` the
conditions under which the products of the source do not wrap. `metering_exact` is about every
metered transaction of every run: everyone who signed is charged, and the figures and comparisons
are exact if and only if the products fit. `message_wraps` is a run in which a second long message,
three seconds after the first, makes a product wrap, so that the average falls.
-/

namespace BtcmChain

/-! ## Averages in unbounded numbers -/

/-- The average before, faded over so many seconds, and `n` on top. -/
def exactFade (average seconds n : Nat) : Nat :=
  if 604800 ≤ seconds then n else average * (604800 - seconds) / 604800 + n

/-- The mean of the average before and `n`, weighted by the seconds. -/
def exactMean (average seconds n : Nat) : Nat :=
  if 604800 ≤ seconds then n
  else (average * (604800 - seconds) + seconds * n) / 604800

/-- What a faded average computes on the way fits into 64 bits. -/
def FadeFits (average seconds n : Nat) : Prop :=
  604800 ≤ seconds ∨ seconds = 0 ∧ average + n < 2 ^ 64 ∨
    0 < seconds ∧ average * (604800 - seconds) < 2 ^ 64

/-- What a weighted mean computes on the way fits into 64 bits. -/
def MeanFits (average seconds n : Nat) : Prop :=
  604800 ≤ seconds ∨ average * (604800 - seconds) + seconds * n < 2 ^ 64

/-- A quotient that is not too small tells whether its dividend was reduced. -/
theorem mod_div_eq_iff {x c n : Nat} (hc : 0 < c) (hn : c ≤ n) : x % n / c = x / c ↔ x < n := by
  constructor
  · intro h
    by_contra hge
    have hle : x % n + c ≤ x := by
      have hrest := Nat.mod_eq_sub_mod (Nat.le_of_not_lt hge)
      have hless := Nat.mod_le (x - n) n
      omega
    have hdiv := Nat.div_le_div_right (c := c) hle
    rw [Nat.add_div_right _ hc] at hdiv
    omega
  · intro h
    rw [Nat.mod_eq_of_lt h]

theorem toNat_ofInt_natCast {k : Nat} (h : k < 2 ^ 64) : (UInt64.ofInt (k : ℤ)).toNat = k := by
  rw [UInt64.ofInt]
  simp
  omega

theorem toNat_ofInt_sub {seconds : Nat} (h : seconds ≤ 604800) :
    (UInt64.ofInt (BTCM_BANDWIDTH_AVERAGE_WINDOW_SECONDS.toNat - seconds)).toNat =
      604800 - seconds := by
  have hsub : (BTCM_BANDWIDTH_AVERAGE_WINDOW_SECONDS.toNat : ℤ) - seconds =
      ((604800 - seconds : ℕ) : ℤ) := by
    rw [Nat.cast_sub h]
    rfl
  rw [hsub, toNat_ofInt_natCast (by omega)]

theorem fadeAndAdd_exact_iff {average n : UInt64} {seconds : Nat} (hn : n.toNat < 2 ^ 63) :
    (fadeAndAdd average seconds n).toNat = exactFade average.toNat seconds n.toNat ↔
      FadeFits average.toNat seconds n.toNat := by
  unfold FadeFits
  have hwindow : BTCM_BANDWIDTH_AVERAGE_WINDOW_SECONDS.toNat = 604800 := rfl
  by_cases hlong : 604800 ≤ seconds
  · have hdelta : (BTCM_BANDWIDTH_AVERAGE_WINDOW_SECONDS.toNat : ℤ) ≤ seconds := by
      rw [hwindow]
      omega
    simp [fadeAndAdd, exactFade, hdelta, hlong]
  · have hdelta : ¬ (BTCM_BANDWIDTH_AVERAGE_WINDOW_SECONDS.toNat : ℤ) ≤ seconds := by
      rw [hwindow]
      omega
    rw [fadeAndAdd, exactFade, if_neg hdelta, if_neg hlong]
    rcases Nat.eq_zero_or_pos seconds with rfl | hpos
    · simp
    · have hproduct : (average * UInt64.ofInt (BTCM_BANDWIDTH_AVERAGE_WINDOW_SECONDS.toNat - seconds) /
          BTCM_BANDWIDTH_AVERAGE_WINDOW_SECONDS).toNat =
          average.toNat * (604800 - seconds) % 2 ^ 64 / 604800 := by
        rw [UInt64.toNat_div, UInt64.toNat_mul, toNat_ofInt_sub (by omega), hwindow]
      have hfits : average.toNat * (604800 - seconds) % 2 ^ 64 / 604800 + n.toNat < 2 ^ 64 := by
        have hless := Nat.mod_lt (average.toNat * (604800 - seconds)) (Nat.two_pow_pos 64)
        omega
      simp only [Nat.cast_pos.mpr hpos, if_true]
      rw [UInt64.toNat_add, hproduct, Nat.mod_eq_of_lt hfits, Nat.add_right_cancel_iff,
        mod_div_eq_iff (by decide) (by decide)]
      omega

theorem weigh_exact_iff {average n : UInt64} {seconds : Nat} :
    (weigh average seconds n).toNat = exactMean average.toNat seconds n.toNat ↔
      MeanFits average.toNat seconds n.toNat := by
  unfold MeanFits
  have hwindow : BTCM_BANDWIDTH_AVERAGE_WINDOW_SECONDS.toNat = 604800 := rfl
  by_cases hlong : 604800 ≤ seconds
  · have hdelta : (BTCM_BANDWIDTH_AVERAGE_WINDOW_SECONDS.toNat : ℤ) ≤ seconds := by
      rw [hwindow]
      omega
    simp [weigh, exactMean, hdelta, hlong]
  · have hdelta : ¬ (BTCM_BANDWIDTH_AVERAGE_WINDOW_SECONDS.toNat : ℤ) ≤ seconds := by
      rw [hwindow]
      omega
    rw [weigh, exactMean, if_neg hdelta, if_neg hlong, UInt64.toNat_div, UInt64.toNat_add,
      UInt64.toNat_mul, UInt64.toNat_mul, toNat_ofInt_sub (by omega), toNat_ofInt_natCast (by omega),
      hwindow, ← Nat.add_mod, mod_div_eq_iff (by decide) (by decide)]
    omega

/-! ## Comparisons in 128 bits -/

/-- A comparison of two products in 128 bits: both are the products of the numbers meant, and the
first is the smaller one. -/
structure ComparedExactly (average : UInt64) (total counted : UInt128) (capacity : UInt64)
    (totalShares shares : Nat) : Prop where
  used : (UInt128.ofUInt64 average * total).toNat = average.toNat * totalShares
  granted : (counted * UInt128.ofUInt64 capacity).toNat = shares * capacity.toNat
  enforced : average.toNat * totalShares < shares * capacity.toNat

theorem toNat_mul_ofUInt64 {x : UInt64} {y : UInt128} (hy : y.toNat < 2 ^ 63) :
    (UInt128.ofUInt64 x * y).toNat = x.toNat * y.toNat := by
  rw [BitVec.toNat_mul, UInt128.toNat_ofUInt64]
  refine Nat.mod_eq_of_lt (lt_of_le_of_lt (Nat.mul_le_mul (Nat.le_of_lt x.toNat_lt) (Nat.le_of_lt hy)) ?_)
  decide

/-- Shares and capacities leave room in 128 bits, so that the products are compared exactly. -/
theorem comparedExactly {average capacity : UInt64} {total counted : UInt128}
    (htotal : total.toNat < 2 ^ 63) (hcounted : counted.toNat < 2 ^ 63)
    (h : UInt128.ofUInt64 average * total < counted * UInt128.ofUInt64 capacity) :
    ComparedExactly average total counted capacity total.toNat counted.toNat := by
  have hused := toNat_mul_ofUInt64 (x := average) htotal
  have hgranted : (counted * UInt128.ofUInt64 capacity).toNat = counted.toNat * capacity.toNat := by
    rw [BitVec.mul_comm, toNat_mul_ofUInt64 hcounted, Nat.mul_comm]
  refine ⟨hused, hgranted, ?_⟩
  rw [← hused, ← hgranted]
  exact BitVec.lt_def.mp h

theorem toNat_countedShares {shares : ShareType} (h : 0 ≤ shares.toInt) :
    (countedShares shares).toNat = max 1 shares.toInt.toNat := by
  have hshares := UInt128.toNat_ofShare h
  unfold countedShares
  split
  case isTrue hzero =>
    rw [hzero] at hshares
    rw [← hshares]
    rfl
  case isFalse hne =>
    rw [hshares]
    have hpos : (UInt128.ofShare shares).toNat ≠ 0 := fun h => hne (BitVec.toNat_inj.mp h)
    omega

/-! ## The clock -/

section Clock

variable [Externals]

/-- What operations, and the proposals they execute, may write: all but the clock. -/
abbrev anythingButClock : List Concern :=
  [.funds, .stakes, .listening, .requests, .splits, .pools, .catalogue, .pending, .names, .rates,
    .feeds, .voting, .redelegations, .routes, .finality, .laps, .orders]

omit [Externals] in
theorem writes_of_not_mem {op : Operation} {i : Concern} (hi : i ∉ anythingButClock) :
    op.writes i = false := by
  cases i <;> first
    | exact absurd (by decide) hi
    | cases op <;> rfl

theorem within_evaluate {push : Nat → DbM Unit} (hpush : ∀ id, Within anythingButClock (push id))
    (op : Operation) : Within anythingButClock (evaluate push op) := by
  cases hop : op.isProposalUpdate with
  | false => exact ⟨fun hi _ _ _ h => evaluate_same hop (writes_of_not_mem hi) h⟩
  | true =>
      obtain ⟨o, rfl⟩ := Operation.eq_proposalUpdate hop
      show Within anythingButClock (proposalUpdateEvaluator push o)
      unfold proposalUpdateEvaluator
      infer_instance

theorem within_applyOperation (n : Nat) :
    ∀ op, Within anythingButClock (applyOperation n op) := by
  induction n with
  | zero => exact within_evaluate fun _ => within_throw _
  | succ n ih =>
      refine within_evaluate fun id => ?_
      unfold pushProposal
      infer_instance

instance (n : Nat) (op : Operation) : Writes (applyOperation n op) anythingButClock :=
  ⟨within_applyOperation n op⟩

instance : Writes clearExpiredProposals anythingButClock :=
  ⟨by unfold clearExpiredProposals expireProposal pushProposal; infer_instance⟩

variable [Cryptography]

theorem clock_applySignedTransaction {skip : SkipFlags} {t : SignedTransaction} {s s' : Objects}
    (h : Runs (applySignedTransaction skip t) s () s') : s'.db.clock = s.db.clock := by
  obtain ⟨-, -, -, -, d, hd, rfl⟩ := runs_applySignedTransaction.mp h
  have hwithin : Within anythingButClock
      (t.operations.forM (applyOperation BTCM_MAX_PROPOSAL_NESTING)) := inferInstance
  exact hwithin.same (i := .clock) (by decide) hd

omit [Externals] [Cryptography] in
theorem clock_updateGlobalDynamicDataUnder {skip : SkipFlags} {p : String} {time : TimePointSec}
    {d d' : Database} (h : Runs (updateGlobalDynamicDataUnder skip p time) d () d') :
    d'.dgpo.time = time := by
  simp only [updateGlobalDynamicDataUnder, runs_bind_reads, runs_bind_require] at h
  obtain ⟨-, h⟩ := h
  obtain ⟨_, t, -, h⟩ := runs_bind.mp h
  rw [runs_bind_reads] at h
  obtain ⟨_, u, hset, hrest⟩ := runs_bind.mp h
  have hclock : d'.clock = u.clock := by
    refine (inferInstance : Within [Concern.slots] (do
      modifyParams fun p => { p with currentAslot := p.currentAslot + (d.slotAtTime time).toUInt64 }
      whenM (!skip.undoHistoryCheck) do
        let reversible ← reads fun s => s.dgpo.headBlockNumber - s.dgpo.lastIrreversibleBlockNum
        require (reversible < BTCM_MAX_UNDO_HISTORY)
          "Please add a checkpoint if you would like to continue applying blocks beyond this point."
      )).same (i := .clock) (by decide) hrest
  obtain ⟨x, hx, rfl⟩ := runs_modifyDgpo.mp hset
  obtain rfl := Except.ok.inj hx
  exact congrArg Prod.snd hclock

omit [Cryptography] in
theorem time_closeBlock {skip : SkipFlags} {id : BlockId} {b : BlockContents} [Packing]
    {s s' : Metered} (h : Runs (closeBlock skip id b) s () s') :
    s'.objects.db.dgpo.time = b.timestamp := by
  obtain ⟨_, t, hload, hrest⟩ := runs_bind.mp h
  obtain rfl := runs_modify.mp hload
  obtain ⟨o, ho, rfl⟩ := runs_onObjects.mp hrest
  obtain ⟨_, o₁, hfirst, ho⟩ := runs_bind.mp ho
  obtain ⟨d₁, hmoved, rfl⟩ := runs_onDb.mp hfirst
  obtain ⟨_, o₂, hsummary, ho⟩ := runs_bind.mp ho
  cases hsummary
  obtain ⟨_, o₃, hcleared, ho⟩ := runs_bind.mp ho
  cases hcleared
  obtain ⟨d₂, hsettled, rfl⟩ := runs_onDb.mp ho
  obtain ⟨_, d₀, hclock, hsigned⟩ := runs_bind.mp hmoved
  have htime := clock_updateGlobalDynamicDataUnder hclock
  have hconfirmed : d₁.clock = d₀.clock := (inferInstance : Within anythingButClock (do
    updateSigningWitness b.witness b.timestamp
    updateLastIrreversibleBlock)).same (i := .clock) (by decide) hsigned
  have hafter : d₂.clock = d₁.clock := (inferInstance : Within anythingButClock (do
    clearExpiredProposals
    settleBlock
    accountRecoveryProcessing)).same (i := .clock) (by decide) hsettled
  have hnow : d₂.dgpo.time = d₀.dgpo.time := congrArg Prod.snd (hafter.trans hconfirmed)
  exact hnow.trans htime

end Clock

/-! ## Exact charges -/

section Charges

/-- The averages of an account behind a charge for so many bytes, and the comparisons they were put
to, as in unbounded numbers. The market average takes a market operation. -/
structure Metered.MetersExactly (s : Metered) (t : Transaction) (bytes : Nat) (a : AccountId)
    (shares : ShareType) (u : AccountUsage) : Prop where
  average : u.averageBandwidth.toNat = exactFade (s.usage a).averageBandwidth.toNat
    (s.objects.db.dgpo.time.toNat - (s.usage a).lastBandwidthUpdate.toNat) (1000000 * bytes)
  compared : ComparedExactly u.averageBandwidth
    (UInt128.ofShare s.objects.db.dgpo.totalVestingShares) (countedShares shares)
    s.load.maxVirtualBandwidth s.objects.db.dgpo.totalVestingShares.toInt.toNat
    (max 1 shares.toInt.toNat)
  marketAverage : t.operations.any Operation.isMarket = true →
    u.averageMarketBandwidth.toNat = exactMean (s.usage a).averageMarketBandwidth.toNat
      (s.objects.db.dgpo.time.toNat - (s.usage a).lastMarketBandwidthUpdate.toNat) (1000000 * bytes)
  marketCompared : t.operations.any Operation.isMarket = true → 0 < shares.toInt ∧
    ComparedExactly u.averageMarketBandwidth
      (UInt128.ofShare s.objects.db.dgpo.totalVestingShares) (UInt128.ofShare shares)
      (s.load.maxVirtualBandwidth / 10) s.objects.db.dgpo.totalVestingShares.toInt.toNat
      shares.toInt.toNat

/-- The sums and products of a charge for so many bytes fit into 64 bits. -/
structure AccountUsage.Fits (u : AccountUsage) (now : TimePointSec) (t : Transaction) (bytes : Nat) :
    Prop where
  average : FadeFits u.averageBandwidth.toNat (now.toNat - u.lastBandwidthUpdate.toNat)
    (1000000 * bytes)
  marketAverage : t.operations.any Operation.isMarket = true →
    MeanFits u.averageMarketBandwidth.toNat (now.toNat - u.lastMarketBandwidthUpdate.toNat)
      (1000000 * bytes)

variable {s : Metered} {t : Transaction} {trxSize : UInt32} {e : Nat × AccountObject}
  {u : AccountUsage} {shares : ShareType}

theorem toNat_units (trxSize : UInt32) :
    (trxSize.toUInt64 * BTCM_BANDWIDTH_PRECISION).toNat = 1000000 * trxSize.toNat := by
  have hlt := trxSize.toNat_lt
  rw [UInt64.toNat_mul, UInt32.toNat_toUInt64, Nat.mul_comm]
  exact Nat.mod_eq_of_lt (by show 1000000 * trxSize.toNat < 2 ^ 64; omega)

theorem secondsSince_of_le {last now : TimePointSec} (h : last ≤ now) :
    secondsSince last now = ((now.toNat - last.toNat : ℕ) : ℤ) := by
  rw [secondsSince, Nat.cast_sub (UInt32.le_iff_toNat_le.mp h)]

/-- The market part of a charge leaves the average alone. -/
theorem charged_average (htotal : 0 < s.objects.db.dgpo.totalVestingShares) (a : AccountId) :
    (s.charged t trxSize a).averageBandwidth = fadeAndAdd (s.usage a).averageBandwidth
      (secondsSince (s.usage a).lastBandwidthUpdate s.objects.db.dgpo.time)
      (trxSize.toUInt64 * BTCM_BANDWIDTH_PRECISION) := by
  simp only [Metered.charged, if_pos htotal]
  split <;> rfl

theorem charged_marketAverage (htotal : 0 < s.objects.db.dgpo.totalVestingShares)
    (hmarket : t.operations.any Operation.isMarket = true) (a : AccountId) :
    (s.charged t trxSize a).averageMarketBandwidth = weigh (s.usage a).averageMarketBandwidth
      (secondsSince (s.usage a).lastMarketBandwidthUpdate s.objects.db.dgpo.time)
      (trxSize.toUInt64 * BTCM_BANDWIDTH_PRECISION) := by
  simp only [Metered.charged, if_pos htotal, if_pos hmarket]
  rfl

/-- A charge in a state whose clock is not behind the last one is exact just if it fits. -/
theorem Metered.Charges.exact_iff (h : s.Charges t trxSize e u)
    (htotal : 0 < s.objects.db.dgpo.totalVestingShares)
    (hshares : e.2.effectiveVestingShares = .ok shares) (hnonneg : 0 ≤ shares.toInt)
    (hlast : (s.usage e.1).lastBandwidthUpdate ≤ s.objects.db.dgpo.time)
    (hmarketLast : (s.usage e.1).lastMarketBandwidthUpdate ≤ s.objects.db.dgpo.time) :
    s.MetersExactly t trxSize.toNat e.1 shares u ↔
      (s.usage e.1).Fits s.objects.db.dgpo.time t trxSize.toNat := by
  obtain ⟨shares', hshares', hcovered⟩ := h.covered htotal
  cases hshares.symm.trans hshares'
  have hunits := toNat_units trxSize
  have hsmall : (trxSize.toUInt64 * BTCM_BANDWIDTH_PRECISION).toNat < 2 ^ 63 := by
    have hlt := trxSize.toNat_lt
    omega
  have hpositive : 0 < s.objects.db.dgpo.totalVestingShares.toInt := Int64.lt_iff_toInt_lt.mp htotal
  have htotalNat := UInt128.toNat_ofShare hpositive.le
  have htotalLt : (UInt128.ofShare s.objects.db.dgpo.totalVestingShares).toNat < 2 ^ 63 := by
    have hlt := s.objects.db.dgpo.totalVestingShares.toInt_lt
    rw [htotalNat]
    omega
  have hsharesNat := UInt128.toNat_ofShare hnonneg
  have hsharesLt := shares.toInt_lt
  have hcounted := toNat_countedShares hnonneg
  -- each average is exact just if its product fits; the comparisons in 128 bits always are
  have haverage : u.averageBandwidth.toNat = exactFade (s.usage e.1).averageBandwidth.toNat
      (s.objects.db.dgpo.time.toNat - (s.usage e.1).lastBandwidthUpdate.toNat)
      (1000000 * trxSize.toNat) ↔
      FadeFits (s.usage e.1).averageBandwidth.toNat
        (s.objects.db.dgpo.time.toNat - (s.usage e.1).lastBandwidthUpdate.toNat)
        (1000000 * trxSize.toNat) := by
    rw [h.usage, charged_average htotal, secondsSince_of_le hlast, ← hunits]
    exact fadeAndAdd_exact_iff hsmall
  have hmarketAverage (hmarket : t.operations.any Operation.isMarket = true) :
      u.averageMarketBandwidth.toNat = exactMean (s.usage e.1).averageMarketBandwidth.toNat
        (s.objects.db.dgpo.time.toNat - (s.usage e.1).lastMarketBandwidthUpdate.toNat)
        (1000000 * trxSize.toNat) ↔
        MeanFits (s.usage e.1).averageMarketBandwidth.toNat
          (s.objects.db.dgpo.time.toNat - (s.usage e.1).lastMarketBandwidthUpdate.toNat)
          (1000000 * trxSize.toNat) := by
    rw [h.usage, charged_marketAverage htotal hmarket, secondsSince_of_le hmarketLast, ← hunits]
    exact weigh_exact_iff
  constructor
  · intro hexact
    exact ⟨haverage.mp hexact.average, fun hmarket =>
      (hmarketAverage hmarket).mp (hexact.marketAverage hmarket)⟩
  · intro hfits
    refine ⟨haverage.mpr hfits.average, ?_, fun hmarket =>
      (hmarketAverage hmarket).mpr (hfits.marketAverage hmarket), fun hmarket => ?_⟩
    · rw [← htotalNat, ← hcounted]
      exact comparedExactly htotalLt (by rw [hcounted]; omega) (of_decide_eq_true hcovered.average)
    · obtain ⟨hsome, hcovers⟩ := hcovered.marketAverage hmarket
      have hsome := BitVec.lt_def.mp hsome
      rw [hsharesNat] at hsome
      refine ⟨Int.lt_toNat.mp hsome, ?_⟩
      rw [← htotalNat, ← hsharesNat]
      exact comparedExactly htotalLt (by rw [hsharesNat]; omega) (of_decide_eq_true hcovers)

end Charges

/-! ## Runs -/

section Runs

variable [Externals] [Cryptography] [Packing]

/-- No charge lies ahead of the clock, nor does the clock reach the time of the block it is in; and
the sizes of transactions fit into 32 bits. -/
structure Metered.Timely (o : Option BlockContents) (s : Metered) : Prop where
  last : ∀ a, (s.usage a).lastBandwidthUpdate ≤ s.objects.db.dgpo.time
  marketLast : ∀ a, (s.usage a).lastMarketBandwidthUpdate ≤ s.objects.db.dgpo.time
  later : ∀ b, o = some b → s.objects.db.dgpo.time < b.timestamp
  small : ∀ t, s.Admits t o → (Packing.transactionSize t).toNat < 2 ^ 32

omit [Externals] [Cryptography] in
theorem small_of_pending {s : Metered} {t : SignedTransaction} (h : s.Admits t none) :
    (Packing.transactionSize t).toNat < 2 ^ 32 := by
  have hle := UInt64.le_iff_toNat_le.mp h
  rw [UInt32.toNat_toUInt64] at hle
  exact lt_of_le_of_lt hle (UInt32.toNat_lt _)

omit [Externals] [Cryptography] [Packing] in
theorem charged_last_le {s : Metered} {t : Transaction} {trxSize : UInt32} {a : AccountId}
    (hlast : (s.usage a).lastBandwidthUpdate ≤ s.objects.db.dgpo.time)
    (hmarketLast : (s.usage a).lastMarketBandwidthUpdate ≤ s.objects.db.dgpo.time) :
    (s.charged t trxSize a).lastBandwidthUpdate ≤ s.objects.db.dgpo.time ∧
      (s.charged t trxSize a).lastMarketBandwidthUpdate ≤ s.objects.db.dgpo.time := by
  have hnow : s.objects.db.dgpo.time ≤ s.objects.db.dgpo.time := UInt32.le_refl _
  simp only [Metered.charged]
  split
  · split
    · exact ⟨hnow, hnow⟩
    · exact ⟨hnow, hmarketLast⟩
  · exact ⟨hlast, hmarketLast⟩

theorem Metered.Timely.applied {skip : SkipFlags} {o : Option BlockContents} {t : SignedTransaction}
    {s s' : Metered} (h : s.Timely o) (hr : Runs (applyMeteredTransaction skip t) s () s') :
    s'.Timely o := by
  obtain ⟨happly, -, u, hmeter, husage⟩ := runs_applyMeteredTransaction hr
  obtain ⟨-, -, hcharged, hkept⟩ := runs_meterTransaction hmeter
  have hclock := clock_applySignedTransaction happly
  have htime : s'.objects.db.dgpo.time = s.objects.db.dgpo.time := congrArg Prod.snd hclock
  have hlast : ∀ a, (u.usage a).lastBandwidthUpdate ≤ s.objects.db.dgpo.time ∧
      (u.usage a).lastMarketBandwidthUpdate ≤ s.objects.db.dgpo.time := by
    intro a
    by_cases ha : ∀ auth ∈ t.required, ∀ e, s.objects.db.accountNamed auth = some e → e.1 ≠ a
    · rw [hkept a ha]
      exact ⟨h.last a, h.marketLast a⟩
    · push Not at ha
      obtain ⟨auth, hauth, e, he, rfl⟩ := ha
      obtain ⟨e', he', hcharges⟩ := hcharged auth hauth
      cases he.symm.trans he'
      rw [hcharges.usage]
      exact charged_last_le (h.last _) (h.marketLast _)
  refine ⟨fun a => ?_, fun a => ?_, fun b hb => ?_, fun t' ht' => ?_⟩
  · rw [husage, htime]
    exact (hlast a).1
  · rw [husage, htime]
    exact (hlast a).2
  · rw [htime]
    exact h.later b hb
  · cases o with
    | none => exact small_of_pending ht'
    | some b => exact h.small t' ht'

theorem Metered.Reached.timely {o : Option BlockContents} {s : Metered} (h : Metered.Reached o s) :
    s.Timely o := by
  induction h with
  | @genesis g d _ =>
      have hzero : ∀ now : TimePointSec, 0 ≤ now := fun now => UInt32.le_iff_toNat_le.mpr (Nat.zero_le _)
      exact ⟨fun _ => hzero _, fun _ => hzero _, fun b hb => (by cases hb), fun t => small_of_pending⟩
  | @opened skip b s s' _ hopen ih =>
      obtain ⟨-, husage, hclock, hlater, hsize⟩ := runs_openBlock hopen
      have htime : s'.objects.db.dgpo.time = s.objects.db.dgpo.time := congrArg Prod.snd hclock
      refine ⟨fun a => ?_, fun a => ?_, fun b' hb => ?_, fun t ht => ?_⟩
      · rw [husage, htime]
        exact ih.last a
      · rw [husage, htime]
        exact ih.marketLast a
      · cases hb
        rw [htime]
        exact hlater
      · exact lt_of_le_of_lt (Packing.transactionSize_le ht) hsize
  | applied _ _ happly ih => exact ih.applied happly
  | @closed skip id b s s' _ hclose ih =>
      have husage := (runs_closeBlock hclose).1
      have htime := time_closeBlock hclose
      have hlater := UInt32.le_of_lt (ih.later b rfl)
      refine ⟨fun a => ?_, fun a => ?_, fun b' hb => (by cases hb), fun t => small_of_pending⟩
      · rw [husage, htime]
        exact UInt32.le_trans (ih.last a) hlater
      · rw [husage, htime]
        exact UInt32.le_trans (ih.marketLast a) hlater

/-! ## Rolling back -/

namespace TransactionPool

variable {halfway : Metered → Metered} {skip : SkipFlags} {t : SignedTransaction}
  {p p' : TransactionPool}

omit [Externals] [Cryptography] [Packing] in
/-- With the session for what is pending, the objects are the same. -/
theorem pending_eq (h : p.log.disabled = false) :
    (if p.pendingTxSession then p.log else p.log.startUndoSession).objects = p.log.objects ∧
      (if p.pendingTxSession then p.log else p.log.startUndoSession).disabled = false := by
  split
  · exact ⟨rfl, h⟩
  · rw [Watched.startUndoSession_eq h]
    exact ⟨rfl, h⟩

/-- A transaction that is pushed without an exception was admitted by the state, and has been
applied to it. -/
theorem pushTransaction_ok (h : p.log.disabled = false)
    (hr : pushTransaction halfway skip t p = .ok () p') :
    p'.log.disabled = false ∧ p.log.objects.Admits t none ∧
      Runs (applyMeteredTransaction skip t) p.log.objects () p'.log.objects := by
  unfold pushTransaction at hr
  dsimp only at hr
  split at hr
  case isFalse => cases hr
  case isTrue hsize =>
    split at hr
    case h_2 => cases hr
    case h_1 s' happly =>
      split at hr
      case h_2 => cases hr
      case h_1 log hmerge =>
        obtain ⟨-, hdisabled⟩ := pending_eq h
        obtain ⟨hobjects, hstill⟩ := Watched.merge_objects hmerge
        cases hr
        rw [Watched.startUndoSession_eq hdisabled] at hobjects hstill
        exact ⟨hstill.trans hdisabled, hsize, hobjects ▸ happly⟩

/-- A transaction that fails, at whatever point, has changed nothing about the objects. -/
theorem pushTransaction_error {e : Exn} (h : p.log.disabled = false)
    (hr : pushTransaction halfway skip t p = .error e p') :
    p'.log.disabled = false ∧ p'.log.objects = p.log.objects := by
  obtain ⟨hsame, hdisabled⟩ := pending_eq h
  unfold pushTransaction at hr
  dsimp only at hr
  split at hr
  case isFalse =>
    cases hr
    exact ⟨h, rfl⟩
  case isTrue hsize =>
    split at hr
    case h_2 =>
      cases hr
      obtain ⟨hobjects, hstill⟩ := Watched.destroy_change hdisabled (halfway p.log.objects)
      exact ⟨hstill, hobjects.trans hsame⟩
    case h_1 s' happly =>
      split at hr
      case h_1 => cases hr
      case h_2 =>
        cases hr
        obtain ⟨hobjects, hstill⟩ := Watched.destroy_change hdisabled s'
        exact ⟨hstill, hobjects.trans hsame⟩

theorem Reached.metered (h : Reached halfway p) :
    p.log.disabled = false ∧ Metered.Reached none p.log.objects := by
  induction h with
  | opened hs hdisabled => exact ⟨hdisabled, hs⟩
  | @pushed skip t p _ ih =>
      obtain ⟨hdisabled, hs⟩ := ih
      unfold after
      split
      case h_1 p' hr =>
        obtain ⟨hstill, hadmits, happly⟩ := pushTransaction_ok hdisabled hr
        exact ⟨hstill, hs.applied hadmits happly⟩
      case h_2 e p' hr =>
        obtain ⟨hstill, hobjects⟩ := pushTransaction_error hdisabled hr
        exact ⟨hstill, hobjects ▸ hs⟩

end TransactionPool

/-- **Metering.** In every run, everyone who signed a transaction that is applied is charged for its
bytes, unless there are no vesting shares at all. For one whose effective shares are not negative
the averages and the comparisons are exact just if the sums and products behind them fit. And a
transaction that fails where it waits for a block leaves everything as it was. -/
theorem metering_exact {o : Option BlockContents} {s : Metered} (hs : Metered.Reached o s) :
    (∀ skip t s', s.Admits t o → Runs (applyMeteredTransaction skip t) s () s' →
      ∀ auth ∈ t.required, ∃ e, s.objects.db.accountNamed auth = some e ∧
        (¬ 0 < s.objects.db.dgpo.totalVestingShares → s'.usage e.1 = s.usage e.1) ∧
        (0 < s.objects.db.dgpo.totalVestingShares →
          ∀ shares, e.2.effectiveVestingShares = .ok shares → 0 ≤ shares.toInt →
            (s.MetersExactly t.toTransaction (Packing.transactionSize t).toNat e.1 shares
                (s'.usage e.1) ↔
              (s.usage e.1).Fits s.objects.db.dgpo.time t.toTransaction
                (Packing.transactionSize t).toNat))) ∧
      ∀ halfway skip t e (p p' : TransactionPool), p.Reached halfway → p.log.objects = s →
        TransactionPool.pushTransaction halfway skip t p = .error e p' →
        p'.log.objects.usage = s.usage ∧ p'.log.objects = s := by
  refine ⟨fun skip t s' hadmits hr auth hauth => ?_, fun halfway skip t e p p' hp hobjects hr => ?_⟩
  · obtain ⟨-, -, u, hmeter, husage⟩ := runs_applyMeteredTransaction hr
    obtain ⟨-, -, hcharged, -⟩ := runs_meterTransaction hmeter
    obtain ⟨e, he, hcharges⟩ := hcharged auth hauth
    have htimely := hs.timely
    have hbytes : (Packing.transactionSize t).toUInt32.toNat = (Packing.transactionSize t).toNat := by
      rw [UInt64.toNat_toUInt32]
      exact Nat.mod_eq_of_lt (htimely.small t hadmits)
    refine ⟨e, he, fun htotal => ?_, fun htotal shares hshares hnonneg => ?_⟩
    · rw [husage, hcharges.usage, Metered.charged, if_neg htotal]
    · rw [husage, ← hbytes]
      exact hcharges.exact_iff htotal hshares hnonneg (htimely.last _) (htimely.marketLast _)
  · have hsame := (TransactionPool.pushTransaction_error hp.metered.1 hr).2.trans hobjects
    exact ⟨congrArg Metered.usage hsame, hsame⟩

end Runs

section Samples

theorem toOption_eq_some {α : Type} {x : Except Exn α} {a : α} :
    x.toOption = some a ↔ x = .ok a := by
  cases x <;> simp [Except.toOption]

namespace Sample

/-- A genesis in which `initminer` has all vesting shares that there are. -/
def vestedGenesis : GenesisState where
  initSupply := 1000000
  initSupply_nonneg := million_nonneg
  initialVestingBalances := [{ owner := 3, amount := 1000000, amount_nonneg := million_nonneg }]

/-- A message of `initminer` with some data in it. -/
def messageOf (data : List UInt8) (expiration : TimePointSec) : SignedTransaction :=
  { expiration := expiration, operations := [.custom ["initminer"] 0 data] }

theorem transactionSize_messageOf (data : List UInt8) (expiration : TimePointSec) :
    transactionSize (messageOf data expiration) = 28 + varintSize data.length + data.length := by
  have hone : varintSize (0 + 1) = 1 := by decide
  have hname : varintSize "initminer".utf8ByteSize + "initminer".utf8ByteSize = 10 := by decide
  have hzero : varintSize 0 = 1 := by decide
  simp only [transactionSize, messageOf, operationSize, List.length_cons, List.length_nil,
    List.map_cons, List.map_nil, List.sum_cons, List.sum_nil]
  omega

/-- A message with forty million bytes of data in it. -/
def longMessage : TimePointSec → SignedTransaction := messageOf (List.replicate 40000000 0)

theorem size_longMessage (expiration : TimePointSec) :
    transactionSize (longMessage expiration) = 40000032 := by
  rw [longMessage, transactionSize_messageOf, List.length_replicate]
  decide

theorem transactionSize_longMessage (expiration : TimePointSec) :
    Packing.transactionSize (longMessage expiration) = 40000032 := by
  show UInt64.ofNat (min (transactionSize (longMessage expiration)) (2 ^ 64 - 1)) = _
  rw [size_longMessage]
  rfl

/-- A block with the long message as its only transaction. -/
def longBlock : BlockContents :=
  { witness := "initminer1", timestamp := 1585422006, transactions := [longMessage 1585422100] }

theorem blockSize_singleton {b : BlockContents} {t : SignedTransaction} (h : b.transactions = [t]) :
    blockSize b = 111 + varintSize b.witness.utf8ByteSize + b.witness.utf8ByteSize +
      transactionSize t := by
  have hone : varintSize (0 + 1) = 1 := by decide
  simp only [blockSize, h, List.length_cons, List.length_nil, List.map_cons, List.map_nil,
    List.sum_cons, List.sum_nil]
  omega

theorem blockSize_longBlock : Packing.blockSize longBlock = 40000154 := by
  have hsize : blockSize longBlock = 40000154 := by
    rw [blockSize_singleton (t := longMessage 1585422100) rfl, size_longMessage]
    decide
  show UInt64.ofNat (min (blockSize longBlock) (2 ^ 64 - 1)) = _
  rw [hsize]
  rfl

end Sample

open Sample

/-- A second message of forty million bytes: the average before, times the rest of the week, is
too much for 64 bits. -/
theorem message_wraps : ∃ s s' e, Metered.Reached none s ∧ s.Admits (longMessage 1585422101) none ∧
    Runs (applyMeteredTransaction skipNothing (longMessage 1585422101)) s () s' ∧
    "initminer" ∈ (longMessage 1585422101).required ∧
    s.objects.db.accountNamed "initminer" = some e ∧ 0 < s.objects.db.dgpo.totalVestingShares ∧
    e.2.effectiveVestingShares = .ok 1000000 ∧
    s.objects.db.dgpo.time.toNat - (s.usage e.1).lastBandwidthUpdate.toNat = 3 ∧
    (s'.usage e.1).averageBandwidth.toNat <
      exactFade (s.usage e.1).averageBandwidth.toNat 3 (1000000 * 40000032) := by
  have hrun : leadsTo (initGenesis vestedGenesis) {} (fun d =>
      leadsTo (applyMeteredBlock skipNothing ⟨1, 1⟩ blockOne) { objects := { db := d } } fun r =>
        leadsTo (applyMeteredBlock skipNothing ⟨2, 1⟩ longBlock) r fun s =>
          leadsTo (applyMeteredTransaction skipNothing (longMessage 1585422101)) s fun s' =>
            (s.objects.db.accountNamed "initminer").elim false fun e =>
              decide (40000032 ≤ (s.objects.db.dgpo.maximumBlockSize - 256).toUInt64 ∧
                0 < s.objects.db.dgpo.totalVestingShares ∧
                e.2.effectiveVestingShares.toOption = some 1000000 ∧
                s.objects.db.dgpo.time.toNat - (s.usage e.1).lastBandwidthUpdate.toNat = 3 ∧
                (s'.usage e.1).averageBandwidth.toNat <
                  exactFade (s.usage e.1).averageBandwidth.toNat 3 (1000000 * 40000032))) = true := by
    -- the bytes are counted before the run is evaluated
    have htransactions : longBlock.transactions = [longMessage 1585422100] := rfl
    simp only [applyMeteredBlock, openBlock, closeBlock, updateLoad, applyMeteredTransaction,
      htransactions, List.forM_eq_forM, List.forM_cons, List.forM_nil, blockSize_longBlock,
      transactionSize_longMessage]
    decide +kernel
  obtain ⟨d, hd, hrun⟩ := leadsTo_iff.mp hrun
  obtain ⟨r, hone, hrun⟩ := leadsTo_iff.mp hrun
  obtain ⟨s, htwo, hrun⟩ := leadsTo_iff.mp hrun
  obtain ⟨s', happly, hwrapped⟩ := leadsTo_iff.mp hrun
  cases he : s.objects.db.accountNamed "initminer" with
  | none =>
      rw [he] at hwrapped
      cases hwrapped
  | some e =>
      rw [he, Option.elim_some] at hwrapped
      obtain ⟨hsize, htotal, hshares, hseconds, hless⟩ := of_decide_eq_true hwrapped
      have hs := ((Metered.Reached.genesis hd).block hone).block htwo
      refine ⟨s, s', e, hs, ?_, happly, by decide, he, htotal, ?_, hseconds, hless⟩
      · show Packing.transactionSize _ ≤ _
        rw [transactionSize_longMessage]
        exact hsize
      · exact toOption_eq_some.mp hshares

/-- The first message comes more than a week after the beginning of time; its charge is exact. -/
theorem metering_exact_message : ∃ s s' e, Metered.Reached none s ∧
    Runs (applyMeteredTransaction skipNothing (longMessage 1585422100)) s () s' ∧
    s.objects.db.accountNamed "initminer" = some e ∧
    s.MetersExactly (longMessage 1585422100).toTransaction 40000032 e.1 1000000 (s'.usage e.1) := by
  have hrun : leadsTo (initGenesis vestedGenesis) {} (fun d =>
      leadsTo (applyMeteredBlock skipNothing ⟨1, 1⟩ blockOne) { objects := { db := d } } fun s =>
        leadsTo (applyMeteredTransaction skipNothing (longMessage 1585422100)) s fun _ =>
          (s.objects.db.accountNamed "initminer").elim false fun e =>
            decide (40000032 ≤ (s.objects.db.dgpo.maximumBlockSize - 256).toUInt64 ∧
              0 < s.objects.db.dgpo.totalVestingShares ∧
              e.2.effectiveVestingShares.toOption = some 1000000 ∧
              604800 ≤ s.objects.db.dgpo.time.toNat - (s.usage e.1).lastBandwidthUpdate.toNat)) =
      true := by
    simp only [applyMeteredTransaction, transactionSize_longMessage]
    decide +kernel
  obtain ⟨d, hd, hrun⟩ := leadsTo_iff.mp hrun
  obtain ⟨s, hone, hrun⟩ := leadsTo_iff.mp hrun
  obtain ⟨s', happly, hfacts⟩ := leadsTo_iff.mp hrun
  cases he : s.objects.db.accountNamed "initminer" with
  | none =>
      rw [he] at hfacts
      cases hfacts
  | some e =>
      rw [he, Option.elim_some] at hfacts
      obtain ⟨hsize, htotal, hshares, hseconds⟩ := of_decide_eq_true hfacts
      have hs := (Metered.Reached.genesis hd).block hone
      have hadmits : s.Admits (longMessage 1585422100) none := by
        show Packing.transactionSize _ ≤ _
        rw [transactionSize_longMessage]
        exact hsize
      obtain ⟨e', he', -, hexact⟩ := (metering_exact hs).1 skipNothing _ s' hadmits happly "initminer"
        (by decide)
      cases he.symm.trans he'
      have heffective := toOption_eq_some.mp hshares
      refine ⟨s, s', e, hs, happly, he, ?_⟩
      have hiff := hexact htotal 1000000 heffective (by decide)
      rw [transactionSize_longMessage] at hiff
      exact hiff.mpr ⟨Or.inl hseconds, fun hmarket => absurd hmarket (by decide)⟩

end Samples

end BtcmChain
