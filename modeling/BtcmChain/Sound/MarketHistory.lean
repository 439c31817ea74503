import BtcmChain.Lib.Candle
import BtcmChain.Plugin.MarketHistory
import BtcmChain.Sound.PriceOrder
import Mathlib.Data.List.Induction

set_option autoImplicit false

/-!
# What the buckets tell

A bucket is the candle and the volume of the fills in its window. So it is as long as the market is
that of BTCM and XUSD, and nothing is old when a window opens: old buckets are removed by the second
fill of a window (`buckets_tell`).

`Deal` is a fill as one tells it: an amount of BTCM against an amount of XUSD, at a time.
`BucketObject.Tells` says that a bucket is the candle (`Lib.Candle`) and the two sums of a list of
deals, and `Kept` that every bucket tells the deals of its window. The induction goes over the
fills in order, with the conditions of the claim asked of each of them (`Orderly`);
`foreign_and_old_fills` has a fill of another market, and a window that opens two days later, after
which the buckets tell something else.
-/

namespace BtcmChain

/-! ## Deals -/

/-- A fill of the BTCM/XUSD market: when it happened, and the two amounts. -/
structure Deal where
  time : ℕ
  btcm : ShareType
  mbd : ShareType

namespace Deal

def amounts (d : Deal) : ShareType × ShareType := (d.btcm, d.mbd)

structure Positive (d : Deal) : Prop where
  btcm : 0 < d.btcm.toInt
  mbd : 0 < d.mbd.toInt

instance (d : Deal) : Decidable d.Positive :=
  decidable_of_iff (0 < d.btcm.toInt ∧ 0 < d.mbd.toInt) ⟨fun h => ⟨h.1, h.2⟩, fun h => ⟨h.1, h.2⟩⟩

end Deal

/-- The rate of two amounts: how much XUSD there is for one BTCM. -/
def xusdRate (x : ShareType × ShareType) : ℚ := (x.2.toInt : ℚ) / x.1.toInt

def OperationObject.isFill (o : OperationObject) : Bool :=
  match o.op with
  | .notification (.fillOrder ..) => true
  | _ => false

/-- The deal an applied operation is, if it is one. -/
def dealOf (e : OperationObject × TimePointSec) : Option Deal :=
  match e.1.op with
  | .notification (.fillOrder _ _ currentPays _ _ openPays) =>
    if openPays.assetId = BTCM_SYMBOL ∧ currentPays.assetId = XUSD_SYMBOL then
      some ⟨e.2.toNat, openPays.amount, currentPays.amount⟩
    else if openPays.assetId = XUSD_SYMBOL ∧ currentPays.assetId = BTCM_SYMBOL then
      some ⟨e.2.toNat, currentPays.amount, openPays.amount⟩
    else none
  | _ => none

/-- The deals in the window [k·s, (k+1)·s), where `s` is the size of the window. -/
def inWindow (s k : ℕ) (ds : List Deal) : List Deal :=
  ds.filter fun d => decide (k * s ≤ d.time ∧ d.time < (k + 1) * s)

/-! ## Buckets -/

def BucketObject.candle (b : BucketObject) : Candle (ShareType × ShareType) where
  first := (b.openBtcm, b.openMbd)
  last := (b.closeBtcm, b.closeMbd)
  high := (b.highBtcm, b.highMbd)
  low := (b.lowBtcm, b.lowMbd)

/-- A bucket tells what some deals come to: their volumes, and the first, last, highest and lowest
of them. -/
structure BucketObject.Tells (b : BucketObject) (ds : List Deal) : Prop where
  btcmVolume : b.btcmVolume.toInt = (ds.map fun d => d.btcm.toInt).sum
  mbdVolume : b.mbdVolume.toInt = (ds.map fun d => d.mbd.toInt).sum
  candle : Candle.Of xusdRate (ds.map Deal.amounts) b.candle

section Fill

variable {b b' : BucketObject} {ds : List Deal} {d : Deal}

theorem tells_ofFill : (BucketObject.ofFill (btcm d.btcm) (xusd d.mbd)).Tells [d] where
  btcmVolume := (List.sum_singleton).symm
  mbdVolume := (List.sum_singleton).symm
  candle := Candle.of_single

/-- The price `price( mbd, btcm )` of two amounts, which the plugin compares. -/
def priceOf (x : ShareType × ShareType) : Price := ⟨xusd x.2, btcm x.1⟩

/-- The rates decide what `price` compares, as long as the amounts are positive. -/
theorem lt_iff_xusdRate {x y : ShareType × ShareType} (hx : (priceOf x).Positive)
    (hy : (priceOf y).Positive) : (priceOf x).lt (priceOf y) = true ↔ xusdRate x < xusdRate y := by
  rw [Price.lt_iff (a := priceOf x) (b := priceOf y) rfl rfl ⟨hx.base_pos.le, hx.quote_pos.le⟩
    ⟨hy.base_pos.le, hy.quote_pos.le⟩, mul_comm (priceOf y).quote.amount.toInt,
    mul_comm (priceOf x).quote.amount.toInt]
  exact (Price.ratio_lt_ratio hx hy).symm

theorem gt_iff_xusdRate {x y : ShareType × ShareType} (hx : (priceOf x).Positive)
    (hy : (priceOf y).Positive) : (priceOf x).gt (priceOf y) = true ↔ xusdRate y < xusdRate x := by
  rw [← lt_iff_xusdRate hy hx, Price.gt, Bool.not_eq_true', ← Bool.not_eq_true,
    Price.le_iff (p := priceOf x) (q := priceOf y) rfl rfl ⟨hx.base_pos.le, hx.quote_pos.le⟩
      ⟨hy.base_pos.le, hy.quote_pos.le⟩,
    Price.lt_iff (a := priceOf y) (b := priceOf x) rfl rfl ⟨hy.base_pos.le, hy.quote_pos.le⟩
      ⟨hx.base_pos.le, hx.quote_pos.le⟩, not_le, mul_comm, mul_comm (priceOf y).quote.amount.toInt]

theorem addFill_tells (h : b.Tells ds) (hds : ∀ d ∈ ds, d.Positive) (hd : d.Positive)
    (hadd : b.addFill (btcm d.btcm) (xusd d.mbd) = .ok b') : b'.Tells (ds ++ [d]) := by
  simp only [BucketObject.addFill, except_bind_ok, safeAdd_ok, except_pure_ok, btcm_amount,
    xusd_amount] at hadd
  obtain ⟨vb, hvb, vm, hvm, rfl⟩ := hadd
  -- what is in the candle was paid
  have hpos : ∀ x ∈ ds.map Deal.amounts, (priceOf x).Positive := by
    intro x hx
    obtain ⟨d', hd', rfl⟩ := List.mem_map.mp hx
    exact ⟨(hds d' hd').mbd, (hds d' hd').btcm⟩
  have hhigh := lt_iff_xusdRate (hpos _ h.candle.high_mem) (y := d.amounts) ⟨hd.mbd, hd.btcm⟩
  have hlow := gt_iff_xusdRate (hpos _ h.candle.low_mem) (y := d.amounts) ⟨hd.mbd, hd.btcm⟩
  have hcandle := h.candle.extend (a := d.amounts)
  have hvolumes : vb.toInt = ((ds ++ [d]).map fun d => d.btcm.toInt).sum ∧
      vm.toInt = ((ds ++ [d]).map fun d => d.mbd.toInt).sum := by
    simp [hvb, hvm, h.btcmVolume, h.mbdVolume]
  rw [show ds.map Deal.amounts ++ [d.amounts] = (ds ++ [d]).map Deal.amounts by simp] at hcandle
  unfold Candle.extend at hcandle
  simp only [← hhigh, ← hlow] at hcandle
  have hh : (priceOf b.candle.high).lt (priceOf d.amounts) = b.high.lt ⟨xusd d.mbd, btcm d.btcm⟩ := rfl
  have hl : (priceOf b.candle.low).gt (priceOf d.amounts) = b.low.gt ⟨xusd d.mbd, btcm d.btcm⟩ := rfl
  rw [hh, hl] at hcandle
  unfold BucketObject.high BucketObject.low at *
  cases h1 : Price.lt ⟨xusd b.highMbd, btcm b.highBtcm⟩ ⟨xusd d.mbd, btcm d.btcm⟩ <;>
    cases h2 : Price.gt ⟨xusd b.lowMbd, btcm b.lowBtcm⟩ ⟨xusd d.mbd, btcm d.btcm⟩ <;>
    simp only [h1, h2, if_true, if_false, Bool.false_eq_true] at hcandle ⊢ <;>
    exact ⟨hvolumes.1, hvolumes.2, hcandle⟩

end Fill

/-! ## Rounds -/

/-- The bucket of a size that starts at a time. -/
def MarketHistoryState.bucket (t : MarketHistoryState) (s n : ℕ) : Option BucketObject :=
  t.buckets.find? (bucketKey s n)

theorem bucketKey_inj {s s' n n' : ℕ} : bucketKey s n = bucketKey s' n' ↔ s = s' ∧ n = n' := by
  unfold bucketKey
  rw [toLex_inj, Prod.mk.injEq]

theorem bucketKey_le {s s' n n' : ℕ} : bucketKey s n ≤ bucketKey s' n' ↔ s < s' ∨ (s = s' ∧ n ≤ n') :=
  Prod.Lex.toLex_le_toLex

section Rounds

variable {p : MarketHistoryPlugin} {t t' : MarketHistoryState} {now : TimePointSec} {s r n cutoff : ℕ}
  {sides : Asset × Asset}

/-- The loop removes what it is given, up to the first that is not old. -/
theorem removeOldBuckets_removes {l : List BucketKey} (hl : l.Pairwise (· < ·))
    (hlo : ∀ k ∈ l, bucketKey s 0 ≤ k) (h : Runs (removeOldBuckets s cutoff l) t () t') :
    t'.bucket r n = if bucketKey r n ∈ l ∧ r = s ∧ n < cutoff then none else t.bucket r n := by
  induction l generalizing t with
  | nil => exact absurd h runs_throw
  | cons itr l ih =>
      obtain ⟨hitr, hsorted⟩ := List.pairwise_cons.mp hl
      obtain ⟨s', n', rfl⟩ : ∃ s' n', itr = bucketKey s' n' := ⟨_, _, rfl⟩
      rw [removeOldBuckets] at h
      simp only [List.mem_cons, bucketKey_inj]
      by_cases hold : s' = s ∧ n' < cutoff
      · have htest : (ofLex (bucketKey s' n')).1 = s ∧ (ofLex (bucketKey s' n')).2 < cutoff := hold
        rw [if_pos htest, runs_bind] at h
        obtain ⟨_, u, h1, h2⟩ := h
        rw [runs_modify] at h1
        subst h1
        rw [ih hsorted (fun k hk => hlo k (List.mem_cons_of_mem _ hk)) h2]
        unfold MarketHistoryState.bucket
        simp only [FlatMap.find?_erase, bucketKey_inj]
        by_cases hk : r = s' ∧ n = n'
        · obtain ⟨rfl, rfl⟩ := hk
          simp [hold]
        · simp only [hk, if_false, false_or]
      · have htest : ¬ ((ofLex (bucketKey s' n')).1 = s ∧ (ofLex (bucketKey s' n')).2 < cutoff) := hold
        rw [if_neg htest, runs_pure] at h
        obtain ⟨-, rfl⟩ := h
        -- whatever comes later in the index is not old either
        refine (if_neg ?_).symm
        rintro ⟨hmem, rfl, hn⟩
        have hs' := bucketKey_le.mp (hlo _ List.mem_cons_self)
        rcases hmem with ⟨rfl, rfl⟩ | hmem
        · exact hold ⟨rfl, hn⟩
        · have hle := bucketKey_le.mp (hitr _ hmem).le
          exact hold ⟨by omega, by omega⟩

/-- What a round does: the bucket of the window is opened, or takes the fill; then old ones go. -/
theorem updateBucket_at (h : Runs (updateBucket p now sides s) t () t') :
    0 < s ∧ (∀ r, r ≠ s → ∀ n, t'.bucket r n = t.bucket r n) ∧
    ((t.bucket s (now.toNat / s * s) = none ∧ ∀ n, t'.bucket s n =
        if n = now.toNat / s * s then some (.ofFill sides.1 sides.2) else t.bucket s n) ∨
      ∃ b b', t.bucket s (now.toNat / s * s) = some b ∧ b.addFill sides.1 sides.2 = .ok b' ∧
        ∀ n, t'.bucket s n = if 0 < p.maximumHistoryPerBucketSize ∧ n < bucketCutoff p now s then none
          else if n = now.toNat / s * s then some b' else t.bucket s n) := by
  unfold updateBucket at h
  by_cases hs : s = 0
  · rw [if_pos hs] at h
    exact absurd h runs_throw
  rw [if_neg hs] at h
  simp only [runs_bind_reads] at h
  refine ⟨Nat.pos_of_ne_zero hs, ?_⟩
  cases hb : t.buckets.find? (bucketKey s (now.toNat / s * s)) with
  | none =>
      rw [hb, runs_modify] at h
      subst h
      refine ⟨fun r hr n => ?_, .inl ⟨hb, fun n => ?_⟩⟩
      · unfold MarketHistoryState.bucket
        simp only [FlatMap.find?_set, bucketKey_inj, hr, false_and, if_false]
      · unfold MarketHistoryState.bucket
        simp only [FlatMap.find?_set, bucketKey_inj, true_and]
  | some b =>
      simp only [hb, runs_bind, runs_ofExcept, runs_modify] at h
      obtain ⟨b', _, ⟨hadd, hsame⟩, _, _, rfl, h⟩ := h
      obtain rfl := hsame.symm
      have hu : ∀ r n, MarketHistoryState.bucket
          { t with buckets := t.buckets.update (bucketKey s (now.toNat / s * s)) fun _ => b' } r n =
          if r = s ∧ n = now.toNat / s * s then some b' else t.bucket r n := by
        intro r n
        unfold MarketHistoryState.bucket
        simp only [FlatMap.find?_update, bucketKey_inj, hb, Option.map_some]
      by_cases hmax : 0 < p.maximumHistoryPerBucketSize
      · rw [if_pos hmax] at h
        simp only [runs_bind_reads] at h
        have hremoved : ∀ r n, t'.bucket r n = if r = s ∧ n < bucketCutoff p now s then none
            else if r = s ∧ n = now.toNat / s * s then some b' else t.bucket r n := by
          intro r n
          rw [removeOldBuckets_removes (List.Pairwise.sublist (List.dropWhile_sublist _)
            (FlatMap.keys_sorted _)) (fun k hk => (FlatMap.mem_keys_from.mp hk).2) h, ← hu]
          by_cases hold : r = s ∧ n < bucketCutoff p now s
          · rw [if_pos hold, ite_eq_left_iff]
            -- what the loop is not given is not there
            intro hnot
            refine Option.not_isSome_iff_eq_none.mp fun hsome => hnot ⟨FlatMap.mem_keys_from.mpr ⟨hsome, ?_⟩, hold⟩
            exact bucketKey_le.mpr (.inr ⟨hold.1.symm, Nat.zero_le n⟩)
          · simp only [hold, and_false, if_false]
        refine ⟨fun r hr n => ?_, .inr ⟨b, b', hb, hadd, fun n => ?_⟩⟩
        · simp only [hremoved, hr, false_and, if_false]
        · simp only [hremoved, hmax, true_and]
      · rw [if_neg hmax, runs_pure] at h
        obtain ⟨-, rfl⟩ := h
        refine ⟨fun r hr n => ?_, .inr ⟨b, b', hb, hadd, fun n => ?_⟩⟩
        · simp only [hu, hr, false_and, if_false]
        · simp only [hu, hmax, true_and, false_and, if_false]

/-- A fill is put into its bucket for every size in the list, and for one size the others do not
matter. -/
theorem forM_updateBucket {l : List ℕ} (hl : l.Nodup)
    (h : Runs (l.forM (updateBucket p now sides)) t () t') :
    (s ∉ l → t'.bucket s = t.bucket s) ∧
    (s ∈ l → ∃ u u', u.bucket s = t.bucket s ∧ Runs (updateBucket p now sides s) u () u' ∧
      t'.bucket s = u'.bucket s) := by
  induction l generalizing t with
  | nil =>
      obtain ⟨-, rfl⟩ := runs_pure.mp h
      exact ⟨fun _ => rfl, fun hs => absurd hs List.not_mem_nil⟩
  | cons r l ih =>
      obtain ⟨hr, hnodup⟩ := List.nodup_cons.mp hl
      obtain ⟨_, u, h1, h2⟩ := runs_bind.mp h
      obtain ⟨hout, hin⟩ := ih hnodup h2
      have hframe := (updateBucket_at h1).2.1
      constructor
      · intro hs
        have hsr := List.ne_of_not_mem_cons hs
        exact (hout (List.not_mem_of_not_mem_cons hs)).trans (funext (hframe s hsr))
      · intro hs
        by_cases hsr : s = r
        · subst hsr
          exact ⟨t, u, rfl, h1, hout hr⟩
        · obtain ⟨v, v', hv, hrun, hv'⟩ := hin ((List.mem_cons.mp hs).resolve_left hsr)
          exact ⟨v, v', hv.trans (funext (hframe s hsr)), hrun, hv'⟩

end Rounds

/-! ## One size -/

/-- The buckets of a size tell the deals so far; of the windows from a cutoff on none is missing. -/
structure Kept (s : ℕ) (cutoff : ℤ) (ds : List Deal) (f : ℕ → Option BucketObject) : Prop where
  aligned : ∀ n b, f n = some b → ∃ k, n = k * s
  tells : ∀ k b, f (k * s) = some b → b.Tells (inWindow s k ds)
  present : ∀ k : ℕ, cutoff ≤ k * s → inWindow s k ds ≠ [] → (f (k * s)).isSome = true

section Size

variable {p : MarketHistoryPlugin} {t t' : MarketHistoryState} {now : TimePointSec} {s k : ℕ}
  {ds : List Deal} {d : Deal}

theorem inWindow_append (hs : 0 < s) : inWindow s k (ds ++ [d]) =
    if k = d.time / s then inWindow s k ds ++ [d] else inWindow s k ds := by
  have hwindow : (k * s ≤ d.time ∧ d.time < (k + 1) * s) ↔ k = d.time / s := by
    rw [← Nat.le_div_iff_mul_le hs, ← Nat.div_lt_iff_lt_mul hs]
    omega
  unfold inWindow
  rw [List.filter_append, List.filter_singleton]
  simp only [hwindow]
  by_cases hk : k = d.time / s <;> simp [hk]

theorem bucketCutoff_eq (hmax : 0 < p.maximumHistoryPerBucketSize)
    (hfits : s * p.maximumHistoryPerBucketSize ≤ now.toNat) :
    (bucketCutoff p now s : ℤ) = now.toNat - s * p.maximumHistoryPerBucketSize := by
  have hlt := now.toNat_lt
  have hnonneg : 0 ≤ s * p.maximumHistoryPerBucketSize := by positivity
  unfold bucketCutoff
  rw [Int.emod_eq_of_lt hnonneg (by omega), Int.emod_eq_of_lt (by omega) (by omega)]
  omega

theorem Kept.put {cutoff : ℤ} {f : ℕ → Option BucketObject} {b : BucketObject} (h : Kept s cutoff ds f)
    (hs : 0 < s) (hb : b.Tells (inWindow s (d.time / s) ds ++ [d])) :
    Kept s cutoff (ds ++ [d]) fun n => if n = d.time / s * s then some b else f n := by
  have hstart : ∀ k, k * s = d.time / s * s ↔ k = d.time / s := fun k =>
    Nat.mul_left_inj (Nat.pos_iff_ne_zero.mp hs)
  refine ⟨fun n b' hn => ?_, fun k b' hn => ?_, fun k hk hne => ?_⟩
  · by_cases hnew : n = d.time / s * s
    · exact ⟨_, hnew⟩
    · rw [if_neg hnew] at hn
      exact h.aligned n b' hn
  · rw [inWindow_append hs]
    simp only [hstart] at hn
    by_cases hnew : k = d.time / s
    · rw [if_pos hnew] at hn ⊢
      exact Option.some.inj hn ▸ hnew ▸ hb
    · rw [if_neg hnew] at hn ⊢
      exact h.tells k b' hn
  · rw [inWindow_append hs] at hne
    simp only [hstart]
    by_cases hnew : k = d.time / s
    · rw [if_pos hnew]
      rfl
    · rw [if_neg hnew] at hne ⊢
      exact h.present k hk hne

theorem Kept.evict {cutoff : ℤ} {f : ℕ → Option BucketObject} (h : Kept s cutoff ds f) :
    Kept s cutoff ds fun n : ℕ => if (n : ℤ) < cutoff then none else f n := by
  have hkept : ∀ {n : ℕ} {b}, (if (n : ℤ) < cutoff then none else f n) = some b → f n = some b := by
    intro n b hn
    split at hn
    · cases hn
    · exact hn
  refine ⟨fun n b hn => h.aligned n b (hkept hn), fun k b hn => h.tells k b (hkept hn), ?_⟩
  intro k hk hne
  rw [if_neg (not_lt.mpr (by exact_mod_cast hk))]
  exact h.present k hk hne

/-- A round keeps them, and leaves nothing old, unless a window opens. -/
theorem updateBucket_kept {cutoff : ℤ} (hc : cutoff = now.toNat - s * p.maximumHistoryPerBucketSize)
    (hmax : 0 < p.maximumHistoryPerBucketSize)
    (hfits : s * p.maximumHistoryPerBucketSize ≤ now.toNat)
    (hkept : Kept s cutoff ds (t.bucket s)) (hds : ∀ d ∈ ds, d.Positive) (hd : d.Positive)
    (htime : d.time = now.toNat)
    (hfresh : t.bucket s (now.toNat / s * s) = none → ∀ n b, t.bucket s n = some b → cutoff ≤ n)
    (h : Runs (updateBucket p now (btcm d.btcm, xusd d.mbd) s) t () t') :
    Kept s cutoff (ds ++ [d]) (t'.bucket s) ∧ ∀ n b, t'.bucket s n = some b → cutoff ≤ n := by
  obtain ⟨hs, -, hcases⟩ := updateBucket_at h
  have hcutoff := (bucketCutoff_eq hmax hfits).trans hc.symm
  -- the window of the fill is not over
  have hopen : cutoff ≤ ((now.toNat / s * s : ℕ) : ℤ) := by
    have hlt : now.toNat < now.toNat / s * s + s := Nat.lt_div_mul_add hs
    have hle : (s : ℤ) ≤ s * p.maximumHistoryPerBucketSize := by nlinarith
    omega
  rw [← htime] at hcases hfresh hopen
  rcases hcases with ⟨hnone, hafter⟩ | ⟨b, b', hb, hadd, hafter⟩
  · have hempty : inWindow s (d.time / s) ds = [] := by
      by_contra hne
      have hsome := hkept.present (d.time / s) (by exact_mod_cast hopen) hne
      rw [hnone] at hsome
      cases hsome
    rw [show t'.bucket s = _ from funext hafter]
    refine ⟨hkept.put hs (by rw [hempty]; exact tells_ofFill), fun n b hn => ?_⟩
    by_cases hnew : n = d.time / s * s
    · exact hnew ▸ hopen
    · simp only [if_neg hnew] at hn
      exact hfresh hnone n b hn
  · have hpos : ∀ e ∈ inWindow s (d.time / s) ds, e.Positive := fun e he =>
      hds e (List.mem_of_mem_filter he)
    have hput := hkept.put hs (addFill_tells (hkept.tells _ b hb) hpos hd hadd)
    have hevict : t'.bucket s = fun n : ℕ => if (n : ℤ) < cutoff then none
        else if n = d.time / s * s then some b' else t.bucket s n := by
      funext n
      rw [hafter, ← hcutoff]
      simp only [hmax, true_and, Nat.cast_lt]
    rw [hevict]
    refine ⟨hput.evict, fun n b hn => ?_⟩
    by_cases hold : (n : ℤ) < cutoff
    · simp only [if_pos hold] at hn
      cases hn
    · exact not_lt.mp hold

end Size

/-! ## Runs -/

/-- The deals of a run: the fills of the BTCM/XUSD market among its operations. -/
def dealsOf (run : List (OperationObject × TimePointSec)) : List Deal := run.filterMap dealOf

/-- The plugin along a run of operations, each with the head block time. -/
def marketHistoryAfter (p : MarketHistoryPlugin) (run : List (OperationObject × TimePointSec)) :
    MarketHistoryM Unit :=
  run.forM fun e => updateMarketHistories p e.1 e.2

/-- A fill of the market that comes when no cutoff is before the epoch, and when no bucket of a size
is old if it opens a window. -/
def Orderly (p : MarketHistoryPlugin) (t : MarketHistoryState) (e : OperationObject × TimePointSec) :
    Prop :=
  (∃ d, dealOf e = some d ∧ d.Positive) ∧
  ∀ s ∈ p.trackedBuckets.keys, s * p.maximumHistoryPerBucketSize ≤ e.2.toNat ∧
    (t.bucket s (e.2.toNat / s * s) = none → ∀ k ∈ t.buckets.keys, (ofLex k).1 = s →
      e.2.toNat - s * p.maximumHistoryPerBucketSize ≤ (ofLex k).2)

instance (p : MarketHistoryPlugin) (t : MarketHistoryState) (e : OperationObject × TimePointSec) :
    Decidable (Orderly p t e) :=
  decidable_of_iff ((dealOf e).any (fun d => decide d.Positive) = true ∧
      ∀ s ∈ p.trackedBuckets.keys, s * p.maximumHistoryPerBucketSize ≤ e.2.toNat ∧
        (t.bucket s (e.2.toNat / s * s) = none → ∀ k ∈ t.buckets.keys, (ofLex k).1 = s →
          e.2.toNat - s * p.maximumHistoryPerBucketSize ≤ (ofLex k).2))
    (and_congr (by simp [Option.any_eq_true]) Iff.rfl)

/-- The buckets tell the deals of their windows, back to the cutoffs. -/
structure BucketsTell (p : MarketHistoryPlugin) (ds : List Deal) (now : ℕ) (t : MarketHistoryState) :
    Prop where
  present : ∀ s, p.trackedBuckets.has s = true → ∀ k : ℕ,
    now - s * p.maximumHistoryPerBucketSize ≤ k * s →
    ((t.bucket s (k * s)).isSome = true ↔ inWindow s k ds ≠ [])
  tells : ∀ s, p.trackedBuckets.has s = true → ∀ k b, t.bucket s (k * s) = some b →
    b.Tells (inWindow s k ds)
  recent : ∀ s, p.trackedBuckets.has s = true → ∀ n b, t.bucket s n = some b →
    (∃ k, n = k * s) ∧ now - s * p.maximumHistoryPerBucketSize ≤ n

section Runs

variable {p : MarketHistoryPlugin} {t t' : MarketHistoryState} {d : Deal}
  {e : OperationObject × TimePointSec} {run : List (OperationObject × TimePointSec)}

theorem runs_concat : Runs (marketHistoryAfter p (run ++ [e])) t () t' ↔
    ∃ u, Runs (marketHistoryAfter p run) t () u ∧ Runs (updateMarketHistories p e.1 e.2) u () t' := by
  unfold marketHistoryAfter
  rw [List.forM_eq_forM, List.forM_append, runs_bind]
  simp only [List.forM_cons, List.forM_nil, runs_bind, runs_pure]
  constructor
  · rintro ⟨_, u, h1, _, _, h2, -, rfl⟩
    exact ⟨u, h1, h2⟩
  · rintro ⟨u, h1, h2⟩
    exact ⟨(), u, h1, (), t', h2, trivial, rfl⟩

theorem dealsOf_concat : dealsOf (run ++ [e]) = dealsOf run ++ (dealOf e).toList := by
  unfold dealsOf
  rw [List.filterMap_append]
  cases hd : dealOf e <;> simp [hd]

theorem Kept.mono {s : ℕ} {c c' : ℤ} {ds : List Deal} {f : ℕ → Option BucketObject} (h : Kept s c ds f)
    (hle : c ≤ c') : Kept s c' ds f :=
  ⟨h.aligned, h.tells, fun k hk => h.present k (hle.trans hk)⟩

theorem BucketObject.Tells.ne_nil {b : BucketObject} {ds : List Deal} (h : b.Tells ds) : ds ≠ [] := by
  rintro rfl
  exact List.not_mem_nil h.candle.high_mem

/-- A deal is a fill, and its sides are told apart. -/
theorem dealOf_some (hd : dealOf e = some d) : d.time = e.2.toNat ∧
    ∃ a i currentPays b j openPays, e.1.op = .notification (.fillOrder a i currentPays b j openPays) ∧
      btcmFirst openPays currentPays = (btcm d.btcm, xusd d.mbd) := by
  unfold dealOf at hd
  split at hd
  case h_2 => cases hd
  case h_1 a i currentPays b j openPays hop =>
    split at hd
    · rename_i hassets
      obtain rfl := Option.some.inj hd
      refine ⟨rfl, a, i, currentPays, b, j, openPays, hop, ?_⟩
      rw [btcmFirst, if_pos hassets.1]
      exact Prod.ext (congrArg (Asset.mk openPays.amount) hassets.1)
        (congrArg (Asset.mk currentPays.amount) hassets.2)
    · split at hd
      · rename_i hassets
        obtain rfl := Option.some.inj hd
        refine ⟨rfl, a, i, currentPays, b, j, openPays, hop, ?_⟩
        rw [btcmFirst, if_neg (by rw [hassets.1]; decide)]
        exact Prod.ext (congrArg (Asset.mk currentPays.amount) hassets.2)
          (congrArg (Asset.mk openPays.amount) hassets.1)
      · cases hd

theorem isFill_of_dealOf (hd : dealOf e = some d) : e.1.isFill = true := by
  obtain ⟨-, a, i, cp, b, j, op, hop, -⟩ := dealOf_some hd
  unfold OperationObject.isFill
  rw [hop]

theorem updateMarketHistories_deal (hmax : 0 < p.maximumHistoryPerBucketSize) (hd : dealOf e = some d)
    (h : Runs (updateMarketHistories p e.1 e.2) t () t') : ∃ u, u.bucket = t.bucket ∧
      Runs (p.trackedBuckets.keys.forM (updateBucket p e.2 (btcm d.btcm, xusd d.mbd))) u () t' := by
  obtain ⟨-, a, i, cp, b, j, op, hop, hsides⟩ := dealOf_some hd
  unfold updateMarketHistories at h
  simp only [hop, hsides, runs_bind, runs_modify, if_pos hmax.ne'] at h
  obtain ⟨-, u, rfl, h⟩ := h
  exact ⟨⟨t.buckets, t.orderHistory.create ⟨e.2, _⟩⟩, rfl, h⟩

theorem updateMarketHistories_other (hfill : e.1.isFill ≠ true)
    (h : Runs (updateMarketHistories p e.1 e.2) t () t') : t' = t := by
  unfold updateMarketHistories at h
  unfold OperationObject.isFill at hfill
  split at h
  · split at h
    · simp_all
    · exact (runs_pure.mp h).2
  · exact (runs_pure.mp h).2

/-- A fill keeps the buckets of every tracked size in agreement with the deals. -/
theorem updateMarketHistories_kept {ds : List Deal} (hmax : 0 < p.maximumHistoryPerBucketSize)
    (horderly : Orderly p t e) (hds : ∀ d ∈ ds, d.Positive)
    (hkept : ∀ s, p.trackedBuckets.has s = true →
      Kept s (e.2.toNat - s * p.maximumHistoryPerBucketSize) ds (t.bucket s))
    (h : Runs (updateMarketHistories p e.1 e.2) t () t') :
    ∃ d, dealOf e = some d ∧ d.Positive ∧ ∀ s, p.trackedBuckets.has s = true →
      Kept s (e.2.toNat - s * p.maximumHistoryPerBucketSize) (ds ++ [d]) (t'.bucket s) ∧
      ∀ n b, t'.bucket s n = some b → e.2.toNat - s * p.maximumHistoryPerBucketSize ≤ n := by
  obtain ⟨⟨d, hd, hpos⟩, hsizes⟩ := horderly
  refine ⟨d, hd, hpos, fun s hs => ?_⟩
  obtain ⟨u, hu, hrun⟩ := updateMarketHistories_deal hmax hd h
  have hmem : s ∈ p.trackedBuckets.keys := FlatSet.mem_keys.mpr hs
  obtain ⟨hfits, hfresh⟩ := hsizes s hmem
  have hnodup : p.trackedBuckets.keys.Nodup :=
    (FlatMap.keys_sorted p.trackedBuckets).imp fun hlt => ne_of_lt hlt
  obtain ⟨v, v', hv, hround, hv'⟩ := (forM_updateBucket hnodup hrun).2 hmem
  have hsame : v.bucket s = t.bucket s := by rw [hv, hu]
  rw [hv']
  refine updateBucket_kept rfl hmax hfits (hsame ▸ hkept s hs) hds hpos (dealOf_some hd).1 ?_ hround
  intro hnone n b hn
  rw [hsame] at hnone hn
  exact hfresh hnone (bucketKey s n)
    (List.mem_map.mpr ⟨(bucketKey s n, b), FlatMap.mem_entries_iff.mpr hn, rfl⟩) rfl

/-- What holds of the buckets along a run whose fills are orderly and in the order of time. -/
theorem marketHistoryAfter_kept (hmax : 0 < p.maximumHistoryPerBucketSize)
    (htimes : run.Pairwise fun e e' => e.2.toNat ≤ e'.2.toNat)
    (horderly : ∀ before e after u, run = before ++ e :: after →
      Runs (marketHistoryAfter p before) {} () u → e.1.isFill = true → Orderly p u e)
    (hr : Runs (marketHistoryAfter p run) {} () t) :
    (∀ d ∈ dealsOf run, d.Positive) ∧ ∀ s, p.trackedBuckets.has s = true →
      ∀ now : ℕ, (∀ e ∈ run, e.2.toNat ≤ now) →
        Kept s (now - s * p.maximumHistoryPerBucketSize) (dealsOf run) (t.bucket s) := by
  induction run using List.reverseRecOn generalizing t with
  | nil =>
      obtain ⟨-, rfl⟩ := runs_pure.mp hr
      refine ⟨fun d hd => absurd hd List.not_mem_nil, fun s _ now _ => ⟨?_, ?_, ?_⟩⟩
      · intro n b hn
        cases hn
      · intro k b hn
        cases hn
      · intro k _ hne
        exact absurd rfl hne
  | append_singleton run e ih =>
      obtain ⟨u, h1, h2⟩ := runs_concat.mp hr
      obtain ⟨htimes, -, hlast⟩ := List.pairwise_append.mp htimes
      obtain ⟨hds, hkept⟩ := ih htimes (fun before e' after u hrun => horderly before e' (after ++ [e]) u
        (by rw [hrun, List.append_assoc]; rfl)) h1
      have hbefore : ∀ e' ∈ run, e'.2.toNat ≤ e.2.toNat := fun e' he' => hlast e' he' e List.mem_cons_self
      rw [dealsOf_concat]
      by_cases hfill : e.1.isFill = true
      · have ho := horderly run e [] u rfl h1 hfill
        obtain ⟨d, hd, hpos, hstep⟩ := updateMarketHistories_kept hmax ho hds
          (fun s hs => hkept s hs _ hbefore) h2
        rw [hd]
        refine ⟨fun d' hd' => ?_, fun s hs now hnow => ?_⟩
        · rcases List.mem_append.mp hd' with hd' | hd'
          · exact hds d' hd'
          · exact List.mem_singleton.mp hd' ▸ hpos
        · have hle := hnow e (List.mem_append_right run List.mem_cons_self)
          exact (hstep s hs).1.mono (by omega)
      · have hnone : dealOf e = none := by
          by_contra hne
          obtain ⟨d, hd⟩ := Option.ne_none_iff_exists'.mp hne
          exact hfill (isFill_of_dealOf hd)
        obtain rfl := updateMarketHistories_other hfill h2
        rw [hnone, Option.toList_none, List.append_nil]
        exact ⟨hds, fun s hs now hnow => hkept s hs now fun e' he' => hnow e' (List.mem_append_left _ he')⟩

/-- **The buckets tell the deals** after every fill of a run in which the fills are those of the
market, no cutoff is before the epoch, and no bucket is old when a window opens. -/
theorem buckets_tell {o : OperationObject} {now : TimePointSec}
    (hmax : 0 < p.maximumHistoryPerBucketSize) (hfill : o.isFill = true)
    (htimes : (run ++ [(o, now)]).Pairwise fun e e' => e.2.toNat ≤ e'.2.toNat)
    (horderly : ∀ before e after u, run ++ [(o, now)] = before ++ e :: after →
      Runs (marketHistoryAfter p before) {} () u → e.1.isFill = true → Orderly p u e)
    (hr : Runs (marketHistoryAfter p (run ++ [(o, now)])) {} () t) :
    BucketsTell p (dealsOf (run ++ [(o, now)])) now.toNat t := by
  -- the run up to the last fill, and the fill
  obtain ⟨u, h1, h2⟩ := runs_concat.mp hr
  obtain ⟨hbefore, -, hlast⟩ := List.pairwise_append.mp htimes
  obtain ⟨hds, hkept⟩ := marketHistoryAfter_kept hmax hbefore (fun before e after u hrun =>
    horderly before e (after ++ [(o, now)]) u (by rw [hrun, List.append_assoc]; rfl)) h1
  obtain ⟨d, hd, -, hstep⟩ := updateMarketHistories_kept hmax (horderly run (o, now) [] u rfl h1 hfill) hds
    (fun s hs => hkept s hs _ fun e he => hlast e he _ List.mem_cons_self) h2
  rw [dealsOf_concat, hd]
  refine ⟨fun s hs k hk => ⟨fun hsome => ?_, (hstep s hs).1.present k hk⟩, fun s hs => (hstep s hs).1.tells,
    fun s hs n b hn => ⟨(hstep s hs).1.aligned n b hn, (hstep s hs).2 n b hn⟩⟩
  obtain ⟨b, hb⟩ := Option.isSome_iff_exists.mp hsome
  exact ((hstep s hs).1.tells k b hb).ne_nil

end Runs

/-! ## Samples -/

/-- A fill at a head block time, between two orders. -/
def fillAt (now : TimePointSec) (openPays currentPays : Asset) : OperationObject × TimePointSec :=
  ({ op := .notification (.fillOrder "alice" 1 currentPays "bob" 2 openPays) }, now)

/-- Two fills of a window, 5 BTCM for 10 XUSD and 6 XUSD for 2 BTCM. -/
theorem two_fills_told : ∃ t,
    Runs (marketHistoryAfter {} [fillAt 1600000000 (btcm 5) (xusd 10), fillAt 1600000003 (xusd 6) (btcm 2)])
      {} () t ∧
    BucketsTell {} (dealsOf [fillAt 1600000000 (btcm 5) (xusd 10), fillAt 1600000003 (xusd 6) (btcm 2)])
      1600000003 t := by
  have hfirst : Orderly {} {} (fillAt 1600000000 (btcm 5) (xusd 10)) := by decide +kernel
  have hgoes : leadsTo (marketHistoryAfter {} [fillAt 1600000000 (btcm 5) (xusd 10)]) {}
      (fun u => decide (Orderly {} u (fillAt 1600000003 (xusd 6) (btcm 2))) &&
        leadsTo (updateMarketHistories {} (fillAt 1600000003 (xusd 6) (btcm 2)).1 1600000003) u
          fun _ => true) = true := by
    decide +kernel
  obtain ⟨u, h1, hu⟩ := leadsTo_iff.mp hgoes
  obtain ⟨hsecond, hgoes⟩ := Bool.and_eq_true_iff.mp hu
  obtain ⟨t, h2, -⟩ := leadsTo_iff.mp hgoes
  have hr : Runs (marketHistoryAfter {} ([fillAt 1600000000 (btcm 5) (xusd 10)] ++
      [fillAt 1600000003 (xusd 6) (btcm 2)])) {} () t := runs_concat.mpr ⟨u, h1, h2⟩
  refine ⟨t, hr, buckets_tell (by decide) rfl (by decide) ?_ hr⟩
  intro before e after v hrun hv _
  match before with
  | [] =>
      obtain ⟨rfl, -⟩ := List.cons.inj hrun
      obtain ⟨-, rfl⟩ := runs_pure.mp hv
      exact hfirst
  | [a] =>
      obtain ⟨rfl, htail⟩ := List.cons.inj hrun
      obtain ⟨rfl, -⟩ := List.cons.inj htail
      obtain ⟨-, rfl⟩ := Prod.mk.inj (Except.ok.inj (h1.symm.trans hv))
      exact of_decide_eq_true hsecond
  | a :: b :: rest =>
      have hlen := congrArg List.length hrun
      simp at hlen

/-- A fill of another market opens a bucket; and when a window opens two days later, the buckets of
15 seconds from before are still there. -/
theorem foreign_and_old_fills :
    (∃ t, Runs (marketHistoryAfter {} [fillAt 1600000000 ⟨5, 3⟩ (btcm 2)]) {} () t ∧
      ¬ BucketsTell {} (dealsOf [fillAt 1600000000 ⟨5, 3⟩ (btcm 2)]) 1600000000 t) ∧
    ∃ t, Runs (marketHistoryAfter {}
        [fillAt 1600000000 (btcm 5) (xusd 10), fillAt 1600172800 (btcm 5) (xusd 10)]) {} () t ∧
      ¬ BucketsTell {} (dealsOf [fillAt 1600000000 (btcm 5) (xusd 10), fillAt 1600172800 (btcm 5) (xusd 10)])
        1600172800 t := by
  constructor
  · have hgoes : leadsTo (marketHistoryAfter {} [fillAt 1600000000 ⟨5, 3⟩ (btcm 2)]) {}
        (fun t => (t.bucket 15 1599999990).isSome) = true := by
      decide +kernel
    obtain ⟨t, hr, ht⟩ := leadsTo_iff.mp hgoes
    refine ⟨t, hr, fun h => ?_⟩
    exact (h.present 15 rfl 106666666 (by decide)).mp ht rfl
  · have hgoes : leadsTo (marketHistoryAfter {}
        [fillAt 1600000000 (btcm 5) (xusd 10), fillAt 1600172800 (btcm 5) (xusd 10)]) {}
        (fun t => (t.bucket 15 1599999990).isSome) = true := by
      decide +kernel
    obtain ⟨t, hr, ht⟩ := leadsTo_iff.mp hgoes
    obtain ⟨b, hb⟩ := Option.isSome_iff_exists.mp ht
    refine ⟨t, hr, fun h => ?_⟩
    exact absurd (h.recent 15 rfl 1599999990 b hb).2 (by decide)

end BtcmChain
