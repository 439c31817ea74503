import BtcmChain.Lib.Tenure
import BtcmChain.Sound.Backing

set_option autoImplicit false

/-!
# Interest on XUSD

The seconds of an account are the integral of its XUSD balance since the last payment, and a payment
is the interest on them; so changes within a block do not matter (`interest_accrues`). A payment reads
64 unsigned bits as signed, but one that comes out negative cannot be booked at a price.

`Passbook` is what is told of one account: what it held in each second, and the changes that were
made. `Passbook.Of` builds it along a run, in which anything may happen beside the account, and
`Passbook.Current` ties it to the fields of the account, for every change, within a block and
between blocks. What a payment needs of the state is that the effective median, if it is set, is a
price (`Database.Quoted`), which `PiecewiseIf.quoted` has for runs.
-/

namespace BtcmChain

open Finset

/-! ## Accrual -/

section Accrue

variable {now : TimePointSec} {rate : UInt16} {f : AccountFunds} {r : Accrual}

/-- The seconds that the balance was held are added exactly, without wrapping around. -/
theorem toNat_accrued (hbalance : 0 ≤ f.mbdBalance.toInt)
    (hlater : f.mbdSecondsLastUpdate.toNat ≤ now.toNat) (hseconds : f.mbdSeconds.toNat < 2 ^ 96) :
    ((f.mbdSeconds + UInt128.ofShare f.mbdBalance *
        BitVec.ofInt 128 (secondsBetween now f.mbdSecondsLastUpdate)).toNat : ℤ) =
      f.mbdSeconds.toNat + f.mbdBalance.toInt * (now.toNat - f.mbdSecondsLastUpdate.toNat) := by
  have hnow := now.toNat_lt
  have hmax := f.mbdBalance.toInt_lt
  have helapsed : (BitVec.ofInt 128 (secondsBetween now f.mbdSecondsLastUpdate)).toNat =
      now.toNat - f.mbdSecondsLastUpdate.toNat := by
    rw [BitVec.toNat_ofInt, secondsBetween, Int.emod_eq_of_lt (by omega) (by omega)]
    omega
  have hproduct : f.mbdBalance.toInt.toNat * (now.toNat - f.mbdSecondsLastUpdate.toNat) < 2 ^ 63 * 2 ^ 32 :=
    Nat.mul_lt_mul'' (by omega) (by omega)
  rw [BitVec.toNat_add, BitVec.toNat_mul, UInt128.toNat_ofShare hbalance, helapsed,
    Nat.mod_eq_of_lt (a := f.mbdBalance.toInt.toNat * _) (by omega), Nat.mod_eq_of_lt (by omega)]
  push_cast [Nat.cast_sub hlater]
  rw [Int.toNat_of_nonneg hbalance]

/-- The interest on the seconds is computed exactly, and the quotient then read as a signed number.
-/
theorem interestOn_ok {seconds : UInt128} {i : ShareType} (hseconds : seconds.toNat < 2 ^ 97) :
    interestOn seconds rate = .ok i ↔ ∃ x : UInt64,
      x.toNat = seconds.toNat / 31536000 * rate.toNat / 10000 ∧ i = .ofUInt64 x := by
  have hrate := rate.toNat_lt
  have hyears : seconds.toNat / 31536000 * rate.toNat < 2 ^ 97 * 2 ^ 16 :=
    Nat.mul_lt_mul'' (by omega) (by omega)
  have hvalue : (seconds / 31536000 * BitVec.ofNat 128 rate.toNat / 10000).toNat =
      seconds.toNat / 31536000 * rate.toNat / 10000 := by
    rw [BitVec.toNat_udiv, BitVec.toNat_mul, BitVec.toNat_udiv, BitVec.toNat_ofNat,
      Nat.mod_eq_of_lt (a := rate.toNat) (by omega)]
    show seconds.toNat / 31536000 * rate.toNat % 2 ^ 128 / 10000 = _
    rw [Nat.mod_eq_of_lt (by omega)]
  have hyear : (31536000 : UInt128) ≠ 0 := by decide
  have hpercent : (10000 : UInt128) ≠ 0 := by decide
  simp only [interestOn, except_bind_ok, except_pure_ok, UInt128.div_ok, UInt128.toUInt64_ok]
  constructor
  · rintro ⟨_, ⟨-, rfl⟩, _, ⟨-, rfl⟩, x, hx, rfl⟩
    exact ⟨x, hx.trans hvalue, rfl⟩
  · rintro ⟨x, hx, rfl⟩
    exact ⟨_, ⟨hyear, rfl⟩, _, ⟨hpercent, rfl⟩, x, hx.trans hvalue.symm, rfl⟩

end Accrue

/-! ## Booking -/

/-- The effective median is a price, if it is set. -/
def Database.Quoted (s : Database) : Prop :=
  s.feedHistory.effectiveMedianHistory.isNull = true ∨ s.feedHistory.effectiveMedianHistory.Positive

section Booking

variable {s s' : Database} {i : ShareType} {p : Price}

/-- A negative amount has no value of 64 bits at a price, since it is scaled as an unsigned number.
-/
theorem scale_of_neg {num den r : ShareType} (hi : i.toInt < 0) (hn : 0 < num.toInt) (hd : 0 < den.toInt) :
    scale i num den ≠ .ok r := by
  intro h
  have hmin := i.le_toInt
  have hn' := num.toInt_lt
  have hd' := den.toInt_lt
  obtain ⟨m, hm⟩ : ∃ m : ℕ, i.toInt = -m := ⟨i.toInt.natAbs, by omega⟩
  have hneg : (UInt128.ofShare i).toNat = 2 ^ 128 - m := by
    rw [UInt128.ofShare, BitVec.toNat_ofInt]
    omega
  have hprod : m * num.toInt.toNat ≤ 2 ^ 63 * 2 ^ 63 := Nat.mul_le_mul (by omega) (by omega)
  have hpos : 0 < m * num.toInt.toNat := Nat.mul_pos (by omega) (by omega)
  -- the product wraps around to just below 2^128
  have hwrap : (2 ^ 128 - m) * num.toInt.toNat % 2 ^ 128 = 2 ^ 128 - m * num.toInt.toNat := by
    obtain ⟨n, hn⟩ : ∃ n, num.toInt.toNat = n + 1 := ⟨num.toInt.toNat - 1, by omega⟩
    rw [hn] at hprod hpos ⊢
    have hsplit : (2 ^ 128 - m) * (n + 1) = 2 ^ 128 - m * (n + 1) + 2 ^ 128 * n := by
      zify [show m ≤ 2 ^ 128 by omega, show m * (n + 1) ≤ 2 ^ 128 by omega]
      ring
    rw [hsplit, Nat.add_mul_mod_self_left, Nat.mod_eq_of_lt (by omega)]
  simp only [scale, except_bind_ok, except_pure_ok, UInt128.div_ok, UInt128.toUInt64_ok] at h
  obtain ⟨_, ⟨-, rfl⟩, q, hq, -⟩ := h
  have hlt := q.toNat_lt
  rw [BitVec.toNat_udiv, BitVec.toNat_mul, hneg, UInt128.toNat_ofShare hn.le, UInt128.toNat_ofShare hd.le,
    hwrap] at hq
  have hge : 2 ^ 64 ≤ (2 ^ 128 - m * num.toInt.toNat) / den.toInt.toNat := by
    rw [Nat.le_div_iff_mul_le (by omega)]
    omega
  omega

theorem mulPrice_of_neg {a r : Asset} (ha : a.amount.toInt < 0) (hp : p.Positive) :
    a.mulPrice p ≠ .ok r := by
  intro h
  unfold Asset.mulPrice at h
  split at h
  · split at h
    · obtain ⟨x, hx, -⟩ := except_map_ok.mp h
      exact scale_of_neg ha hp.quote_pos hp.base_pos hx
    · cases h
  · split at h
    · split at h
      · obtain ⟨x, hx, -⟩ := except_map_ok.mp h
        exact scale_of_neg ha hp.base_pos hp.quote_pos hx
      · cases h
    · cases h

/-- The null price is one for BTCM only, so an amount of anything else has no value at it. -/
theorem mulPrice_of_null {a r : Asset} (ha : a.assetId ≠ BTCM_SYMBOL) (hp : p.isNull = true) :
    a.mulPrice p ≠ .ok r := by
  simp only [Price.isNull, Price.eq, Bool.and_eq_true, decide_eq_true_eq] at hp
  obtain ⟨⟨hbase, hquote⟩, -⟩ := hp
  have hbase : p.base.assetId = BTCM_SYMBOL := hbase
  have hquote : p.quote.assetId = BTCM_SYMBOL := hquote
  intro h
  rw [Asset.mulPrice, hbase, hquote, if_neg ha, if_neg ha] at h
  cases h

/-- Interest that can be booked is not negative, as long as the supply is quoted at a valid price.
-/
theorem runs_bookInterest_nonneg (hs : s.Quoted) (h : Runs (bookInterest i) s () s') : 0 ≤ i.toInt := by
  rw [bookInterest, runs_bind_reads] at h
  obtain ⟨_, hp, -⟩ := runs_modifySupply.mp h
  simp only [except_bind_ok] at hp
  obtain ⟨_, -, worth, hworth, -⟩ := hp
  by_contra hneg
  rcases hs with hnull | hpos
  · exact mulPrice_of_null (show XUSD_SYMBOL ≠ BTCM_SYMBOL by decide) hnull hworth
  · exact mulPrice_of_neg (not_le.mp hneg) hpos hworth

/-- As long as there is BTCM the median that is recorded is a price. -/
theorem updateMedianFeed_quoted (h : Published s) (hs : s.Quoted) (hsupply : 0 < s.dgpo.currentSupply.toInt)
    (hr : Runs updateMedianFeed s () s') : s'.Quoted := by
  rcases (runs_updateMedianFeed h.rates).mp hr with ⟨-, feed, hfeed, hrecord⟩ | ⟨-, rfl⟩
  swap
  · exact hs
  obtain ⟨recent, median, effective, rfl, hmedian, heff, rfl⟩ := runs_recordFeed.mp hrecord
  have hm : median.IsFeed := window_isFeed h.history
    (isFeed_of_mem_currentRates h.rates (mem_of_medianPrice hfeed)) median (mem_of_medianPrice hmedian)
  refine .inr ?_
  by_cases hpos : 0 < s.dgpo.currentMbdSupply.toInt
  · obtain ⟨limit, hlimit, hlarger⟩ := limitMedian_isLarger hm hsupply.le hpos heff
    rcases hlarger.one with rfl | rfl
    · exact hm.inXusd_spec.2.2
    · exact ⟨by rw [xusd_amount]; omega, hsupply⟩
  · rw [limitMedian_of_none (not_lt.mp hpos)] at heff
    obtain rfl := Except.ok.inj heff
    exact ⟨hm.2.1, hm.2.2⟩

end Booking

section Runs

variable [Externals]

/-- Only an update of the median touches the medians: a move outside of settlements does not. -/
theorem Move.feedHistory_eq {m : Move} {s s' : Database} (hne : m ≠ .settle) (hs : ProposalsValid s)
    (h : Runs m.run s () s') : s'.feedHistory = s.feedHistory := by
  refine (Move.run_induction (P := fun t => t.feedHistory = s.feedHistory) (C := fun _ => True)
    (fun _ _ h => h) ?_ ?_ ?_ ?_ ?_ hs (fun _ _ => trivial) rfl h).1
  · exact fun push op t t' hop _ _ hP hr => (evaluate_feedHistory hop hr).trans hP
  · exact fun b t t' hP hr => (Writes.feeds_eq hr (by decide)).trans hP
  · exact fun b t t' hP hr => (Writes.feeds_eq hr (by decide)).trans hP
  · exact fun hsettle => absurd hsettle hne
  · exact fun t t' hP hr => (Writes.feeds_eq hr (by decide)).trans hP

/-- Along every run in which there is BTCM whenever the median is updated, the effective median is a
price, if it is set. So this holds where a passbook asks for it. -/
theorem PiecewiseIf.quoted {C : Database → Part → Prop} {s : Database}
    (hC : ∀ t, C t .medianFeed → 0 < t.dgpo.currentSupply.toInt) (h : PiecewiseIf C s) : s.Quoted := by
  induction h with
  | genesis h =>
      rw [Database.Quoted, Writes.feeds_eq h (by decide)]
      exact .inl rfl
  | move hs hne hm ih =>
      rw [Database.Quoted, Move.feedHistory_eq hne hs.proposalsValid hm]
      exact ih
  | @part p s s' hs hCp hp ih =>
      by_cases hfeed : p = .medianFeed
      · subst hfeed
        exact updateMedianFeed_quoted hs.published ih (hC s hCp) hp
      · have hsame : s'.feedHistory = s.feedHistory := by
          by_cases hsched : p = .schedule
          · subst hsched
            have hp : Runs updateWitnessSchedule s () s' := hp
            exact Writes.feeds_eq hp (by decide)
          · have hwrites := Part.writes hfeed hsched
            exact Writes.feeds_eq hp (by decide)
        rw [Database.Quoted, hsame]
        exact ih

end Runs

/-! ## Passbooks -/

/-- A change of an XUSD balance: what was credited besides, and by how much the supply grew. It is a
payment if the last payment is noted anew. -/
structure XusdChange where
  time : ℕ
  rate : ℕ
  paid : Bool
  credited : ℤ
  minted : ℤ

/-- A passbook: what was held in each second, and the changes that were made. -/
structure Passbook where
  held : ℕ → ℤ := fun _ => 0
  changes : List XusdChange := []

/-- The payments of interest among the changes. -/
def payments (cs : List XusdChange) : List XusdChange := cs.filter (·.paid)

/-- The time of the last payment among the changes, or the epoch if there was none. -/
def lastPaid (cs : List XusdChange) : ℕ := ((payments cs).getLast?.map (·.time)).getD 0

def Database.fundsOf (s : Database) (a : AccountId) : Option AccountFunds :=
  (s.accounts.find? a).map (·.toAccountFunds)

/-- What the change from one state to the next was. -/
def changeOf (delta : ShareType) (s s' : Database) (f f' : AccountFunds) : XusdChange where
  time := s.dgpo.time.toNat
  rate := s.dgpo.mbdInterestRate.toNat
  paid := decide (f'.mbdLastInterestPayment ≠ f.mbdLastInterestPayment)
  credited := f'.mbdBalance.toInt - f.mbdBalance.toInt - delta.toInt
  minted := s'.dgpo.currentMbdSupply.toInt - s.dgpo.currentMbdSupply.toInt

/-- All of the liquid holdings but the BTCM is the same. -/
def SameXusd (f f' : AccountFunds) : Prop := { f' with balance := f.balance } = f

/-- The passbook of an account along a run: it is created, then its XUSD balance changes through
`adjust_balance`; in between anything else may happen, time passes, and nothing is overdrawn. That the
effective median is a price where a balance changes is so in every run that always has BTCM when the
median is updated (`PiecewiseIf.quoted`). -/
inductive Passbook.Of (a : AccountId) : Passbook → Database → AccountFunds → Prop
  | opened {s : Database} {f : AccountFunds} : s.fundsOf a = some f → f.mbdBalance = 0 →
      f.mbdSeconds = 0 → f.mbdSecondsLastUpdate = 0 → f.mbdLastInterestPayment = 0 →
      Passbook.Of a {} s f
  | passed {b : Passbook} {s s' : Database} {f f' : AccountFunds} : Passbook.Of a b s f →
      s'.fundsOf a = some f' → SameXusd f f' → s.dgpo.time ≤ s'.dgpo.time →
      (s.dgpo.time < s'.dgpo.time → 0 ≤ f.mbdBalance.toInt) →
      Passbook.Of a { b with
        held := holdOver b.held s.dgpo.time.toNat s'.dgpo.time.toNat f.mbdBalance.toInt } s' f'
  | changed {b : Passbook} {s s' : Database} {f f' : AccountFunds} {delta : ShareType} :
      Passbook.Of a b s f → s.Quoted → Runs (adjustBalance a (xusd delta)) s () s' →
      s'.fundsOf a = some f' →
      Passbook.Of a { b with changes := b.changes ++ [changeOf delta s s' f f'] } s' f'

/-- Interest as it should be: the seconds kept are those of what was held since the last payment,
each payment credits what its seconds bring, and payments are a month apart. -/
structure Passbook.Accrued (b : Passbook) (f : AccountFunds) : Prop where
  seconds : (f.mbdSeconds.toNat : ℤ) =
    ∑ t ∈ Ico (lastPaid b.changes) f.mbdSecondsLastUpdate.toNat, b.held t
  interest : ∀ before c after, b.changes = before ++ c :: after → c.credited =
    if c.paid then (∑ t ∈ Ico (lastPaid before) c.time, b.held t) / 31536000 * c.rate / 10000 else 0
  apart : (payments b.changes).Pairwise fun c d => c.time + 2592000 < d.time
  once : b.changes.Pairwise fun c d => c.time = d.time → d.paid = false
  minted : ∀ c ∈ b.changes, c.minted = c.credited

section Changes

variable {cs : List XusdChange} {c : XusdChange}

theorem lastPaid_append : lastPaid (cs ++ [c]) = if c.paid then c.time else lastPaid cs := by
  unfold lastPaid payments
  rw [List.filter_append]
  cases hpaid : c.paid <;> simp [hpaid]

theorem payments_append : payments (cs ++ [c]) = if c.paid then payments cs ++ [c] else payments cs := by
  unfold payments
  rw [List.filter_append]
  cases hpaid : c.paid <;> simp [hpaid]

end Changes

section Steps

variable {s s' : Database} {a : AccountId} {f f' : AccountFunds} {delta : ShareType}

/-- What an adjustment does to the XUSD of an account. -/
inductive Adjusted (s s' : Database) (f f' : AccountFunds) (delta : ShareType) : Prop
  | again : f.mbdSecondsLastUpdate = s.dgpo.time → f'.mbdSecondsLastUpdate = s.dgpo.time →
      f'.mbdSeconds = f.mbdSeconds → f'.mbdLastInterestPayment = f.mbdLastInterestPayment →
      f'.mbdBalance.toInt = f.mbdBalance.toInt + delta.toInt →
      s'.dgpo.currentMbdSupply.toInt = s.dgpo.currentMbdSupply.toInt → Adjusted s s' f f' delta
  | counted : f.mbdSecondsLastUpdate ≠ s.dgpo.time → f'.mbdSecondsLastUpdate = s.dgpo.time →
      f'.mbdSeconds = f.mbdSeconds + UInt128.ofShare f.mbdBalance *
        BitVec.ofInt 128 (secondsBetween s.dgpo.time f.mbdSecondsLastUpdate) →
      f'.mbdLastInterestPayment = f.mbdLastInterestPayment →
      f'.mbdBalance.toInt = f.mbdBalance.toInt + delta.toInt →
      s'.dgpo.currentMbdSupply.toInt = s.dgpo.currentMbdSupply.toInt → Adjusted s s' f f' delta
  | paid {i : ShareType} : f.mbdSecondsLastUpdate ≠ s.dgpo.time →
      f'.mbdSecondsLastUpdate = s.dgpo.time → f'.mbdSeconds = 0 →
      f'.mbdLastInterestPayment = s.dgpo.time →
      2592000 < secondsBetween s.dgpo.time f.mbdLastInterestPayment →
      interestOn (f.mbdSeconds + UInt128.ofShare f.mbdBalance *
        BitVec.ofInt 128 (secondsBetween s.dgpo.time f.mbdSecondsLastUpdate)) s.dgpo.mbdInterestRate = .ok i →
      0 ≤ i.toInt → f'.mbdBalance.toInt = f.mbdBalance.toInt + i.toInt + delta.toInt →
      s'.dgpo.currentMbdSupply.toInt = s.dgpo.currentMbdSupply.toInt + i.toInt → Adjusted s s' f f' delta

/-- The interest that an adjustment pays out is booked on the account and in the supply. -/
theorem adjustMbd_books {acct : AccountObject} {r : Accrual} {i : ShareType}
    (hacct : s.accounts.find? a = some acct)
    (hr : accrue s.dgpo.time s.dgpo.mbdInterestRate acct.toAccountFunds = .ok r) (hi : r.interest = some i)
    (h : Runs (adjustMbd a delta) s () s') : ∃ t, Runs (bookInterest i) s () t := by
  simp only [adjustMbd, runs_bind_get, runs_bind_headBlockTime, runs_bind_reads, runs_bind_ofExcept] at h
  obtain ⟨acct', hacct', r', hr', h⟩ := h
  obtain rfl := Option.some.inj (hacct.symm.trans hacct')
  obtain rfl := Except.ok.inj (hr.symm.trans hr')
  rw [hi, Option.elim_some, runs_bind] at h
  obtain ⟨_, t, hbook, -⟩ := h
  exact ⟨t, hbook⟩

theorem runs_adjusted (hs : s.Quoted) (hf : s.fundsOf a = some f) (hf' : s'.fundsOf a = some f')
    (h : Runs (adjustBalance a (xusd delta)) s () s') :
    s'.dgpo.time = s.dgpo.time ∧ Adjusted s s' f f' delta := by
  have h : Runs (adjustMbd a delta) s () s' := h
  obtain ⟨acct, r, x, p, hacct, hr, hx, hmbd, -, -, rfl⟩ := runs_adjustMbd h
  obtain rfl : acct.toAccountFunds = f := by
    rw [Database.fundsOf, hacct, Option.map_some] at hf
    exact Option.some.inj hf
  obtain rfl : { r.funds with mbdBalance := x } = f' := by
    rw [Database.fundsOf, Database.withFunds, ObjectIndex.find?_update, if_pos rfl] at hf'
    rw [show Database.accounts _ = s.accounts from rfl, hacct] at hf'
    exact Option.some.inj hf'
  refine ⟨rfl, ?_⟩
  have hsupply : (Database.withFunds { s with dgpo := { s.dgpo with toGlobalSupply := p } } a acct
      { r.funds with mbdBalance := x }).dgpo.currentMbdSupply.toInt =
      s.dgpo.currentMbdSupply.toInt + r.interest.elim 0 Int64.toInt := hmbd
  have hbooks := fun i hi => adjustMbd_books (i := i) hacct hr hi h
  clear h
  simp only [accrue] at hr
  split at hr
  · rename_i hagain
    obtain rfl := Except.ok.inj hr
    rw [Option.elim_none, add_zero] at hsupply
    exact .again hagain hagain rfl rfl hx hsupply
  · rename_i hlater
    split at hr
    · rename_i hdue
      simp only [except_bind_ok, except_pure_ok, safeAdd_ok] at hr
      obtain ⟨i, hi, y, hy, rfl⟩ := hr
      obtain ⟨t, hbook⟩ := hbooks i rfl
      refine .paid hlater rfl rfl rfl hdue.2 hi (runs_bookInterest_nonneg hs hbook) ?_ hsupply
      exact hx.trans (congrArg (· + delta.toInt) hy)
    · obtain rfl := Except.ok.inj hr
      rw [Option.elim_none, add_zero] at hsupply
      exact .counted hlater rfl rfl rfl hx hsupply

end Steps

/-- Interest is right so far, and the balance is what is held since the last update. -/
structure Passbook.Current (b : Passbook) (s : Database) (f : AccountFunds) : Prop extends b.Accrued f where
  paidAt : f.mbdLastInterestPayment.toNat = lastPaid b.changes
  paid_le : lastPaid b.changes ≤ f.mbdSecondsLastUpdate.toNat
  paid_last : ∀ c ∈ payments b.changes, c.time ≤ lastPaid b.changes
  past : ∀ c ∈ b.changes, c.time ≤ f.mbdSecondsLastUpdate.toNat
  update_le : f.mbdSecondsLastUpdate.toNat ≤ s.dgpo.time.toNat
  current : ∀ t, f.mbdSecondsLastUpdate.toNat ≤ t → t < s.dgpo.time.toNat → b.held t = f.mbdBalance.toInt
  bounds : ∀ t, 0 ≤ b.held t ∧ b.held t ≤ 2 ^ 63 - 1

section Life

variable {a : AccountId} {b : Passbook} {s s' : Database} {f f' : AccountFunds} {delta : ShareType}

theorem Passbook.Of.fundsOf (h : Passbook.Of a b s f) : s.fundsOf a = some f := by
  cases h with
  | opened hf => exact hf
  | passed _ hf => exact hf
  | changed _ _ _ hf => exact hf

/-- Whatever holds of the places of a list holds of those of a longer one. -/
theorem forall_split_concat {α : Type} {P : List α → α → Prop} {l : List α} {x : α}
    (h : ∀ before c after, l = before ++ c :: after → P before c) (hx : P l x) :
    ∀ before c after, l ++ [x] = before ++ c :: after → P before c := by
  intro before c after heq
  rcases List.eq_nil_or_concat after with rfl | ⟨rest, y, rfl⟩
  · obtain ⟨rfl, hc⟩ := List.append_inj' heq rfl
    obtain rfl := (List.cons.inj hc).1
    exact hx
  · rw [List.concat_eq_append, ← List.cons_append, ← List.append_assoc] at heq
    exact h before c rest (List.append_inj' heq rfl).1

theorem Passbook.Current.seconds_lt (h : b.Current s f) : f.mbdSeconds.toNat < 2 ^ 96 := by
  have hle := sum_held_le (a := lastPaid b.changes) (b := f.mbdSecondsLastUpdate.toNat) (by norm_num)
    fun t => (h.bounds t).2
  have hlt := f.mbdSecondsLastUpdate.toNat_lt
  rw [← h.seconds] at hle
  omega

/-- Time passes, and the account stays as it is: the passbook holds what the account does in each
second. -/
theorem Passbook.Current.pass (h : b.Current s f) (hsame : SameXusd f f') (htime : s.dgpo.time ≤ s'.dgpo.time)
    (hpos : s.dgpo.time < s'.dgpo.time → 0 ≤ f.mbdBalance.toInt) :
    Passbook.Current { b with
      held := holdOver b.held s.dgpo.time.toNat s'.dgpo.time.toNat f.mbdBalance.toInt } s' f' := by
  have htime := UInt32.le_iff_toNat_le.mp htime
  have hmax := f.mbdBalance.toInt_lt
  obtain ⟨hbalance, hseconds, hupdate, hpaid⟩ : f'.mbdBalance = f.mbdBalance ∧
      f'.mbdSeconds = f.mbdSeconds ∧ f'.mbdSecondsLastUpdate = f.mbdSecondsLastUpdate ∧
      f'.mbdLastInterestPayment = f.mbdLastInterestPayment :=
    ⟨congrArg (·.mbdBalance) hsame, congrArg (·.mbdSeconds) hsame,
      congrArg (·.mbdSecondsLastUpdate) hsame, congrArg (·.mbdLastInterestPayment) hsame⟩
  refine ⟨⟨?_, ?_, h.apart, h.once, h.minted⟩, ?_, ?_, h.paid_last, ?_, ?_, ?_, ?_⟩
  · rw [hseconds, hupdate, sum_holdOver h.update_le]
    exact h.seconds
  · intro before c after heq
    have hc : c ∈ b.changes := heq ▸ List.mem_append_right before List.mem_cons_self
    rw [sum_holdOver ((h.past c hc).trans h.update_le)]
    exact h.interest before c after heq
  · rw [hpaid]
    exact h.paidAt
  · rw [hupdate]
    exact h.paid_le
  · rw [hupdate]
    exact h.past
  · rw [hupdate]
    exact h.update_le.trans htime
  · intro t hge hlt
    rw [hupdate] at hge
    rw [hbalance]
    by_cases hnew : s.dgpo.time.toNat ≤ t
    · exact if_pos ⟨hnew, hlt⟩
    · exact (holdOver_of_lt (not_le.mp hnew)).trans (h.current t hge (not_le.mp hnew))
  · intro t
    show 0 ≤ holdOver b.held _ _ _ t ∧ holdOver b.held _ _ _ t ≤ 2 ^ 63 - 1
    by_cases hin : s.dgpo.time.toNat ≤ t ∧ t < s'.dgpo.time.toNat
    · have hlater := hpos (UInt32.lt_iff_toNat_lt.mpr (hin.1.trans_lt hin.2))
      rw [holdOver, if_pos hin]
      omega
    · rw [holdOver, if_neg hin]
      exact h.bounds t

/-- The seconds up to now are those of what was held since the last payment. -/
theorem Passbook.Current.accrued (h : b.Current s f) (hne : f.mbdSecondsLastUpdate ≠ s.dgpo.time) :
    ((f.mbdSeconds + UInt128.ofShare f.mbdBalance *
        BitVec.ofInt 128 (secondsBetween s.dgpo.time f.mbdSecondsLastUpdate)).toNat : ℤ) =
      ∑ t ∈ Ico (lastPaid b.changes) s.dgpo.time.toNat, b.held t := by
  have hlt : f.mbdSecondsLastUpdate.toNat < s.dgpo.time.toNat :=
    lt_of_le_of_ne h.update_le fun heq => hne (UInt32.toNat_inj.mp heq)
  have hbalance : 0 ≤ f.mbdBalance.toInt := h.current _ le_rfl hlt ▸ (h.bounds _).1
  rw [toNat_accrued hbalance h.update_le h.seconds_lt, h.seconds,
    sum_of_held h.paid_le h.update_le h.current]

theorem lastPaid_le_of_append {cs : List XusdChange} {c : XusdChange} (h : lastPaid cs ≤ c.time) :
    lastPaid (cs ++ [c]) ≤ c.time := by
  rw [lastPaid_append]
  split
  · exact le_rfl
  · exact h

/-- A change is entered at the time of the update. A payment is due, and the first change in its
block. -/
theorem Passbook.Current.enter {c : XusdChange} (h : b.Current s f) (htime : s'.dgpo.time = s.dgpo.time)
    (hc : c.time = s.dgpo.time.toNat) (hupdate : f'.mbdSecondsLastUpdate = s.dgpo.time)
    (hseconds : (f'.mbdSeconds.toNat : ℤ) =
      ∑ t ∈ Ico (lastPaid (b.changes ++ [c])) s.dgpo.time.toNat, b.held t)
    (hpaidAt : f'.mbdLastInterestPayment.toNat = lastPaid (b.changes ++ [c]))
    (hinterest : c.credited = if c.paid then
      (∑ t ∈ Ico (lastPaid b.changes) c.time, b.held t) / 31536000 * c.rate / 10000 else 0)
    (hdue : c.paid = true → lastPaid b.changes + 2592000 < s.dgpo.time.toNat ∧
      f.mbdSecondsLastUpdate ≠ s.dgpo.time)
    (hminted : c.minted = c.credited) :
    Passbook.Current { b with changes := b.changes ++ [c] } s' f' := by
  have hold : ∀ d ∈ b.changes, d.time ≤ s.dgpo.time.toNat := fun d hd => (h.past d hd).trans h.update_le
  refine ⟨⟨?_, forall_split_concat h.interest hinterest, ?_, ?_, ?_⟩, hpaidAt, ?_, ?_, ?_, ?_, ?_, h.bounds⟩
  · rw [hupdate]
    exact hseconds
  · rw [payments_append]
    split
    · rename_i hpaid
      refine List.pairwise_append.mpr ⟨h.apart, List.pairwise_singleton _ _, fun d hd e he => ?_⟩
      rw [List.mem_singleton.mp he, hc]
      have hlast := h.paid_last d hd
      have hlater := (hdue hpaid).1
      omega
    · exact h.apart
  · refine List.pairwise_append.mpr ⟨h.once, List.pairwise_singleton _ _, fun d hd e he heq => ?_⟩
    rw [List.mem_singleton.mp he] at heq ⊢
    -- a payment comes after the last update
    by_contra hpaid
    have hne := (hdue (Bool.eq_true_of_not_eq_false hpaid)).2
    have hle := h.past d hd
    rw [heq, hc] at hle
    exact hne (UInt32.toNat_inj.mp (le_antisymm h.update_le hle))
  · intro d hd
    rcases List.mem_append.mp hd with hd | hd
    · exact h.minted d hd
    · rw [List.mem_singleton.mp hd]
      exact hminted
  · rw [hupdate, ← hc]
    exact lastPaid_le_of_append (hc ▸ h.paid_le.trans h.update_le)
  · intro d hd
    rw [payments_append] at hd
    rw [lastPaid_append]
    split at hd
    · rename_i hpaid
      rw [if_pos hpaid, hc]
      rcases List.mem_append.mp hd with hd | hd
      · exact hold d (List.mem_of_mem_filter hd)
      · rw [List.mem_singleton.mp hd, hc]
    · rename_i hpaid
      rw [if_neg hpaid]
      exact h.paid_last d hd
  · intro d hd
    rw [hupdate]
    rcases List.mem_append.mp hd with hd | hd
    · exact hold d hd
    · rw [List.mem_singleton.mp hd, hc]
  · rw [hupdate, htime]
  · intro t hge hlt
    rw [hupdate] at hge
    rw [htime] at hlt
    exact absurd hlt (not_lt.mpr hge)

/-- A change without a payment is put into the passbook, and the seconds go on. -/
theorem Passbook.Current.unpaid (h : b.Current s f) (htime : s'.dgpo.time = s.dgpo.time)
    (hupdate : f'.mbdSecondsLastUpdate = s.dgpo.time)
    (hseconds : (f'.mbdSeconds.toNat : ℤ) =
      ∑ t ∈ Ico (lastPaid b.changes) s.dgpo.time.toNat, b.held t)
    (hpaid : f'.mbdLastInterestPayment = f.mbdLastInterestPayment)
    (hbalance : f'.mbdBalance.toInt = f.mbdBalance.toInt + delta.toInt)
    (hsupply : s'.dgpo.currentMbdSupply.toInt = s.dgpo.currentMbdSupply.toInt) :
    Passbook.Current { b with changes := b.changes ++ [changeOf delta s s' f f'] } s' f' := by
  have hnot : (changeOf delta s s' f f').paid = false := decide_eq_false (not_not.mpr hpaid)
  have hlast : lastPaid (b.changes ++ [changeOf delta s s' f f']) = lastPaid b.changes := by
    rw [lastPaid_append, hnot]
    rfl
  have hcredited : (changeOf delta s s' f f').credited = 0 := by
    show f'.mbdBalance.toInt - f.mbdBalance.toInt - delta.toInt = 0
    omega
  have hminted : (changeOf delta s s' f f').minted = 0 := by
    show s'.dgpo.currentMbdSupply.toInt - s.dgpo.currentMbdSupply.toInt = 0
    omega
  refine h.enter htime rfl hupdate (by rw [hlast]; exact hseconds) (by rw [hlast, hpaid]; exact h.paidAt)
    ?_ (fun hpaid => absurd (hnot.symm.trans hpaid) (by decide)) (hminted.trans hcredited.symm)
  rw [hnot, hcredited]
  rfl

/-- A change with a payment is put into the passbook, and the seconds start anew. -/
theorem Passbook.Current.paid {i : ShareType} (h : b.Current s f) (htime : s'.dgpo.time = s.dgpo.time)
    (hne : f.mbdSecondsLastUpdate ≠ s.dgpo.time) (hupdate : f'.mbdSecondsLastUpdate = s.dgpo.time)
    (hseconds : f'.mbdSeconds = 0) (hpaid : f'.mbdLastInterestPayment = s.dgpo.time)
    (hdue : 2592000 < secondsBetween s.dgpo.time f.mbdLastInterestPayment)
    (hi : i.toInt = (∑ t ∈ Ico (lastPaid b.changes) s.dgpo.time.toNat, b.held t) / 31536000 *
      s.dgpo.mbdInterestRate.toNat / 10000)
    (hbalance : f'.mbdBalance.toInt = f.mbdBalance.toInt + i.toInt + delta.toInt)
    (hsupply : s'.dgpo.currentMbdSupply.toInt = s.dgpo.currentMbdSupply.toInt + i.toInt) :
    Passbook.Current { b with changes := b.changes ++ [changeOf delta s s' f f'] } s' f' := by
  have hlater : lastPaid b.changes + 2592000 < s.dgpo.time.toNat := by
    rw [secondsBetween] at hdue
    have hat := h.paidAt
    omega
  have hnew : (changeOf delta s s' f f').paid = true := by
    refine decide_eq_true fun heq => ?_
    have hat := h.paidAt
    rw [← heq, hpaid] at hat
    omega
  have hlast : lastPaid (b.changes ++ [changeOf delta s s' f f']) = s.dgpo.time.toNat := by
    rw [lastPaid_append, hnew]
    rfl
  have hcredited : (changeOf delta s s' f f').credited = i.toInt := by
    show f'.mbdBalance.toInt - f.mbdBalance.toInt - delta.toInt = i.toInt
    omega
  have hminted : (changeOf delta s s' f f').minted = i.toInt := by
    show s'.dgpo.currentMbdSupply.toInt - s.dgpo.currentMbdSupply.toInt = i.toInt
    omega
  refine h.enter htime rfl hupdate ?_ (by rw [hlast, hpaid]) ?_ (fun _ => ⟨hlater, hne⟩)
    (hminted.trans hcredited.symm)
  · rw [hlast, hseconds, Ico_self, sum_empty]
    rfl
  · rw [hnew, hcredited]
    exact hi

/-- When the balance changes, the passbook that has the change in it is current again. -/
theorem Passbook.Current.change (h : b.Current s f) (htime : s'.dgpo.time = s.dgpo.time)
    (hadj : Adjusted s s' f f' delta) :
    Passbook.Current { b with changes := b.changes ++ [changeOf delta s s' f f'] } s' f' := by
  cases hadj with
  | again hagain hupdate hseconds hpaid hbalance hsupply =>
      refine h.unpaid htime hupdate ?_ hpaid hbalance hsupply
      rw [hseconds, ← hagain]
      exact h.seconds
  | counted hne hupdate hseconds hpaid hbalance hsupply =>
      refine h.unpaid htime hupdate ?_ hpaid hbalance hsupply
      rw [hseconds]
      exact h.accrued hne
  | @paid i hne hupdate hseconds hpaid hdue hi hnonneg hbalance hsupply =>
      refine h.paid htime hne hupdate hseconds hpaid hdue ?_ hbalance hsupply
      have hsum := h.accrued hne
      have hle := sum_held_le (a := lastPaid b.changes) (b := s.dgpo.time.toNat) (by norm_num)
        fun t => (h.bounds t).2
      have hlt := s.dgpo.time.toNat_lt
      obtain ⟨x, hx, rfl⟩ := (interestOn_ok (by omega)).mp hi
      rw [ShareType.toInt_ofUInt64] at hnonneg ⊢
      have hfits : x.toNat < 2 ^ 63 := by
        by_contra hbig
        rw [if_neg hbig] at hnonneg
        have hmax := x.toNat_lt
        omega
      rw [if_pos hfits, hx, ← hsum]
      push_cast
      rfl

/-- **Interest accrues by the second**, whatever the changes are, as long as the account is not
overdrawn while time passes and the effective median is a price if it is set. -/
theorem interest_accrues (h : Passbook.Of a b s f) : b.Accrued f := by
  suffices hcurrent : b.Current s f from hcurrent.toAccrued
  induction h with
  | @opened s f hf hbalance hseconds hupdate hpaid =>
      refine ⟨⟨?_, ?_, .nil, .nil, ?_⟩, ?_, ?_, ?_, ?_, ?_, ?_, ?_⟩
      · rw [hseconds, hupdate]
        rfl
      · intro before c after heq
        exact absurd heq (by simp)
      · exact fun c hc => absurd hc List.not_mem_nil
      · rw [hpaid]
        rfl
      · exact Nat.zero_le _
      · exact fun c hc => absurd hc List.not_mem_nil
      · exact fun c hc => absurd hc List.not_mem_nil
      · rw [hupdate]
        exact Nat.zero_le _
      · intro t _ _
        rw [hbalance]
        rfl
      · exact fun t => ⟨le_rfl, by norm_num⟩
  | passed _ _ hsame htime hpos ih => exact ih.pass hsame htime hpos
  | changed hb hs hadjust hf ih =>
      obtain ⟨htime, hadj⟩ := runs_adjusted hs hb.fundsOf hf hadjust
      exact ih.change htime hadj

end Life

section Samples

/-- A new account, a median of one to one and ten percent of interest. -/
def newAlice : Database where
  accounts := ObjectIndex.empty.create (keylessAccount "alice" 1)
  dgpo := { time := 1600000000, mbdInterestRate := 1000 }
  feedHistory := { effectiveMedianHistory := parFeed }

/-- 31536000000 XUSD are held for thirty days and a second. -/
theorem interest_after_a_month : ∃ b s f, Passbook.Of 0 b s f ∧ f.mbdBalance = 31795200100 ∧
    (payments b.changes).length = 1 ∧ b.Accrued f := by
  have hrun : leadsTo (adjustBalance 0 (xusd 31536000000)) newAlice (fun t =>
      decide (t.fundsOf 0 = some ⟨0, 31536000000, 0, 1600000000, 0⟩ ∧ t.dgpo.time = 1600000000 ∧
        t.feedHistory.effectiveMedianHistory = parFeed) &&
      leadsTo (adjustBalance 0 (xusd 0)) { t with dgpo := { t.dgpo with time := 1602592001 } } fun u =>
        decide (u.fundsOf 0 = some ⟨0, 31795200100, 0, 1602592001, 1602592001⟩)) = true := by
    decide +kernel
  obtain ⟨t, ht, hrun⟩ := leadsTo_iff.mp hrun
  obtain ⟨hstate, hrun⟩ := Bool.and_eq_true_iff.mp hrun
  obtain ⟨hfunds, htime, hmedian⟩ := of_decide_eq_true hstate
  obtain ⟨u, hu, hdone⟩ := leadsTo_iff.mp hrun
  have hpar : parFeed.Positive := ⟨by decide, by decide⟩
  have hopened : Passbook.Of 0 {} newAlice {} := .opened (by decide +kernel) rfl rfl rfl rfl
  have hfirst := hopened.changed (.inr hpar) ht hfunds
  have hlater : t.dgpo.time ≤ 1602592001 := by
    rw [htime]
    decide
  have hpassed : Passbook.Of 0 _ { t with dgpo := { t.dgpo with time := 1602592001 } }
      ⟨0, 31536000000, 0, 1600000000, 0⟩ := hfirst.passed hfunds rfl hlater fun _ => by decide
  have hsecond := hpassed.changed (.inr (show Price.Positive t.feedHistory.effectiveMedianHistory by rwa [hmedian]))
    hu (of_decide_eq_true hdone)
  exact ⟨_, u, _, hsecond, rfl, rfl, interest_accrues hsecond⟩

end Samples

end BtcmChain
