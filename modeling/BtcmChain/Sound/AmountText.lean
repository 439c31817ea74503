import BtcmChain.Chain.AmountText

set_option autoImplicit false

/-!
# What the text of a user asset's amount says

The form of such a text and the number it denotes (`AmountForm`); which texts of other forms the
scanner lets through; and when a printed amount is read back.

The precision is whatever an asset may have, up to twelve places. The bound on the amount is
checked before the sign, and the scan admits one minus sign wherever it stands, so a text may be
accepted although its minus sign counts for nothing. `amount_text_iff` has both directions: which
amounts are read back from what is printed, for every amount up to the largest supply, and which
accepted texts are of the form and denote what is returned.
-/

namespace BtcmChain

open Decimal Text

/-- The sign of a text: a minus in front of a negative amount, and nothing otherwise. -/
def minus (negative : Bool) : Text := if negative then ['-'] else []

/-- Digits behind a sign, and perhaps a point with at most `p` places. -/
inductive AmountForm (p : Nat) : Text → ℤ → Prop where
  | whole {negative : Bool} {digits : Text} (hd : AllDigits digits) :
      AmountForm p (minus negative ++ digits) (signed negative (value digits * 10 ^ p))
  | point {negative : Bool} {int frac : Text} (hint : AllDigits int) (hfrac : AllDigits frac)
      (hlen : frac.length ≤ p) :
      AmountForm p (minus negative ++ (int ++ '.' :: frac))
        (signed negative (value int * 10 ^ p + value frac * 10 ^ (p - frac.length)))

theorem not_mem_of_allDigits {l : Text} {c : Char} (hd : AllDigits l) (hc : c.isDigit = false) :
    c ∉ l := by
  intro h
  rw [hd c h] at hc
  cases hc

/-- Behind the sign, a text of the form has no minus sign. -/
theorem AmountForm.body {p : Nat} {s : Text} {z : ℤ} (h : AmountForm p s z) :
    ∃ negative body, s = minus negative ++ body ∧ '-' ∉ body := by
  cases h with
  | whole hd => exact ⟨_, _, rfl, not_mem_of_allDigits hd rfl⟩
  | point hint hfrac _ =>
      refine ⟨_, _, rfl, ?_⟩
      rw [List.mem_append, List.mem_cons, not_or, not_or]
      exact ⟨not_mem_of_allDigits hint rfl, by decide, not_mem_of_allDigits hfrac rfl⟩

theorem exists_minus {s : Text} (h : '-' ∉ s.drop 1) :
    ∃ negative body, s = minus negative ++ body ∧ '-' ∉ body := by
  cases s with
  | nil => exact ⟨false, [], rfl, List.not_mem_nil⟩
  | cons c body =>
      by_cases hc : c = '-'
      · exact ⟨true, body, by rw [hc]; rfl, h⟩
      · refine ⟨false, c :: body, rfl, ?_⟩
        rw [List.mem_cons, not_or]
        exact ⟨fun e => hc e.symm, h⟩

/-! ## The scan -/

theorem scanAmount_digits {digits rest : Text} {n d : Bool} (hd : AllDigits digits) :
    scanAmount (digits ++ rest) n d = scanAmount rest n d := by
  induction digits with
  | nil => rfl
  | cons c digits ih =>
      obtain ⟨hc, hdigits⟩ := allDigits_cons.mp hd
      rw [List.cons_append, scanAmount, if_pos hc, ih hdigits]

theorem scanAmount_minus {negative d : Bool} {rest : Text} :
    scanAmount (minus negative ++ rest) false d = scanAmount rest negative d := by
  cases negative <;> rfl

theorem scanAmount_point {n : Bool} {rest : Text} :
    scanAmount ('.' :: rest) n false = scanAmount rest n true := rfl

/-- Without a minus sign, the scan lets digits through, and points until it has seen one. -/
theorem scanAmount_ok {l : Text} {n d n' d' : Bool} (hminus : '-' ∉ l)
    (h : scanAmount l n d = .ok (n', d')) :
    n' = n ∧ (AllDigits l ∧ d' = d ∨
      d = false ∧ d' = true ∧ ∃ int frac, l = int ++ '.' :: frac ∧ AllDigits int ∧
        AllDigits frac) := by
  induction l generalizing d with
  | nil =>
      cases h
      exact ⟨rfl, Or.inl ⟨allDigits_nil, rfl⟩⟩
  | cons c l ih =>
      simp only [List.mem_cons, not_or] at hminus
      rw [scanAmount] at h
      split at h
      · rename_i hc
        obtain ⟨hn, ⟨hl, hd⟩ | ⟨hd, hd', int, frac, rfl, hint, hfrac⟩⟩ := ih hminus.2 h
        · exact ⟨hn, Or.inl ⟨allDigits_cons.mpr ⟨hc, hl⟩, hd⟩⟩
        · exact ⟨hn, Or.inr ⟨hd, hd', c :: int, frac, rfl, allDigits_cons.mpr ⟨hc, hint⟩, hfrac⟩⟩
      · rw [if_neg (by simp [Ne.symm hminus.1])] at h
        split at h
        · rename_i hpoint
          obtain ⟨hn, ⟨hl, hd⟩ | ⟨hd, -⟩⟩ := ih hminus.2 h
          · exact ⟨hn, Or.inr ⟨hpoint.2, hd, [], l, by rw [hpoint.1]; rfl, allDigits_nil, hl⟩⟩
          · cases hd
        · cases h

/-! ## Texts of the form -/

section Reading

variable {o : AssetObject} {id : AssetId} {a : Asset} {negative : Bool}

/-- A number that is bounded, gets its sign, and is made an amount of the asset: just the numbers up
to the largest supply go through. -/
theorem exists_bounded_iff {n : ℕ} :
    (∃ v : ShareType, v.toInt = n ∧ ∃ w : ShareType,
      (v.toInt ≤ BTCM_MAX_SHARE_SUPPLY.toInt ∧
        w.toInt = if negative then -v.toInt else v.toInt) ∧ (⟨w, id⟩ : Asset) = a) ↔
      (n : ℤ) ≤ BTCM_MAX_SHARE_SUPPLY.toInt ∧ a.amount.toInt = signed negative n ∧
        a.assetId = id := by
  constructor
  · rintro ⟨v, hv, w, ⟨hmax, hw⟩, rfl⟩
    rw [hv] at hmax hw
    exact ⟨hmax, hw, rfl⟩
  · rintro ⟨hmax, hamount, rfl⟩
    have hbound : BTCM_MAX_SHARE_SUPPLY.toInt = 30000000000000 := rfl
    have hv : (Int64.ofInt n).toInt = n := Int64.toInt_ofInt_of_le (by omega) (by omega)
    exact ⟨Int64.ofInt n, hv, a.amount, ⟨by rw [hv]; exact hmax, by rw [hv]; exact hamount⟩, rfl⟩

theorem not_mem_minus {c : Char} (hc : c ≠ '-') : c ∉ minus negative := by
  cases negative <;> simp [minus, hc]

/-- A text without a point is read as its digits, scaled by the precision of the asset. -/
theorem amountFromString_whole {digits : Text} (hp : o.precision.toNat ≤ 18)
    (hd : AllDigits digits) :
    o.amountFromString id (minus negative ++ digits) = .ok a ↔
      ((value digits * 10 ^ o.precision.toNat : ℕ) : ℤ) ≤ BTCM_MAX_SHARE_SUPPLY.toInt ∧
        a.amount.toInt = signed negative (value digits * 10 ^ o.precision.toNat) ∧
        a.assetId = id := by
  obtain ⟨scaled, hscaled, hval⟩ := scaledPrecision_eq hp
  have hscan : scanAmount (minus negative ++ digits) false false = .ok (negative, false) := by
    rw [scanAmount_minus, ← List.append_nil digits, scanAmount_digits hd]
    rfl
  have hpoint : (minus negative ++ digits).find '.' = none := by
    apply find_eq_none
    rw [List.mem_append, not_or]
    exact ⟨not_mem_minus (by decide), fun h => absurd (hd _ h) (by decide)⟩
  have hlhs : (minus negative ++ digits).substr negative.toNat (minus negative ++ digits).length =
      digits := by
    cases negative <;> simp [minus, substr]
  have hwhole : ∀ v, wholePart digits scaled = .ok v ↔
      v.toInt = (value digits * 10 ^ o.precision.toNat : ℕ) := fun v => by
    simpa using wholePart_ok [] (v := v) hval hd (by simp) (by simp)
  rw [AssetObject.amountFromString, hscan, hscaled, ← exists_bounded_iff]
  simp only [except_ok_bind, hpoint, Option.getD_none, hlhs, except_bind_ok, hwhole,
    boundedAmount_ok, except_pure_ok, Bool.false_eq_true, if_false]

/-- What is read as the part in front of the point: behind a minus sign the point belongs to it. -/
theorem wholePart_lhs (negative : Bool) {int : Text} (frac : Text) {scaled v : ShareType} {p : Nat}
    (hscaled : scaled.toInt = 10 ^ p) (hint : AllDigits int) :
    wholePart ((minus negative ++ (int ++ '.' :: frac)).substr negative.toNat
        (minus negative ++ int).length) scaled = .ok v ↔
      (negative = true → int ≠ []) ∧ v.toInt = value int * 10 ^ p := by
  cases negative
  · have hlhs : (minus false ++ (int ++ '.' :: frac)).substr false.toNat
        (minus false ++ int).length = int ++ [] := by
      simp [minus, substr]
    rw [hlhs, wholePart_ok [] hscaled hint (by simp) (by simp)]
    simp
  · have hlhs : (minus true ++ (int ++ '.' :: frac)).substr true.toNat
        (minus true ++ int).length = int ++ ['.'] := by
      simp [minus, substr, List.take_append]
    rw [hlhs]
    by_cases hnil : int = []
    · rw [hnil]
      simp only [ne_eq, not_true_eq_false, imp_false, false_and, iff_false]
      intro h
      cases h
    · have hpoint : ∀ c, ['.'].head? = some c → c.isDigit = false := by
        intro c hc
        cases hc
        rfl
      rw [wholePart_ok ['.'] hscaled hint hpoint (fun h => absurd h hnil)]
      simp [hnil]

/-- With a point, the places behind it are added; a minus sign needs a digit in front of it. -/
theorem amountFromString_point {int frac : Text} (hp : o.precision.toNat ≤ 18)
    (hint : AllDigits int) (hfrac : AllDigits frac) :
    o.amountFromString id (minus negative ++ (int ++ '.' :: frac)) = .ok a ↔
      frac.length ≤ o.precision.toNat ∧ (negative = true → int ≠ []) ∧
        ((value int * 10 ^ o.precision.toNat + value (padRight o.precision.toNat frac) : ℕ) : ℤ) ≤
          BTCM_MAX_SHARE_SUPPLY.toInt ∧
        a.amount.toInt = signed negative
          (value int * 10 ^ o.precision.toNat + value (padRight o.precision.toNat frac)) ∧
        a.assetId = id := by
  obtain ⟨scaled, hscaled, hval⟩ := scaledPrecision_eq hp
  have hscan : scanAmount (minus negative ++ (int ++ '.' :: frac)) false false =
      .ok (negative, true) := by
    rw [scanAmount_minus, scanAmount_digits hint, scanAmount_point, ← List.append_nil frac,
      scanAmount_digits hfrac]
    rfl
  have hpoint : (minus negative ++ (int ++ '.' :: frac)).find '.' =
      some (minus negative ++ int).length := by
    rw [← List.append_assoc]
    apply find_first
    rw [List.mem_append, not_or]
    exact ⟨not_mem_minus (by decide), fun h => absurd (hint _ h) (by decide)⟩
  have hrhs : (minus negative ++ (int ++ '.' :: frac)).drop ((minus negative ++ int).length + 1) =
      frac := by
    rw [← List.append_assoc, ← List.drop_drop, List.drop_left, List.drop_one, List.tail_cons]
  have hwhole := fun v => wholePart_lhs negative frac (v := v) hval hint
  rw [AssetObject.amountFromString, hscan, hscaled]
  simp only [except_ok_bind, hpoint, Option.getD_some, Option.elim_some, hrhs, except_bind_ok,
    boundedAmount_ok, except_pure_ok, if_true, addFraction_ok hp hval hfrac, hwhole]
  rw [← exists_bounded_iff]
  constructor
  · rintro ⟨u, ⟨hne, hu⟩, v, ⟨hlen, hv⟩, hrest⟩
    exact ⟨hlen, hne, v, by rw [hv, hu]; push_cast; rfl, hrest⟩
  · rintro ⟨hlen, hne, v, hv, hrest⟩
    have hlt := v.toInt_lt
    push_cast at hv
    have hu : (Int64.ofInt (value int * 10 ^ o.precision.toNat)).toInt =
        value int * 10 ^ o.precision.toNat := by
      have hpos : (0 : ℤ) ≤ value int * 10 ^ o.precision.toNat := by positivity
      exact Int64.toInt_ofInt_of_le (by omega) (by omega)
    exact ⟨_, ⟨hne, hu⟩, v, ⟨hlen, by rw [hv, hu]⟩, hrest⟩

/-- A text that is accepted has the form and denotes what is returned, unless a minus sign stands
behind its first character. -/
theorem amountForm_iff {s : Text} (hp : o.precision.toNat ≤ 18)
    (h : o.amountFromString id s = .ok a) :
    AmountForm o.precision.toNat s a.amount.toInt ↔ '-' ∉ s.drop 1 := by
  constructor
  · intro hform
    obtain ⟨neg, body, rfl, hbody⟩ := hform.body
    cases neg
    · exact fun hmem => hbody (List.mem_of_mem_drop hmem)
    · exact hbody
  · intro hminus
    obtain ⟨neg, body, rfl, hbody⟩ := exists_minus hminus
    obtain ⟨⟨n', d'⟩, hscan, -⟩ := except_bind_ok.mp h
    rw [scanAmount_minus] at hscan
    obtain ⟨-, ⟨hd, -⟩ | ⟨-, -, int, frac, rfl, hint, hfrac⟩⟩ := scanAmount_ok hbody hscan
    · obtain ⟨-, hamount, -⟩ := (amountFromString_whole hp hd).mp h
      rw [hamount]
      exact AmountForm.whole hd
    · obtain ⟨hlen, -, -, hamount, -⟩ := (amountFromString_point hp hint hfrac).mp h
      rw [hamount, value_padRight]
      exact AmountForm.point hint hfrac hlen

end Reading

/-! ## Printed, then read -/

/-- The numeral of a whole number is its digits behind its sign. -/
theorem ofInt_eq_minus (z : ℤ) : ofInt z = minus (decide (z < 0)) ++ Nat.toDigits 10 z.natAbs := by
  by_cases hz : z < 0
  · rw [ofInt_of_neg hz, decide_eq_true hz]
    rfl
  · rw [ofInt_of_nonneg (not_lt.mp hz), decide_eq_false hz]
    rfl

section Reread

variable {o : AssetObject} {id : AssetId} {x : ShareType} {q r : ℤ}

theorem reread_whole (hp : o.precision.toNat ≤ 18)
    (hx : |x.toInt| ≤ BTCM_MAX_SHARE_SUPPLY.toInt) (hq : q * 10 ^ o.precision.toNat = x.toInt) :
    o.amountFromString id (ofInt q) = .ok ⟨x, id⟩ := by
  have habs : q.natAbs * 10 ^ o.precision.toNat = x.toInt.natAbs := by
    rw [← hq, Int.natAbs_mul, Int.natAbs_pow]
    rfl
  rw [ofInt_eq_minus, amountFromString_whole hp (allDigits_toDigits _), value_toDigits, habs,
    ← Int.abs_eq_natAbs]
  refine ⟨hx, ?_, rfl⟩
  have hpos := ten_pow_pos (p := o.precision.toNat)
  by_cases hneg : q < 0
  · have hxneg : x.toInt < 0 := by nlinarith
    rw [decide_eq_true hneg, signed, if_pos rfl]
    show x.toInt = _
    omega
  · have hxpos : 0 ≤ x.toInt := by nlinarith
    rw [decide_eq_false hneg, signed, if_neg Bool.false_ne_true]
    show x.toInt = _
    omega

/-- Of a positive remainder all places are printed, and with them the text is read back. -/
theorem reread_places (hp : o.precision.toNat ≤ 18)
    (hx : |x.toInt| ≤ BTCM_MAX_SHARE_SUPPLY.toInt) (hq : 0 ≤ q) (hr : 0 ≤ r)
    (hlt : r < 10 ^ o.precision.toNat) (hsum : q * 10 ^ o.precision.toNat + r = x.toInt) :
    o.amountFromString id (ofInt q ++ '.' :: (ofInt (10 ^ o.precision.toNat + r)).drop 1) =
      .ok ⟨x, id⟩ := by
  obtain ⟨f, rfl⟩ := Int.eq_ofNat_of_zero_le hr
  obtain ⟨m, rfl⟩ := Int.eq_ofNat_of_zero_le hq
  have hf : f < 10 ^ o.precision.toNat := by exact_mod_cast hlt
  obtain ⟨c, places, heq, hdigits, hlen, hval⟩ := toDigits_pow_add hf
  have hplaces : (ofInt (10 ^ o.precision.toNat + (f : ℤ))).drop 1 = places := by
    have hcast : ((10 : ℤ) ^ o.precision.toNat + f) = ((10 ^ o.precision.toNat + f : ℕ) : ℤ) := by
      push_cast
      rfl
    rw [hcast, ofInt_of_nonneg (Int.natCast_nonneg _), Int.natAbs_natCast, heq]
    rfl
  have hint : ofInt (m : ℤ) = minus false ++ Nat.toDigits 10 m := by
    rw [ofInt_of_nonneg (Int.natCast_nonneg _), Int.natAbs_natCast]
    rfl
  have hpad : value (padRight o.precision.toNat places) = f := by
    rw [value_padRight, hlen, Nat.sub_self, pow_zero, mul_one, hval]
  have hsum' : ((m * 10 ^ o.precision.toNat + f : ℕ) : ℤ) = x.toInt := by
    rw [← hsum]
    push_cast
    rfl
  rw [hplaces, hint, List.append_assoc,
    amountFromString_point hp (allDigits_toDigits _) hdigits, hpad, value_toDigits, hsum']
  refine ⟨hlen.le, fun h => absurd h Bool.false_ne_true, le_trans (le_abs_self _) hx, ?_, rfl⟩
  rw [signed, if_neg Bool.false_ne_true, hsum']

/-- Of a negative one the places of its complement, without the zeros in front. -/
theorem reread_complement (hp : o.precision.toNat ≤ 18) (hq : q ≤ 0) (hr : r < 0)
    (hgt : -10 ^ o.precision.toNat < r) (hsum : q * 10 ^ o.precision.toNat + r = x.toInt) :
    o.amountFromString id (ofInt q ++ '.' :: (ofInt (10 ^ o.precision.toNat + r)).drop 1) ≠
      .ok ⟨x, id⟩ := by
  obtain ⟨n, hn⟩ := Int.eq_ofNat_of_zero_le (show 0 ≤ 10 ^ o.precision.toNat + r by omega)
  obtain ⟨c, places, heq, hdigits, hc, hc9, hN⟩ := toDigits_split (n := n) (by omega)
  have hlow : n < 10 ^ o.precision.toNat := by
    have hcast : (n : ℤ) < 10 ^ o.precision.toNat := by omega
    exact_mod_cast hcast
  have hlen : places.length < o.precision.toNat := by
    have hpos : 0 < o.precision.toNat := by
      by_contra hzero
      rw [Nat.eq_zero_of_not_pos hzero, pow_zero] at hgt
      omega
    have hle := (Nat.length_toDigits_le_iff (b := 10) (n := n) (by decide) hpos).mpr hlow
    rw [heq, List.length_cons] at hle
    exact hle
  have hplaces : (ofInt (10 ^ o.precision.toNat + r)).drop 1 = places := by
    rw [hn, ofInt_of_nonneg (Int.natCast_nonneg _), Int.natAbs_natCast, heq]
    rfl
  rw [hplaces, ofInt_eq_minus, List.append_assoc, ne_eq,
    amountFromString_point hp (allDigits_toDigits _) hdigits, value_padRight, value_toDigits]
  rintro ⟨-, -, -, hamount, -⟩
  replace hamount : x.toInt = _ := hamount
  by_cases hneg : q < 0
  · have hmoved := moved_places_ne (t := value places) hlen hc hc9
    rw [← hN] at hmoved
    obtain ⟨m, hm⟩ := Int.exists_eq_neg_ofNat (le_of_lt hneg)
    rw [decide_eq_true hneg, signed, if_pos rfl, ← hsum, hm, Int.natAbs_neg,
      Int.natAbs_natCast] at hamount
    push_cast at hamount
    apply hmoved
    have hcast : (value places : ℤ) * 10 ^ (o.precision.toNat - places.length) + n =
        10 ^ o.precision.toNat := by
      rw [neg_mul] at hamount
      omega
    exact_mod_cast hcast
  · rw [decide_eq_false hneg, signed, if_neg Bool.false_ne_true] at hamount
    have hzero : q = 0 := le_antisymm hq (not_lt.mp hneg)
    rw [hzero] at hsum
    omega

end Reread

section Printing

variable [Boost] [LawfulBoost] {o : AssetObject} {id : AssetId} {x : ShareType}

/-- What is printed: the quotient, and behind a point the places of a remainder. -/
theorem amountToString_eq (hp : o.precision.toNat ≤ 12)
    (hx : |x.toInt| ≤ BTCM_MAX_SHARE_SUPPLY.toInt) :
    o.amountToString x = .ok
      (if x.toInt.tmod (10 ^ o.precision.toNat) = 0 then
        ofInt (x.toInt.tdiv (10 ^ o.precision.toNat))
      else
        ofInt (x.toInt.tdiv (10 ^ o.precision.toNat)) ++
          '.' :: (ofInt (10 ^ o.precision.toNat + x.toInt.tmod (10 ^ o.precision.toNat))).drop 1) := by
  obtain ⟨scaled, hscaled, hval⟩ := tenTo_eq (show o.precision.toNat ≤ 18 by omega)
  have hbound : BTCM_MAX_SHARE_SUPPLY.toInt = 30000000000000 := rfl
  rw [hbound, Int.abs_eq_natAbs] at hx
  have hten : scaled.toInt ≤ 10 ^ 12 := by
    rw [hval]
    exact_mod_cast Nat.pow_le_pow_right (by decide) hp
  have hpos : 0 < scaled.toInt := by
    rw [hval]
    positivity
  have hquot : (x / scaled).toInt = x.toInt.tdiv scaled.toInt := by
    have habs := Int.natAbs_tdiv_le_natAbs x.toInt scaled.toInt
    rw [Int64.toInt_div]
    exact Int.bmod_eq_of_le (by omega) (by omega)
  have hrem : (x % scaled).toInt = x.toInt.tmod scaled.toInt := Int64.toInt_mod _ _
  have hsum : (scaled + x % scaled).toInt = scaled.toInt + x.toInt.tmod scaled.toInt := by
    have hlt := Int.tmod_lt_of_pos x.toInt hpos
    have hgt := Int.lt_tmod_of_pos x.toInt hpos
    rw [Int64.toInt_add, hrem]
    exact Int.bmod_eq_of_le (by omega) (by omega)
  have hzero : x % scaled = 0 ↔ x.toInt.tmod scaled.toInt = 0 := by
    rw [← Int64.toInt_inj, hrem]
    rfl
  rw [AssetObject.amountToString, hscaled, ← hval]
  simp only [except_ok_bind, hzero, hquot, hsum, fcToString, LawfulBoost.castText_eq]
  split <;> rfl

/-- A printed amount is read back unless it is negative and has places behind the point. -/
theorem amountFromString_amountToString_iff (hp : o.precision.toNat ≤ 12)
    (hx : |x.toInt| ≤ BTCM_MAX_SHARE_SUPPLY.toInt) :
    ∃ text, o.amountToString x = .ok text ∧
      (o.amountFromString id text = .ok ⟨x, id⟩ ↔
        0 ≤ x.toInt ∨ (10 : ℤ) ^ o.precision.toNat ∣ x.toInt) := by
  refine ⟨_, amountToString_eq hp hx, ?_⟩
  have hp' : o.precision.toNat ≤ 18 := by omega
  have hsplit := Int.tdiv_mul_add_tmod x.toInt (10 ^ o.precision.toNat)
  have hlt := Int.tmod_lt_of_pos x.toInt (ten_pow_pos (p := o.precision.toNat))
  have hgt := Int.lt_tmod_of_pos x.toInt (ten_pow_pos (p := o.precision.toNat))
  rw [← tmod_nonneg_iff]
  split
  · rename_i hzero
    rw [hzero, add_zero] at hsplit
    simp only [reread_whole hp' hx hsplit, hzero, le_refl]
  · rename_i hne
    obtain hneg | hpos := lt_or_gt_of_ne hne
    · have hx0 : x.toInt ≤ 0 := by
        by_contra h
        exact absurd (Int.tmod_nonneg (10 ^ o.precision.toNat) (le_of_not_ge h)) (not_le.mpr hneg)
      have hq := Int.tdiv_nonneg (Int.neg_nonneg_of_nonpos hx0)
        (ten_pow_pos (p := o.precision.toNat)).le
      rw [Int.neg_tdiv, Int.neg_nonneg] at hq
      simp only [reread_complement hp' hq hneg hgt hsplit, not_le.mpr hneg]
    · have hx0 : 0 ≤ x.toInt := by
        by_contra h
        exact absurd (tmod_nonpos (p := 10 ^ o.precision.toNat) (le_of_not_ge h)) (not_le.mpr hpos)
      simp only [reread_places hp' hx (Int.tdiv_nonneg hx0 ten_pow_pos.le) hpos.le hlt hsplit,
        hpos.le]

end Printing

/-- A printed amount is read back exactly when it is not negative or has no places; and an accepted
text has the form and denotes the amount returned exactly when no minus sign stands behind its
first character. -/
theorem amount_text_iff [Boost] [LawfulBoost] {o : AssetObject} (id : AssetId)
    (hp : o.precision.toNat ≤ 12) :
    (∀ x : ShareType, |x.toInt| ≤ BTCM_MAX_SHARE_SUPPLY.toInt →
      ∃ text, o.amountToString x = .ok text ∧
        (o.amountFromString id text = .ok ⟨x, id⟩ ↔
          0 ≤ x.toInt ∨ (10 : ℤ) ^ o.precision.toNat ∣ x.toInt)) ∧
    ∀ (s : Text) (a : Asset), o.amountFromString id s = .ok a →
      (AmountForm o.precision.toNat s a.amount.toInt ↔ '-' ∉ s.drop 1) :=
  ⟨fun _ hx => amountFromString_amountToString_iff hp hx,
    fun _ _ hread => amountForm_iff (by omega) hread⟩

/-- An asset with two decimals, whose unit is a cent. -/
def centAsset : AssetObject where
  symbolString := "CENT"
  precision := 2

open Sample in
/-- A cent below zero is printed as `0.9`; and a minus sign between two digits is accepted. -/
theorem cent_below_zero :
    centAsset.amountToString (-1) = .ok "0.9".toList ∧
      centAsset.amountFromString 7 "0.9".toList = .ok ⟨90, 7⟩ ∧
      centAsset.amountFromString 7 "1-2".toList = .ok ⟨200, 7⟩ :=
  ⟨by decide +kernel, by decide +kernel, by decide +kernel⟩

open Sample in
theorem amount_text_iff_cents :
    centAsset.amountFromString 7 "-12.5".toList = .ok ⟨-1250, 7⟩ ∧
      AmountForm 2 "-12.5".toList (-1250) ∧
      ∃ text, centAsset.amountToString (-1250) = .ok text ∧
        centAsset.amountFromString 7 text ≠ .ok ⟨-1250, 7⟩ := by
  have hread : centAsset.amountFromString 7 "-12.5".toList = .ok ⟨-1250, 7⟩ := by decide +kernel
  obtain ⟨hround, hform⟩ := amount_text_iff (o := centAsset) 7 (by decide)
  obtain ⟨text, htext, hiff⟩ := hround (-1250) (by decide)
  exact ⟨hread, (hform _ _ hread).mpr (by decide), text, htext, fun h => absurd (hiff.mp h) (by decide)⟩

end BtcmChain
