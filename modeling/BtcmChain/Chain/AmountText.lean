import BtcmChain.Chain.Objects
import BtcmChain.Fc.Numeral

set_option autoImplicit false

/-!
# Amounts of a user asset as text

`asset_object::amount_to_string` and `amount_from_string`: the precision of the asset says where
the point stands.

The text is taken in the order of the source: the scan that admits characters (`scanAmount`), the
digits up to the point (`wholePart`), the fraction, which is filled up with zeros to the precision
(`addFraction`), and last the bound on the amount and its sign (`boundedAmount`). The lemmas behind
the definitions say what each of these steps accepts and what it computes; what the texts mean is
the matter of `Sound.AmountText`.
-/

namespace BtcmChain

open Decimal Text

/-- Ten to a number of decimals, multiplied out step by step with checked products. -/
def tenTo (decimals : UInt8) : Except Exn ShareType :=
  (List.range decimals.toNat).foldlM (fun res _ => safeMul res 10) 1

/-- `asset::scaled_precision`: ten to the decimals, of which there may be eighteen at most. -/
def scaledPrecision (decimals : UInt8) : Except Exn ShareType := do
  fcAssert (decimals < 19) "decimals<19"
  tenTo decimals

/-- The loop over the characters: digits, one minus sign and one point, wherever they stand. -/
def scanAmount : Text → Bool → Bool → Except Exn (Bool × Bool)
  | [], negativeFound, decimalFound => .ok (negativeFound, decimalFound)
  | c :: rest, negativeFound, decimalFound =>
      if c.isDigit then scanAmount rest negativeFound decimalFound
      else if c = '-' ∧ negativeFound = false then scanAmount rest true decimalFound
      else if c = '.' ∧ decimalFound = false then scanAmount rest negativeFound true
      else .error (.assert "(amount_string)")

/-- The digits in front of the point; without any, nothing. -/
def wholePart (lhs : Text) (scaledPrecision : ShareType) : Except Exn ShareType :=
  if lhs = [] then .ok 0 else do safeAdd 0 (← safeMul (← stoll lhs) scaledPrecision)

/-- What stands behind the point, filled up with zeros, is added. -/
def addFraction (satoshis : ShareType) (rhs : Text) (scaledPrecision : ShareType) :
    Except Exn ShareType := do
  let maxRhsSize := ((ofInt scaledPrecision.toInt).drop 1).length
  fcAssert (rhs.length ≤ maxRhsSize) "rhs.size() <= max_rhs_size"
  let rhs := padRight maxRhsSize rhs
  if rhs = [] then return satoshis
  safeAdd satoshis (← stoll rhs)

/-- The bound on the amount, which is checked before the number gets its sign. -/
def boundedAmount (satoshis : ShareType) (negativeFound : Bool) : Except Exn ShareType := do
  fcAssert (satoshis ≤ BTCM_MAX_SHARE_SUPPLY) "satoshis <= BTCM_MAX_SHARE_SUPPLY"
  if negativeFound then safeMul satoshis (-1) else return satoshis

namespace AssetObject

/-- `amount_from_string` of the asset with this id: the text is scanned and its parts are added up.
-/
def amountFromString (o : AssetObject) (id : AssetId) (amountString : Text) :
    Except Exn Asset := do
  let (negativeFound, decimalFound) ← scanAmount amountString false false
  let scaledPrecision ← scaledPrecision o.precision
  let decimalPos := amountString.find '.'
  let lhs := amountString.substr negativeFound.toNat (decimalPos.getD amountString.length)
  let mut satoshis ← wholePart lhs scaledPrecision
  if decimalFound then
    let rhs := amountString.drop (decimalPos.elim 0 (· + 1))
    satoshis ← addFraction satoshis rhs scaledPrecision
  satoshis ← boundedAmount satoshis negativeFound
  return ⟨satoshis, id⟩

/-- `amount_to_string`: the whole part of the amount, and its decimals behind a dot where there are
any. -/
def amountToString [Boost] (o : AssetObject) (amount : ShareType) : Except Exn Text := do
  let scaledPrecision ← tenTo o.precision
  let result := fcToString (amount / scaledPrecision).toInt
  let decimals := amount % scaledPrecision
  if decimals = 0 then return result
  return result ++ '.' :: (fcToString (scaledPrecision + decimals).toInt).drop 1

end AssetObject

/-- Ten to the precision is computed without overflow, as long as it fits. -/
theorem tenTo_eq {decimals : UInt8} (h : decimals.toNat ≤ 18) :
    ∃ x, tenTo decimals = .ok x ∧ x.toInt = 10 ^ decimals.toNat := by
  unfold tenTo
  generalize decimals.toNat = n at h
  induction n with
  | zero => exact ⟨1, rfl, rfl⟩
  | succ n ih =>
      obtain ⟨x, hx, hval⟩ := ih (by omega)
      have hpow : (10 : ℤ) ^ (n + 1) ≤ 10 ^ 18 := by
        exact_mod_cast Nat.pow_le_pow_right (by decide) h
      have hpos : (0 : ℤ) < 10 ^ (n + 1) := by positivity
      rw [List.range_succ, List.foldlM_append, hx]
      refine ⟨Int64.ofInt (10 ^ (n + 1)), ?_, Int64.toInt_ofInt_of_le (by omega) (by omega)⟩
      have hmul : safeMul x 10 = .ok (Int64.ofInt (10 ^ (n + 1))) := by
        have hten : (10 : ShareType).toInt = 10 := rfl
        rw [safeMul, hval, hten, ← pow_succ]
        exact checked_of_range (by omega) (by omega)
      simp only [except_ok_bind, List.foldlM_cons, List.foldlM_nil, hmul]
      rfl

theorem scaledPrecision_eq {decimals : UInt8} (h : decimals.toNat ≤ 18) :
    ∃ x, scaledPrecision decimals = .ok x ∧ x.toInt = 10 ^ decimals.toNat := by
  have hlt : decimals < 19 := by
    rw [UInt8.lt_iff_toNat_lt]
    exact Nat.lt_succ_of_le h
  obtain ⟨x, hx, hval⟩ := tenTo_eq h
  refine ⟨x, ?_, hval⟩
  rw [scaledPrecision, hx]
  simp only [hlt]
  rfl

/-- Its numeral has a place for every decimal behind the leading one. -/
theorem length_places {x : ShareType} {n : Nat} (hx : x.toInt = 10 ^ n) :
    ((ofInt x.toInt).drop 1).length = n := by
  obtain ⟨c, places, heq, -, hlen, -⟩ := toDigits_pow_add (n := n) (f := 0) (by positivity)
  have habs : ((10 : ℤ) ^ n).natAbs = 10 ^ n + 0 := by
    rw [Int.natAbs_pow]
    rfl
  rw [hx, ofInt_of_nonneg (by positivity), habs, heq]
  exact hlen

/-! ## The parts of a text -/

theorem ten_pow_pos {p : Nat} : (0 : ℤ) < 10 ^ p := by positivity

/-- The whole part of an amount is read from the digits at the start, whatever other text stands
behind them. -/
theorem wholePart_ok {digits : Text} (rest : Text) {scaled v : ShareType} {p : Nat}
    (hscaled : scaled.toInt = 10 ^ p) (hd : AllDigits digits)
    (hrest : ∀ c, rest.head? = some c → c.isDigit = false) (hne : digits = [] → rest = []) :
    wholePart (digits ++ rest) scaled = .ok v ↔ v.toInt = value digits * 10 ^ p := by
  rw [wholePart]
  by_cases hnil : digits = []
  · rw [hnil, hne hnil, List.append_nil, if_pos rfl, Except.ok.injEq, value_nil, Nat.cast_zero,
      zero_mul, ← Int64.toInt_zero, Int64.toInt_inj]
    exact eq_comm
  · rw [if_neg (by simp [hnil])]
    simp only [except_bind_ok, stoll_digits rest hnil hd hrest, safeMul_ok, safeAdd_ok, hscaled,
      Int64.toInt_zero, zero_add]
    constructor
    · rintro ⟨y, hy, x, hx, hv⟩
      rw [hv, hx, hy]
    · intro hv
      have hlt := v.toInt_lt
      have hle : (value digits : ℤ) ≤ value digits * 10 ^ p :=
        le_mul_of_one_le_right (Int.natCast_nonneg _) (Int.add_one_le_iff.mpr ten_pow_pos)
      have hy : (Int64.ofInt (value digits)).toInt = value digits :=
        Int64.toInt_ofInt_of_le (by omega) (by omega)
      exact ⟨_, hy, v, by rw [hv, hy], rfl⟩

/-- The places behind the point, as many as the asset has at most. -/
theorem addFraction_ok {rhs : Text} {scaled u v : ShareType} {p : Nat} (hp : p ≤ 18)
    (hscaled : scaled.toInt = 10 ^ p) (hd : AllDigits rhs) :
    addFraction u rhs scaled = .ok v ↔
      rhs.length ≤ p ∧ v.toInt = u.toInt + value (padRight p rhs) := by
  simp only [addFraction, length_places hscaled, except_bind_ok, fcAssert_ok, decide_eq_true_eq]
  by_cases hlen : rhs.length ≤ p
  · have hpad := allDigits_padRight (n := p) hd
    have hvalue : value (padRight p rhs) < 10 ^ p := by
      have hlt := value_lt hpad
      rwa [length_padRight hlen] at hlt
    have hpow : 10 ^ p ≤ 10 ^ 18 := Nat.pow_le_pow_right (by decide) hp
    by_cases hnil : padRight p rhs = []
    · simp only [hlen, hnil, if_true, except_pure_ok, value_nil, Nat.cast_zero, add_zero,
        Int64.toInt_inj, exists_const, true_and]
      exact eq_comm
    · have hread : ∀ y : Int64,
          stoll (padRight p rhs) = .ok y ↔ y.toInt = value (padRight p rhs) := fun y => by
        simpa using stoll_digits [] (x := y) hnil hpad (by simp)
      simp only [hlen, hnil, if_false, except_bind_ok, hread, safeAdd_ok, true_and, exists_const]
      constructor
      · rintro ⟨y, hy, hv⟩
        rw [hv, hy]
      · intro hv
        have hy : (Int64.ofInt (value (padRight p rhs))).toInt = value (padRight p rhs) :=
          Int64.toInt_ofInt_of_le (by omega) (by omega)
        exact ⟨_, hy, by rw [hv, hy]⟩
  · simp [hlen]

theorem boundedAmount_ok {v w : ShareType} {negative : Bool} :
    boundedAmount v negative = .ok w ↔
      v.toInt ≤ BTCM_MAX_SHARE_SUPPLY.toInt ∧
        w.toInt = if negative then -v.toInt else v.toInt := by
  simp only [boundedAmount, except_bind_ok, fcAssert_ok, decide_eq_true_eq, Int64.le_iff_toInt_le,
    exists_const]
  cases negative
  · simp only [Bool.false_eq_true, if_false, except_pure_ok, Int64.toInt_inj]
    exact and_congr_right fun _ => eq_comm
  · have hone : (-1 : ShareType).toInt = -1 := rfl
    simp only [if_true, safeMul_ok, hone, mul_neg, mul_one]

end BtcmChain
