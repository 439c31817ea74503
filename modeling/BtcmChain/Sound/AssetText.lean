import BtcmChain.Protocol.AssetText

set_option autoImplicit false

/-!
# What the text of an asset says

Which numbers `asset::from_string` reads off a text, stated without positions (`AmountText`), and
when the text that `asset::to_string` prints is read back as the asset it was printed for.

All three core assets are written with six places. A text may have fewer, which are filled up, or
more, which are cut off, so many texts denote one asset; `fromText_ok` says which number an
accepted text denotes as long as that fits. Printing is not quite the inverse of reading: the sum
of whole part and places is taken in unsigned 64 bits, and behind a negative amount the places come
out wrong. So an asset is read back as it was just if its amount is not negative or has no places
(`fromText_toText_iff`), and so are its variants.
-/

namespace BtcmChain

open Decimal Text

/-- The assembled amount is the exact one, reduced to 64 bits. -/
theorem toInt_assembled (i f : Int64) :
    (i * STATIC_PRECISION + f).toInt = (i.toInt * 1000000 + f.toInt).bmod (2 ^ 64) := by
  rw [Int64.toInt_add, Int64.toInt_mul]
  exact Int.bmod_add_bmod

/-- In front of the fraction a precision is printed, which is cut off again. -/
theorem printedFraction (x : Int64) :
    ((STATIC_PRECISION.toUInt64 + (x % STATIC_PRECISION).toUInt64).toNat : ℤ) =
      1000000 + x.toInt.tmod 1000000 := by
  have hlt := Int.tmod_lt_of_pos x.toInt (b := 1000000) (by decide)
  have hgt := Int.lt_tmod_of_pos x.toInt (b := 1000000) (by decide)
  have hmod : (x % STATIC_PRECISION).toInt = x.toInt.tmod 1000000 := Int64.toInt_mod _ _
  have hint : (STATIC_PRECISION + x % STATIC_PRECISION).toInt = 1000000 + x.toInt.tmod 1000000 := by
    have hone : STATIC_PRECISION.toInt = 1000000 := rfl
    rw [Int64.toInt_add, hmod, hone]
    exact Int.bmod_eq_of_le (by omega) (by omega)
  have hnonneg : 0 ≤ STATIC_PRECISION + x % STATIC_PRECISION := by
    rw [Int64.le_iff_toInt_le, hint]
    exact le_of_lt (by simpa using neg_lt_iff_pos_add'.mp hgt)
  rw [← Int64.toUInt64_add, Int64.toNat_toUInt64_of_le hnonneg, Int64.toNatClampNeg, hint]
  exact Int.toNat_of_nonneg (by omega)

theorem isCoreAsset_lt {id : AssetId} (h : isCoreAsset id = true) : id < 2 ^ 48 := by
  simp only [isCoreAsset, Bool.or_eq_true, decide_eq_true_eq] at h
  obtain (rfl | rfl) | rfl := h <;> decide

section Texts

variable [Boost]

/-- A text with an amount in front of a space: the number of the integer part, the number of the
fraction's six places, and what follows the space. -/
inductive AmountText : Text → ℤ → ℤ → Text → Prop where
  | whole {int rest : Text} {i : Int64} (hdot : '.' ∉ int) (hspace : ' ' ∉ int)
      (hint : fcToInt64 int = .ok i) : AmountText (int ++ ' ' :: rest) i.toInt 0 rest
  | split {int frac rest : Text} {i f : Int64} (hdot : '.' ∉ int) (hspace : ' ' ∉ int)
      (hspace' : ' ' ∉ frac) (hint : fcToInt64 int = .ok i)
      (hfrac : fcToInt64 (padRight 6 (frac.take 6)) = .ok f) :
      AmountText (int ++ '.' :: (frac ++ ' ' :: rest)) i.toInt f.toInt rest

theorem parseAmount_whole {int rest : Text} (hdot : '.' ∉ int) :
    parseAmount (int ++ ' ' :: rest) ((int ++ ' ' :: rest).find '.') int.length =
      (· * STATIC_PRECISION) <$> fcToInt64 int := by
  have hfilter : ((int ++ ' ' :: rest).find '.').filter (· ≤ int.length) = none := by
    by_cases hrest : '.' ∈ rest
    · obtain ⟨pre, post, rfl, hpre⟩ := List.eq_append_cons_of_mem hrest
      have hfirst : (int ++ ' ' :: (pre ++ '.' :: post)).find '.' =
          some (int ++ ' ' :: pre).length := by
        have hmid : '.' ∉ int ++ ' ' :: pre := by simp [hdot, hpre]
        simpa using find_first post hmid
      rw [hfirst]
      simp [Option.filter]
    · rw [find_eq_none (by simp [hdot, hrest])]
      rfl
  rw [parseAmount, hfilter]
  simp only [substr, List.drop_zero, List.take_left]
  cases fcToInt64 int <;> rfl

theorem parseAmount_split {int : Text} (frac rest : Text) (hdot : '.' ∉ int) :
    parseAmount (int ++ '.' :: (frac ++ ' ' :: rest))
        ((int ++ '.' :: (frac ++ ' ' :: rest)).find '.') (int.length + 1 + frac.length) =
      (do
        let i ← fcToInt64 int
        let f ← fcToInt64 (padRight 6 (frac.take 6))
        return i * STATIC_PRECISION + f) := by
  rw [parseAmount, find_first _ hdot]
  have hfilter : (some int.length).filter (· ≤ int.length + 1 + frac.length) = some int.length := by
    simp [Option.filter]
    omega
  rw [hfilter]
  have hfrac : (int ++ '.' :: (frac ++ ' ' :: rest)).substr (int.length + 1)
      (min (int.length + 1 + frac.length - int.length - 1) BTCM_ASSET_PRECISION) = frac.take 6 := by
    have hcount : min (int.length + 1 + frac.length - int.length - 1) BTCM_ASSET_PRECISION =
        min 6 frac.length := by
      simp only [BTCM_ASSET_PRECISION]
      omega
    have hdrop : (int ++ '.' :: (frac ++ ' ' :: rest)).drop (int.length + 1) =
        frac ++ ' ' :: rest := by
      rw [List.drop_append]
      simp
    rw [substr, hcount, hdrop, ← List.take_take, List.take_left]
  simp only [hfrac]
  simp only [substr, List.drop_zero, List.take_left]
  rfl

/-- What a text that is read consists of: its number before the dot, its decimals, and the id behind
the space. -/
theorem fromText_ok {source : Text} {a : Asset} (h : Asset.fromText source = .ok a) :
    ∃ i f rest, AmountText (fcTrim source) i f rest ∧
      a.amount.toInt = (i * 1000000 + f).bmod (2 ^ 64) := by
  rw [Asset.fromText] at h
  generalize hs : fcTrim source = s at h
  by_cases hspace : ' ' ∈ s
  · obtain ⟨word, rest, rfl, hword⟩ := List.eq_append_cons_of_mem hspace
    simp only [find_first rest hword] at h
    by_cases hdot : '.' ∈ word
    · obtain ⟨int, frac, rfl, hint⟩ := List.eq_append_cons_of_mem hdot
      have hlen : (int ++ '.' :: frac).length = int.length + 1 + frac.length := by
        simp
        omega
      have hparse := parseAmount_split frac rest hint
      simp only [hlen, List.append_assoc, List.cons_append, hparse, except_bind_ok, except_pure_ok]
        at h
      obtain ⟨amount, ⟨i, hi, f, hf, rfl⟩, -, -, rfl⟩ := h
      simp only [List.mem_append, List.mem_cons, not_or] at hword
      refine ⟨i.toInt, f.toInt, rest, ?_, toInt_assembled i f⟩
      rw [List.append_assoc, List.cons_append]
      exact AmountText.split hint hword.1 hword.2.2 hi hf
    · simp only [parseAmount_whole hdot, except_bind_ok, except_pure_ok, except_map_ok] at h
      obtain ⟨amount, ⟨i, hi, rfl⟩, -, -, rfl⟩ := h
      refine ⟨i.toInt, 0, rest, AmountText.whole hdot hword hi, ?_⟩
      rw [← Int64.toInt_zero, ← toInt_assembled, Int64.add_zero]
  · rw [find_eq_none hspace] at h
    cases h

/-! ## Printed, then read -/

/-- The places that are printed: all six of a fraction that is not negative. -/
theorem toText_eq (a : Asset) :
    ∃ places, AllDigits places ∧ places.length ≤ 6 ∧
      a.toText = ofInt (a.amount / STATIC_PRECISION).toInt ++
        '.' :: (places ++ ' ' :: a.assetId.toText) ∧
      (0 ≤ a.amount.toInt.tmod 1000000 →
        places.length = 6 ∧ (value places : ℤ) = a.amount.toInt.tmod 1000000) := by
  have hsum := printedFraction a.amount
  have hlt := Int.tmod_lt_of_pos a.amount.toInt (b := 1000000) (by decide)
  have hgt := Int.lt_tmod_of_pos a.amount.toInt (b := 1000000) (by decide)
  set N := (STATIC_PRECISION.toUInt64 + (a.amount % STATIC_PRECISION).toUInt64).toNat
  have hprint : ofInt N = Nat.toDigits 10 N := by
    rw [ofInt_of_nonneg (Int.natCast_nonneg _), Int.natAbs_natCast]
  have htext : ∀ places, (Nat.toDigits 10 N).drop 1 = places →
      a.toText = ofInt (a.amount / STATIC_PRECISION).toInt ++
        '.' :: (places ++ ' ' :: a.assetId.toText) := by
    intro places hplaces
    simp only [Asset.toText, ← hplaces, ← hprint, List.append_assoc, List.cons_append]
    rfl
  by_cases hr : 0 ≤ a.amount.toInt.tmod 1000000
  · obtain ⟨f, hf⟩ := Int.eq_ofNat_of_zero_le hr
    obtain ⟨c, places, heq, hdigits, hlen, hval⟩ := toDigits_pow_add (n := 6) (f := f) (by omega)
    have hN : N = 10 ^ 6 + f := by omega
    refine ⟨places, hdigits, hlen.le, htext places ?_, fun _ => ⟨hlen, by omega⟩⟩
    rw [hN, heq]
    rfl
  · obtain ⟨c, places, heq, hdigits, -, -, -⟩ := toDigits_split (n := N) (by omega)
    refine ⟨places, hdigits, ?_, htext places ?_, fun h => absurd h hr⟩
    · have hlen := (Nat.length_toDigits_le_iff (b := 10) (n := N) (k := 6) (by decide)
        (by decide)).mpr (by omega)
      rw [heq, List.length_cons] at hlen
      omega
    · rw [heq]
      rfl

section Lawful

variable [LawfulBoost]

theorem assetNumber_toText {id : AssetId} (h : id < 2 ^ 48) :
    assetNumber (AssetId.toText id) = .ok (UInt64.ofNat id) := by
  have htext : AssetId.toText id = ['2', '.'] ++ (['2', '8'] ++ '.' :: ofInt id) := by
    simp only [AssetId.toText, fcToString, LawfulBoost.castText_eq]
    rfl
  have hfirst : (AssetId.toText id).find '.' = some 1 := by
    rw [htext]
    exact find_first _ (show '.' ∉ ['2'] by decide)
  have hsecond : (AssetId.toText id).findFrom '.' 2 = some 4 := by
    rw [htext]
    exact findFrom_first ['2', '.'] _ (show '.' ∉ ['2', '8'] by decide)
  have hnat : (UInt64.ofNat id).toNat = id :=
    UInt64.toNat_ofNat_of_lt' (Nat.lt_trans h (by decide))
  have hnumber : fcToUInt64 ((AssetId.toText id).substr 5 (AssetId.toText id).length) =
      .ok (UInt64.ofNat id) := by
    have hsub : (AssetId.toText id).substr 5 (AssetId.toText id).length = ofInt id := by
      rw [htext, substr]
      exact List.take_of_length_le (by simp; omega)
    rw [hsub, ← fcToUInt64_ofInt, hnat]
  have hmax : UInt64.ofNat id ≤ GRAPHENE_DB_MAX_INSTANCE_ID := by
    rw [UInt64.le_iff_toNat_le, hnat]
    exact Nat.le_sub_one_of_lt h
  rw [assetNumber, hfirst]
  simp only [Option.elim_some, hsecond, hnumber, hmax, except_ok_bind]
  rfl

/-- A printed asset begins with a digit or a sign, and it ends with a digit. -/
theorem fcTrim_toText (a : Asset) : fcTrim a.toText = a.toText := by
  obtain ⟨places, -, -, htext, -⟩ := toText_eq a
  have hid : a.assetId.toText = ['2', '.', '2', '8', '.'] ++ ofInt a.assetId := by
    simp only [AssetId.toText, fcToString, LawfulBoost.castText_eq]
    rfl
  refine LawfulBoost.trimCopy_eq ?_ ?_
  · intro c hc
    rw [htext, List.head?_append_of_ne_nil _ (ofInt_ne_nil _)] at hc
    exact not_isSpace_of_mem_ofInt (List.mem_of_mem_head? hc)
  · intro c hc
    rw [htext, hid, ← List.cons_append, ← List.cons_append, ← List.append_assoc,
      ← List.append_assoc, List.getLast?_append_of_ne_nil _ (ofInt_ne_nil _)] at hc
    exact not_isSpace_of_mem_ofInt (List.mem_of_mem_getLast? hc)

/-- What is read from a printed asset: the fraction's places count as they stand. -/
theorem fromText_toText {a : Asset} (hid : a.assetId < 2 ^ 48) :
    ∃ places, AllDigits places ∧ places.length ≤ 6 ∧
      (0 ≤ a.amount.toInt.tmod 1000000 →
        places.length = 6 ∧ (value places : ℤ) = a.amount.toInt.tmod 1000000) ∧
      ∃ f : Int64, f.toInt = value (padRight 6 places) ∧ f.toInt < 1000000 ∧
        Asset.fromText a.toText =
          .ok ⟨a.amount / STATIC_PRECISION * STATIC_PRECISION + f, a.assetId⟩ := by
  obtain ⟨places, hdigits, hlen, htext, hplaces⟩ := toText_eq a
  have hpad := allDigits_padRight (n := 6) hdigits
  have hvalue : value (padRight 6 places) < 10 ^ 6 := by
    have hlt := value_lt hpad
    rwa [length_padRight hlen] at hlt
  have hf : (Int64.ofNat (value (padRight 6 places))).toInt = value (padRight 6 places) :=
    Int64.toInt_ofNat_of_lt (by omega)
  refine ⟨places, hdigits, hlen, hplaces, Int64.ofNat (value (padRight 6 places)), hf, by omega, ?_⟩
  have hne : padRight 6 places ≠ [] := by
    rw [← List.length_pos_iff, length_padRight hlen]
    decide
  have hdot : '.' ∉ ofInt (a.amount / STATIC_PRECISION).toInt :=
    not_mem_ofInt (by decide) (by decide)
  have hspace : ' ' ∉ ofInt (a.amount / STATIC_PRECISION).toInt ++ '.' :: places := by
    have hint : ' ' ∉ ofInt (a.amount / STATIC_PRECISION).toInt :=
      not_mem_ofInt (by decide) (by decide)
    have hfrac : ' ' ∉ places := fun h => absurd (hdigits _ h) (by decide)
    simp only [List.mem_append, List.mem_cons, hint, hfrac, or_false, false_or]
    decide
  have hspacePos : (ofInt (a.amount / STATIC_PRECISION).toInt ++ '.' :: places).length =
      (ofInt (a.amount / STATIC_PRECISION).toInt).length + 1 + places.length := by
    simp
    omega
  have hword : a.toText =
      (ofInt (a.amount / STATIC_PRECISION).toInt ++ '.' :: places) ++ ' ' :: a.assetId.toText := by
    rw [htext, List.append_assoc, List.cons_append]
  have hrest : a.toText.substr ((ofInt (a.amount / STATIC_PRECISION).toInt ++ '.' :: places).length
      + 1) a.toText.length = a.assetId.toText := by
    rw [hword, substr_behind]
  rw [Asset.fromText, fcTrim_toText, hword, find_first _ hspace, ← hword]
  simp only [hrest]
  rw [hspacePos, htext, parseAmount_split _ _ hdot, List.take_of_length_le hlen,
    fcToInt64_ofInt, fcToInt64_digits hne hpad hf, assetNumber_toText hid]
  simp only [except_ok_bind]
  have hnat : (UInt64.ofNat a.assetId).toNat = a.assetId :=
    UInt64.toNat_ofNat_of_lt' (Nat.lt_trans hid (by decide))
  rw [hnat]
  rfl

/-- Printing and reading back give the asset, unless a negative amount has a fraction. -/
theorem fromText_toText_iff {a : Asset} (hid : a.assetId < 2 ^ 48) :
    Asset.fromText a.toText = .ok a ↔ 0 ≤ a.amount.toInt ∨ (1000000 : ℤ) ∣ a.amount.toInt := by
  obtain ⟨places, -, hlen, hplaces, f, hf, hfsmall, hread⟩ := fromText_toText hid
  have hlow := a.amount.le_toInt
  have hhigh := a.amount.toInt_lt
  have hsplit := Int.tdiv_mul_add_tmod a.amount.toInt 1000000
  have hlt := Int.tmod_lt_of_pos a.amount.toInt (b := 1000000) (by decide)
  have hgt := Int.lt_tmod_of_pos a.amount.toInt (b := 1000000) (by decide)
  have hsign := tmod_nonneg_iff (x := a.amount.toInt) (p := 1000000)
  rw [value_padRight] at hf
  have hfnonneg : 0 ≤ f.toInt := by
    rw [hf]
    positivity
  have hquot : (a.amount / STATIC_PRECISION).toInt = a.amount.toInt.tdiv 1000000 := by
    have habs := Int.natAbs_tdiv_le_natAbs a.amount.toInt 1000000
    have hone : STATIC_PRECISION.toInt = 1000000 := rfl
    rw [Int64.toInt_div, hone]
    exact Int.bmod_eq_of_le (by omega) (by omega)
  -- whole part and places fit together, whatever the sign is, so nothing wraps
  have hfits : -2 ^ 63 ≤ a.amount.toInt.tdiv 1000000 * 1000000 + f.toInt ∧
      a.amount.toInt.tdiv 1000000 * 1000000 + f.toInt < 2 ^ 63 := by
    by_cases hr : 0 ≤ a.amount.toInt.tmod 1000000
    · obtain ⟨hsix, hval⟩ := hplaces hr
      rw [hsix, Nat.sub_self, pow_zero, mul_one] at hf
      omega
    · have hneg : ¬ 0 ≤ a.amount.toInt := fun h => hr (hsign.mpr (Or.inl h))
      omega
  have hamount : (a.amount / STATIC_PRECISION * STATIC_PRECISION + f).toInt =
      a.amount.toInt.tdiv 1000000 * 1000000 + f.toInt := by
    rw [toInt_assembled, hquot]
    exact Int.bmod_eq_of_le (by omega) (by omega)
  -- so the asset is read back just if the places that are read are those of the amount
  have hsame : Asset.fromText a.toText = .ok a ↔ f.toInt = a.amount.toInt.tmod 1000000 := by
    rw [hread, Except.ok.injEq]
    constructor
    · intro h
      have hx : a.amount / STATIC_PRECISION * STATIC_PRECISION + f = a.amount :=
        congrArg Asset.amount h
      rw [hx] at hamount
      omega
    · intro h
      have hx : a.amount / STATIC_PRECISION * STATIC_PRECISION + f = a.amount := by
        rw [← Int64.toInt_inj, hamount]
        omega
      rw [hx]
  rw [hsame, ← hsign]
  constructor
  · intro h
    omega
  · intro hr
    obtain ⟨hsix, hval⟩ := hplaces hr
    rw [hsix, Nat.sub_self, pow_zero, mul_one] at hf
    omega

/-- The variants of the core assets are read back under the same conditions as their texts. -/
theorem fromVariant_toVariant_iff {a : Asset} (hcore : isCoreAsset a.assetId = true) :
    Asset.fromVariant a.toVariant = .ok a ↔
      0 ≤ a.amount.toInt ∨ (1000000 : ℤ) ∣ a.amount.toInt := by
  rw [← fromText_toText_iff (isCoreAsset_lt hcore), Asset.toVariant, if_pos hcore,
    Asset.fromVariant]
  simp only [except_bind_ok, except_pure_ok, fcAssert_ok]
  constructor
  · rintro ⟨b, hb, -, -, rfl⟩
    exact hb
  · intro h
    exact ⟨a, h, (), hcore, rfl⟩

end Lawful

/-- The text of a core asset is read back exactly when its amount is not negative or has no
fraction; and the amount read from any text is the exact one when that fits 64 bits. -/
theorem asset_text_iff [LawfulBoost] :
    (∀ a : Asset, isCoreAsset a.assetId = true →
      (Asset.fromText a.toText = .ok a ↔ 0 ≤ a.amount.toInt ∨ (1000000 : ℤ) ∣ a.amount.toInt) ∧
      (Asset.fromVariant a.toVariant = .ok a ↔
        0 ≤ a.amount.toInt ∨ (1000000 : ℤ) ∣ a.amount.toInt)) ∧
    ∀ (source : Text) (b : Asset), Asset.fromText source = .ok b →
      ∃ i f rest, AmountText (fcTrim source) i f rest ∧
        (b.amount.toInt = i * 1000000 + f ↔
          -2 ^ 63 ≤ i * 1000000 + f ∧ i * 1000000 + f < 2 ^ 63) := by
  refine ⟨fun a hcore => ⟨fromText_toText_iff (isCoreAsset_lt hcore),
    fromVariant_toVariant_iff hcore⟩, fun source b hread => ?_⟩
  obtain ⟨i, f, rest, htext, hamount⟩ := fromText_ok hread
  refine ⟨i, f, rest, htext, ?_⟩
  constructor
  · intro h
    rw [← h]
    exact ⟨b.amount.le_toInt, b.amount.toInt_lt⟩
  · rintro ⟨hlow, hhigh⟩
    rw [hamount]
    exact Int.bmod_eq_of_le (by omega) (by omega)

end Texts

open Sample in
/-- A unit below zero reads back as `0.99999`, and an integer part beyond the range wraps. -/
theorem negative_fraction_lost :
    (btcm (-1)).toText = "0.99999 2.28.0".toList ∧
      Asset.fromText (btcm (-1)).toText = .ok (btcm 999990) ∧
      Asset.fromText "9223372036855.0 2.28.0".toList = .ok (btcm (-9223372036854551616)) :=
  ⟨by decide +kernel, by decide +kernel, by decide +kernel⟩

open Sample in
theorem asset_text_iff_quarter :
    isCoreAsset (xusd (-250000)).assetId = true ∧
      Asset.fromText "-0.25 2.28.2".toList = .ok (xusd 250000) ∧
      ¬ Asset.fromText (xusd (-250000)).toText = .ok (xusd (-250000)) := by
  have hread : Asset.fromText "-0.25 2.28.2".toList = .ok (xusd 250000) := by decide +kernel
  have hiff := (asset_text_iff.1 (xusd (-250000)) (by decide)).1
  exact ⟨by decide, hread, fun h => absurd (hiff.mp h) (by decide)⟩

end BtcmChain
