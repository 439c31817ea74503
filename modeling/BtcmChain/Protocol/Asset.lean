import BtcmChain.Fc.Safe

set_option autoImplicit false

/-!
# `asset` and `price`

Amounts carry the asset they count, and mixing assets throws. A price is a pair
of amounts; comparing prices cross-multiplies in 128 bits and converting an
amount divides there, asserts that the quotient fits 64 **unsigned** bits and
stores it into the signed `share_type` — so a quotient in `[2^63, 2^64)` comes
back negative. `mulPrice_base_ok`/`mulPrice_quote_ok` record the exact quotient.

Arithmetic on amounts is that of `fc::safe`, which throws on overflow, and amounts of different
assets are never mixed. The operators of prices are written as in the source, by two products of
128 bits, in which a negative amount counts as a very large one.
-/

namespace BtcmChain

/-- The instance number of an `asset_id_type`, which stands for the asset. -/
abbrev AssetId := Nat

/-- `BTCM_SYMBOL`: the core asset, which all other assets are traded against. -/
def BTCM_SYMBOL : AssetId := 0
/-- `VESTS_SYMBOL`: the asset of vesting shares. -/
def VESTS_SYMBOL : AssetId := 1
/-- `XUSD_SYMBOL`: the asset that is worth a dollar, backed by BTCM. -/
def XUSD_SYMBOL : AssetId := 2
/-- `BTCM_MAX_SHARE_SUPPLY`: the largest supply that any asset may have. -/
def BTCM_MAX_SHARE_SUPPLY : ShareType := 30000000000000

/-- `struct asset`: an amount of some asset, with the default values of its constructor. -/
structure Asset where
  amount : ShareType := 0
  assetId : AssetId := BTCM_SYMBOL
  deriving DecidableEq, Repr, Inhabited

/-- An amount of BTCM, which is what fees and balances are kept in. -/
def btcm (x : ShareType) : Asset := ⟨x, BTCM_SYMBOL⟩
/-- An amount of vesting shares, which is what votes weigh. -/
def vests (x : ShareType) : Asset := ⟨x, VESTS_SYMBOL⟩
/-- An amount of XUSD, which is converted at the median of the price feeds. -/
def xusd (x : ShareType) : Asset := ⟨x, XUSD_SYMBOL⟩

@[simp] theorem btcm_amount (x : ShareType) : (btcm x).amount = x := rfl
@[simp] theorem btcm_assetId (x : ShareType) : (btcm x).assetId = BTCM_SYMBOL := rfl
@[simp] theorem vests_amount (x : ShareType) : (vests x).amount = x := rfl
@[simp] theorem vests_assetId (x : ShareType) : (vests x).assetId = VESTS_SYMBOL := rfl
@[simp] theorem xusd_amount (x : ShareType) : (xusd x).amount = x := rfl
@[simp] theorem xusd_assetId (x : ShareType) : (xusd x).assetId = XUSD_SYMBOL := rfl

namespace Asset

/-- `FC_ASSERT( a.asset_id == b.asset_id )`, which every operator on two assets begins with. -/
def sameAsset (a b : Asset) : Except Exn Unit :=
  if a.assetId = b.assetId then .ok () else .error (.assert "a.asset_id == b.asset_id")

/-- `operator+` of two amounts of the same asset, which throws on overflow. -/
def add (a b : Asset) : Except Exn Asset := do
  sameAsset a b
  let amount ← safeAdd a.amount b.amount
  return ⟨amount, a.assetId⟩

/-- Binary `operator-` of two amounts of the same asset; a negative difference is fine. -/
def sub (a b : Asset) : Except Exn Asset := do
  sameAsset a b
  let amount ← safeSub a.amount b.amount
  return ⟨amount, a.assetId⟩

/-- Unary `operator-` of an amount, which stays one of the same asset. -/
def neg (a : Asset) : Except Exn Asset := do
  let amount ← safeNeg a.amount
  return ⟨amount, a.assetId⟩

/-- `operator<` of two amounts, which have to be of the same asset. -/
def lt (a b : Asset) : Except Exn Bool := do
  sameAsset a b
  return decide (a.amount < b.amount)

/-- `operator<=` of two amounts: equality is decided first and never throws, and then `operator<` is
asked. -/
def le (a b : Asset) : Except Exn Bool :=
  if a = b then .ok true else lt a b

/-- `operator>` of two amounts, as the negation of `operator<=`. -/
def gt (a b : Asset) : Except Exn Bool := (!·) <$> le a b

/-- `operator>=` of two amounts, as the negation of `operator<`. -/
def ge (a b : Asset) : Except Exn Bool := (!·) <$> lt a b

theorem neg_ok {a c : Asset} :
    neg a = .ok c ↔ c.amount.toInt = -a.amount.toInt ∧ c.assetId = a.assetId := by
  obtain ⟨x, i⟩ := a
  obtain ⟨y, j⟩ := c
  simp only [neg, except_bind_ok, except_pure_ok, safeNeg_ok, Asset.mk.injEq]
  constructor
  · intro h
    obtain ⟨z, hz, hzy, hi⟩ := h
    exact ⟨hzy ▸ hz, hi.symm⟩
  · intro h
    exact ⟨y, h.1, rfl, h.2.symm⟩

theorem sameAsset_ok {a b : Asset} {u : Unit} :
    sameAsset a b = .ok u ↔ a.assetId = b.assetId := by
  simp [sameAsset]

theorem sub_ok {a b c : Asset} :
    sub a b = .ok c ↔ a.assetId = b.assetId ∧ c.assetId = a.assetId ∧
      c.amount.toInt = a.amount.toInt - b.amount.toInt := by
  obtain ⟨z, i⟩ := c
  simp only [sub, except_bind_ok, except_pure_ok, sameAsset_ok, safeSub_ok, Asset.mk.injEq]
  constructor
  · intro h
    obtain ⟨_, hsame, _, hx, hz, hi⟩ := h
    exact ⟨hsame, hi.symm, hz ▸ hx⟩
  · intro h
    obtain ⟨hsame, hi, hz⟩ := h
    exact ⟨(), hsame, z, hz, rfl, hi.symm⟩

theorem lt_ok {a b : Asset} {r : Bool} :
    lt a b = .ok r ↔ a.assetId = b.assetId ∧ r = decide (a.amount < b.amount) := by
  simp only [lt, except_bind_ok, except_pure_ok, sameAsset_ok]
  exact ⟨fun ⟨_, heq, hr⟩ => ⟨heq, hr.symm⟩, fun h => ⟨(), h.1, h.2.symm⟩⟩

theorem ge_ok {a b : Asset} {r : Bool} :
    ge a b = .ok r ↔ a.assetId = b.assetId ∧ r = decide (b.amount ≤ a.amount) := by
  have hle : (!decide (a.amount < b.amount)) = decide (b.amount ≤ a.amount) := by
    simp only [← decide_not, Int64.lt_iff_toInt_lt, Int64.le_iff_toInt_le, not_lt]
  simp only [ge, except_map_ok, lt_ok]
  grind

end Asset

/-! ## Prices -/

/-- `struct price`: so much of the base asset for so much of the quote asset. The default is the
null price. -/
structure Price where
  base : Asset := {}
  quote : Asset := {}
  deriving DecidableEq, Repr, Inhabited

namespace Price

/-- `operator/( asset, asset )`: the price of two amounts, which have to be of different assets. -/
def make (base quote : Asset) : Except Exn Price :=
  if base.assetId ≠ quote.assetId then .ok ⟨base, quote⟩
  else .error (.assert "base.asset_id != quote.asset_id")

/-- `operator~` of a price: base and quote change places. -/
def inv (p : Price) : Price := ⟨p.quote, p.base⟩

/-- The cross product of two prices, in wrapping 128-bit arithmetic. -/
def cross (a b : Price) : UInt128 :=
  UInt128.ofShare b.quote.amount * UInt128.ofShare a.base.amount

/-- `operator==` of two prices: the same two assets, and equal products across, whatever the amounts
are. -/
def eq (a b : Price) : Bool :=
  decide (a.base.assetId = b.base.assetId) && decide (a.quote.assetId = b.quote.assetId) &&
    decide (cross a b = cross b a)

/-- `operator<` of two prices: by base asset, then by quote asset, then by value. -/
def lt (a b : Price) : Bool :=
  if a.base.assetId < b.base.assetId then true
  else if b.base.assetId < a.base.assetId then false
  else if a.quote.assetId < b.quote.assetId then true
  else if b.quote.assetId < a.quote.assetId then false
  else decide (cross a b < cross b a)

/-- `operator<=` of two prices: equal or less. -/
def le (a b : Price) : Bool := eq a b || lt a b

/-- `operator!=` of two prices, as the negation of `operator==`. -/
def ne (a b : Price) : Bool := !eq a b

/-- `operator>` of two prices, as the negation of `operator<=`. -/
def gt (a b : Price) : Bool := !le a b

/-- `operator>=` of two prices, as the negation of `operator<`. -/
def ge (a b : Price) : Bool := !lt a b

/-- `price::max( base, quote )`: the whole supply of the base asset for one unit of the quote asset.
-/
def max (base quote : AssetId) : Except Exn Price := make ⟨BTCM_MAX_SHARE_SUPPLY, base⟩ ⟨1, quote⟩

/-- `price::is_null`: the price is equal to the default one, of nothing for nothing. -/
def isNull (p : Price) : Bool := eq p {}

/-- `price::validate`: both amounts are positive, and the assets are different. -/
def validate (p : Price) : Except Exn Unit :=
  if ¬ 0 < p.base.amount then .error (.assert "base.amount > share_type(0)")
  else if ¬ 0 < p.quote.amount then .error (.assert "quote.amount > share_type(0)")
  else if p.base.assetId = p.quote.assetId then .error (.assert "base.asset_id != quote.asset_id")
  else .ok ()

theorem validate_ok {p : Price} :
    p.validate = .ok () ↔
      0 < p.base.amount.toInt ∧ 0 < p.quote.amount.toInt ∧ p.base.assetId ≠ p.quote.assetId := by
  have hz : ∀ x : ShareType, 0 < x ↔ 0 < x.toInt := fun x => by
    rw [Int64.lt_iff_toInt_lt, Int64.toInt_zero]
  simp only [validate, hz]
  split
  · simp [*]
  · split
    · simp [*]
    · split <;> simp_all

end Price

/-- One branch of `asset * price`: `amount * num / den`, in 128 bits. -/
def scale (amount num den : ShareType) : Except Exn ShareType := do
  let q ← UInt128.div (UInt128.ofShare amount * UInt128.ofShare num) (UInt128.ofShare den)
  let r ← UInt128.toUInt64 q
  return ShareType.ofUInt64 r

/-- `asset operator*( asset, price )`: an amount of one side of the price, converted to the other
side and rounded down. -/
def Asset.mulPrice (a : Asset) (p : Price) : Except Exn Asset :=
  if a.assetId = p.base.assetId then
    if 0 < p.base.amount then
      (⟨·, p.quote.assetId⟩) <$> scale a.amount p.quote.amount p.base.amount
    else .error (.assert "b.base.amount.value > 0")
  else if a.assetId = p.quote.assetId then
    if 0 < p.quote.amount then
      (⟨·, p.base.assetId⟩) <$> scale a.amount p.base.amount p.quote.amount
    else .error (.assert "b.quote.amount.value > 0")
  else .error (.assert "invalid asset * price")

/-- The value of a conversion of a non-negative amount: the exact quotient, read
as a signed number. -/
theorem scale_ok {amount num den r : ShareType} (ha : 0 ≤ amount.toInt) (hn : 0 ≤ num.toInt)
    (hd : 0 < den.toInt) (h : scale amount num den = .ok r) :
    ∃ q : UInt64, (q.toNat : ℤ) = amount.toInt * num.toInt / den.toInt ∧
      r = ShareType.ofUInt64 q := by
  simp only [scale, except_bind_ok, except_pure_ok, UInt128.div_ok, UInt128.toUInt64_ok] at h
  obtain ⟨_, ⟨-, rfl⟩, q, hq, rfl⟩ := h
  refine ⟨q, ?_, rfl⟩
  have hprod : amount.toInt.toNat * num.toInt.toNat < 2 ^ 128 := by
    have h1 : amount.toInt.toNat < 2 ^ 64 := by have := amount.toInt_lt; omega
    have h2 : num.toInt.toNat < 2 ^ 64 := by have := num.toInt_lt; omega
    calc amount.toInt.toNat * num.toInt.toNat < 2 ^ 64 * 2 ^ 64 := Nat.mul_lt_mul'' h1 h2
      _ = 2 ^ 128 := by norm_num
  rw [BitVec.toNat_udiv, BitVec.toNat_mul, UInt128.toNat_ofShare ha, UInt128.toNat_ofShare hn,
    UInt128.toNat_ofShare hd.le, Nat.mod_eq_of_lt hprod] at hq
  rw [hq]
  push_cast
  rw [Int.toNat_of_nonneg ha, Int.toNat_of_nonneg hn, Int.toNat_of_nonneg hd.le]

/-- A conversion whose exact quotient fits 63 bits delivers it. -/
theorem scale_exact {amount num den : ShareType} (ha : 0 ≤ amount.toInt) (hn : 0 ≤ num.toInt)
    (hd : 0 < den.toInt) (hfit : amount.toInt * num.toInt / den.toInt < 2 ^ 63) :
    ∃ r, scale amount num den = .ok r ∧ r.toInt = amount.toInt * num.toInt / den.toInt := by
  have hprod : amount.toInt.toNat * num.toInt.toNat < 2 ^ 128 := by
    have h1 : amount.toInt.toNat < 2 ^ 64 := by have := amount.toInt_lt; omega
    have h2 : num.toInt.toNat < 2 ^ 64 := by have := num.toInt_lt; omega
    calc amount.toInt.toNat * num.toInt.toNat < 2 ^ 64 * 2 ^ 64 := Nat.mul_lt_mul'' h1 h2
      _ = 2 ^ 128 := by norm_num
  have hquot : ((UInt128.ofShare amount * UInt128.ofShare num / UInt128.ofShare den).toNat : ℤ) =
      amount.toInt * num.toInt / den.toInt := by
    rw [BitVec.toNat_udiv, BitVec.toNat_mul, UInt128.toNat_ofShare ha, UInt128.toNat_ofShare hn,
      UInt128.toNat_ofShare hd.le, Nat.mod_eq_of_lt hprod]
    push_cast
    rw [Int.toNat_of_nonneg ha, Int.toNat_of_nonneg hn, Int.toNat_of_nonneg hd.le]
  have hzero : UInt128.ofShare den ≠ 0 := by
    intro h
    have hnat : (UInt128.ofShare den).toNat = 0 := by rw [h]; rfl
    rw [UInt128.toNat_ofShare hd.le] at hnat
    omega
  have hlt : (UInt128.ofShare amount * UInt128.ofShare num / UInt128.ofShare den).toNat < 2 ^ 63 := by
    omega
  have hnat : (UInt64.ofNat
      (UInt128.ofShare amount * UInt128.ofShare num / UInt128.ofShare den).toNat).toNat =
      (UInt128.ofShare amount * UInt128.ofShare num / UInt128.ofShare den).toNat :=
    UInt64.toNat_ofNat_of_lt' (by show _ < 2 ^ 64; omega)
  refine ⟨ShareType.ofUInt64 (UInt64.ofNat
    (UInt128.ofShare amount * UInt128.ofShare num / UInt128.ofShare den).toNat), ?_, ?_⟩
  · simp only [scale, except_bind_ok, except_pure_ok]
    exact ⟨_, UInt128.div_ok.mpr ⟨hzero, rfl⟩, _, UInt128.toUInt64_ok.mpr hnat, rfl⟩
  · rw [ShareType.toInt_ofUInt64, hnat, if_pos hlt, hquot]

end BtcmChain
