/-
# `EvidenceGraph.Proofs.Decimal.Nearest` — decimals in the interval of a value are read as this value.

A decimal number is read by one multiplication or division of exact binary64 values if its digits and its
power of ten are small, and of exact integers otherwise. Either way its exact value is rounded once, so
everything in the interval of a magnitude is read as this magnitude: `nearestFloat_eq`. Numbers far outside
the range of binary64 are settled before any of this; those in an interval never are.
-/
import EvidenceGraph.Decimal.Numeral
import EvidenceGraph.Proofs.Decimal.Packing

namespace EvidenceGraph.Decimal

open Float.Model Float.Model.UnpackedFloat

variable {a b target : Magnitude}

/-! ## Products and quotients -/

/-- A mantissa of 53 bits or more has no binary place to spare. -/
theorem le_targetExponent {m : Nat} (h : 2 ^ 52 ≤ m) (e : Int) :
    e ≤ Format.binary64.targetExponent (totalExponent m e) := by
  have hlog : 52 ≤ m.log2 := (Nat.le_log2 (by omega)).2 h
  rw [targetExponent_binary64, totalExponent]
  omega

/-- A product in the interval of a magnitude is this magnitude, if the mantissas together have 53 bits. -/
theorem mul_eq (ha : 0 < a.mantissa) (hb : 0 < b.mantissa) (hlarge : 2 ^ 52 ≤ a.mantissa * b.mantissa)
    (hcanonical : target.Canonical) (hcovers : target.Covers (a.value * b.value)) :
    UnpackedFloat.mul Format.binary64 (.finite .positive a.mantissa a.exponent ha)
        (.finite .positive b.mantissa b.exponent hb) =
      .finite .positive target.mantissa target.exponent hcanonical.mantissa_pos := by
  have hvalue : a.value * b.value =
      ((a.mantissa * b.mantissa : Nat) : ℚ) * 2 ^ (a.exponent + b.exponent) := by
    rw [Magnitude.value, Magnitude.value, two_zpow_add]
    push_cast
    ring
  rw [hvalue] at hcovers
  exact roundWithAccuracy_eq (stands_exact _) (le_targetExponent hlarge _) hcanonical hcovers .positive

/-- A numerator that is moved up until it has 53 bits more than the denominator has a quotient of 53 bits. -/
theorem pow_le_div {n d shift : Nat} (hn : 0 < n) (hd : 0 < d) (h : 53 + d.log2 ≤ n.log2 + shift) :
    2 ^ 52 ≤ (n <<< shift) / d := by
  have hnumerator : 2 ^ n.log2 ≤ n := Nat.log2_self_le hn.ne'
  have hdenominator : d < 2 ^ (d.log2 + 1) := Nat.lt_log2_self
  rw [Nat.le_div_iff_mul_le hd, Nat.shiftLeft_eq]
  calc 2 ^ 52 * d ≤ 2 ^ 52 * 2 ^ (d.log2 + 1) := Nat.mul_le_mul_left _ hdenominator.le
    _ = 2 ^ (53 + d.log2) := by
        rw [← pow_add]
        congr 1
        omega
    _ ≤ 2 ^ (n.log2 + shift) := Nat.pow_le_pow_right (by norm_num) h
    _ = 2 ^ n.log2 * 2 ^ shift := pow_add ..
    _ ≤ n * 2 ^ shift := Nat.mul_le_mul_right _ hnumerator

/-- A quotient in the interval of a magnitude is this magnitude: it is computed to 53 bits or to the last
place there is. -/
theorem div_eq (ha : 0 < a.mantissa) (hb : 0 < b.mantissa) (hcanonical : target.Canonical)
    (hcovers : target.Covers (a.value / b.value)) :
    UnpackedFloat.div Format.binary64 (.finite .positive a.mantissa a.exponent ha)
        (.finite .positive b.mantissa b.exponent hb) =
      .finite .positive target.mantissa target.exponent hcanonical.mantissa_pos := by
  generalize hplace : min (a.exponent - b.exponent) (Format.binary64.targetExponent
    (totalExponent a.mantissa a.exponent - totalExponent b.mantissa b.exponent)) = place
  generalize hshift : (a.exponent - b.exponent - place).toNat = shift
  have hle : place ≤ a.exponent - b.exponent := hplace ▸ min_le_left _ _
  have hcore : divCore Format.binary64 a.mantissa a.exponent b.mantissa b.exponent =
      ((a.mantissa <<< shift) / b.mantissa, place,
        accuracyOfFraction ((a.mantissa <<< shift) % b.mantissa) b.mantissa) := by
    simp only [divCore, hplace, hshift]
  have hfine : place ≤ Format.binary64.targetExponent
      (totalExponent ((a.mantissa <<< shift) / b.mantissa) place) := by
    rw [targetExponent_binary64] at hplace
    by_cases hleast : place ≤ -1074
    · exact hleast.trans (le_max_right _ _)
    · refine le_targetExponent ?_ place
      simp only [totalExponent] at hplace
      exact pow_le_div ha hb (by omega)
  have hvalue : a.value / b.value =
      ((a.mantissa <<< shift : Nat) : ℚ) / b.mantissa * 2 ^ place := by
    have hscale : (2 : ℚ) ^ a.exponent = 2 ^ shift * 2 ^ place * 2 ^ b.exponent := by
      rw [← zpow_natCast, ← two_zpow_add, ← two_zpow_add]
      congr 1
      omega
    have hdenominator : (b.mantissa : ℚ) ≠ 0 := by exact_mod_cast hb.ne'
    have hpower := (two_zpow_pos b.exponent).ne'
    rw [Magnitude.value, Magnitude.value, hscale, Nat.shiftLeft_eq]
    push_cast
    field_simp
  rw [hvalue] at hcovers
  have hdiv : UnpackedFloat.div Format.binary64 (.finite .positive a.mantissa a.exponent ha)
      (.finite .positive b.mantissa b.exponent hb) =
        let core := divCore Format.binary64 a.mantissa a.exponent b.mantissa b.exponent
        roundWithAccuracy Format.binary64 .positive core.1 core.2.1 core.2.2 := rfl
  rw [hdiv, hcore]
  exact roundWithAccuracy_eq (stands_fraction _ hb) hfine hcanonical hcovers .positive

/-! ## Exact values -/

/-- The number that a magnitude is belongs to its interval. -/
theorem Magnitude.covers_value (h : 0 < target.mantissa) : target.Covers target.value := by
  have hquarter := two_zpow_pos (target.exponent - 2)
  have hlow : (target.interval.low : ℚ) < (4 * target.mantissa : Nat) := by
    exact_mod_cast Magnitude.low_lt h
  rw [Magnitude.value_eq_quarters]
  apply Magnitude.covers_of_lt
  · exact mul_lt_mul_of_pos_right hlow hquarter
  · rw [Magnitude.high_eq]
    push_cast
    linarith

/-- The magnitude of a natural number below `2 ^ 53`, with a mantissa of 53 bits. -/
def Magnitude.ofNat (n : Nat) : Magnitude := ⟨n <<< (52 - n.log2), n.log2 - 52⟩

section OfNat

variable {n : Nat} (hn : 0 < n) (hlt : n < 2 ^ 53)
include hn hlt

theorem ofNat_mantissa_log2 : (Magnitude.ofNat n).mantissa.log2 = 52 := by
  have hlog : n.log2 < 53 := (Nat.log2_lt hn.ne').2 hlt
  have hlow : 2 ^ n.log2 ≤ n := Nat.log2_self_le hn.ne'
  have hhigh : n < 2 ^ (n.log2 + 1) := Nat.lt_log2_self
  have hsum : n.log2 + (52 - n.log2) = 52 := by omega
  have hsum' : n.log2 + 1 + (52 - n.log2) = 53 := by omega
  show (n <<< (52 - n.log2)).log2 = 52
  rw [Nat.shiftLeft_eq, Nat.log2_eq_iff (Nat.mul_pos hn (Nat.pow_pos (by norm_num))).ne']
  constructor
  · calc 2 ^ 52 = 2 ^ n.log2 * 2 ^ (52 - n.log2) := by rw [← pow_add, hsum]
      _ ≤ n * 2 ^ (52 - n.log2) := Nat.mul_le_mul_right _ hlow
  · calc n * 2 ^ (52 - n.log2) < 2 ^ (n.log2 + 1) * 2 ^ (52 - n.log2) :=
          Nat.mul_lt_mul_of_pos_right hhigh (Nat.pow_pos (by norm_num))
      _ = 2 ^ (52 + 1) := by rw [← pow_add, hsum']

theorem ofNat_bounds :
    2 ^ 52 ≤ (Magnitude.ofNat n).mantissa ∧ (Magnitude.ofNat n).mantissa < 2 ^ 53 := by
  have hpos : (Magnitude.ofNat n).mantissa ≠ 0 := (Nat.shiftLeft_pos_iff.2 hn).ne'
  exact (Nat.log2_eq_iff hpos).1 (ofNat_mantissa_log2 hn hlt)

theorem ofNat_canonical : (Magnitude.ofNat n).Canonical := by
  obtain ⟨hlow, hhigh⟩ := ofNat_bounds hn hlt
  have hlog : n.log2 < 53 := (Nat.log2_lt hn.ne').2 hlt
  have hexponent : (Magnitude.ofNat n).exponent = n.log2 - 52 := rfl
  exact ⟨by omega, hhigh, by omega, by omega, fun hsub => absurd hsub (by omega)⟩

theorem ofNat_value : (Magnitude.ofNat n).value = n := by
  have hlog : n.log2 < 53 := (Nat.log2_lt hn.ne').2 hlt
  have hscale : (2 : ℚ) ^ (52 - n.log2) * 2 ^ ((n.log2 : Int) - 52) = 1 := by
    rw [← zpow_natCast, ← two_zpow_add]
    have hzero : ((52 - n.log2 : Nat) : Int) + (n.log2 - 52) = 0 := by omega
    rw [hzero, zpow_zero]
  show ((n <<< (52 - n.log2) : Nat) : ℚ) * 2 ^ ((n.log2 : Int) - 52) = n
  rw [Nat.shiftLeft_eq]
  push_cast
  rw [mul_assoc, hscale, mul_one]

/-- Small natural numbers are converted exactly. -/
theorem toFloat_eq : n.toUInt64.toFloat = pack .positive (.ofNat n) (ofNat_canonical hn hlt) := by
  have hlog : n.log2 < 53 := (Nat.log2_lt hn.ne').2 hlt
  have hnat : n.toUInt64.toNat = n := Nat.mod_eq_of_lt (by omega)
  have hplace : Format.binary64.targetExponent (totalExponent n 0) = n.log2 - 52 := by
    rw [targetExponent_binary64, totalExponent]
    omega
  have hshift : (0 - ((n.log2 : Int) - 52)).toNat = 52 - n.log2 := by omega
  have hexponent : (0 : Int) - ((52 - n.log2 : Nat) : Int) = n.log2 - 52 := by omega
  have hdecreased : decreaseExponent n 0 (Format.binary64.targetExponent (totalExponent n 0)) =
      ((Magnitude.ofNat n).mantissa, (Magnitude.ofNat n).exponent) := by
    simp only [decreaseExponent, hplace, hshift, hexponent]
    rfl
  have hround : UnpackedFloat.round Format.binary64 .positive n 0 = .finite .positive
      (Magnitude.ofNat n).mantissa (Magnitude.ofNat n).exponent (ofNat_canonical hn hlt).mantissa_pos := by
    have hunfold : UnpackedFloat.round Format.binary64 .positive n 0 =
        let decreased := decreaseExponent n 0 (Format.binary64.targetExponent (totalExponent n 0))
        roundWithAccuracy Format.binary64 .positive decreased.1 decreased.2 .exact := rfl
    rw [hunfold, hdecreased]
    exact roundWithAccuracy_eq (stands_exact _) (le_targetExponent (ofNat_bounds hn hlt).1 _)
      (ofNat_canonical hn hlt) (Magnitude.covers_value (ofNat_canonical hn hlt).mantissa_pos) .positive
  show Float.ofModel (Float.Model.pack
    (UnpackedFloat.normalize Format.binary64 (n.toUInt64.toNat : Nat) 0 .positive)) = _
  rw [hnat, UnpackedFloat.normalize, Int.compare_eq_gt.2 (by omega)]
  show Float.ofModel (Float.Model.pack (UnpackedFloat.round Format.binary64 .positive n 0)) = _
  rw [hround]
  rfl

end OfNat

/-- The magnitude of a small power of ten: the power of two in it goes to the exponent. -/
def Magnitude.ofPower (k : Nat) : Magnitude :=
  ⟨(Magnitude.ofNat (5 ^ k)).mantissa, (Magnitude.ofNat (5 ^ k)).exponent + k⟩

theorem pow_five_lt {k : Nat} (hk : k ≤ 22) : 5 ^ k < 2 ^ 53 :=
  lt_of_le_of_lt (Nat.pow_le_pow_right (by norm_num) hk) (by norm_num)

theorem ofPower_canonical {k : Nat} (hk : k ≤ 22) : (Magnitude.ofPower k).Canonical := by
  have hpos : 0 < 5 ^ k := Nat.pow_pos (by norm_num)
  have hlog : (5 ^ k).log2 < 53 := (Nat.log2_lt hpos.ne').2 (pow_five_lt hk)
  have hexponent : (Magnitude.ofPower k).exponent = (5 ^ k).log2 - 52 + k := rfl
  obtain ⟨hlow, hhigh⟩ := ofNat_bounds hpos (pow_five_lt hk)
  refine ⟨?_, hhigh, by omega, by omega, fun hsub => ?_⟩
  · exact lt_of_lt_of_le (by norm_num) hlow
  · exact absurd (lt_of_lt_of_le hsub hlow) (lt_irrefl _)

theorem ofPower_value {k : Nat} (hk : k ≤ 22) : (Magnitude.ofPower k).value = 10 ^ k := by
  have hfive := ofNat_value (n := 5 ^ k) (Nat.pow_pos (by norm_num)) (pow_five_lt hk)
  have hsplit : (Magnitude.ofPower k).value = (Magnitude.ofNat (5 ^ k)).value * 2 ^ k := by
    rw [Magnitude.value, Magnitude.value, mul_assoc, ← zpow_natCast, ← two_zpow_add]
    rfl
  rw [hsplit, hfive]
  push_cast
  rw [← mul_pow]
  norm_num

/-- The tabulated powers of ten are exact. -/
theorem powerOfTen_eq {k : Nat} (hk : k ≤ 22) (h : k < Float.exactlyRepresentablePowersOfTen.size) :
    Float.exactlyRepresentablePowersOfTen[k] = pack .positive (.ofPower k) (ofPower_canonical hk) := by
  have htable : ∀ (i : Nat) (hi : i < Float.exactlyRepresentablePowersOfTen.size),
      signBit Float.exactlyRepresentablePowersOfTen[i] = false ∧
        magnitude Float.exactlyRepresentablePowersOfTen[i] = .ofPower i := by decide +kernel
  obtain ⟨hsign, hmagnitude⟩ := htable k h
  exact (pack_positive hmagnitude hsign (ofPower_canonical hk)).symm

/-! ## Decimals -/

theorem mul_pack (ha : a.Canonical) (hb : b.Canonical) (hlarge : 2 ^ 52 ≤ a.mantissa * b.mantissa)
    (hcanonical : target.Canonical) (hcovers : target.Covers (a.value * b.value)) :
    pack .positive a ha * pack .positive b hb = pack .positive target hcanonical := by
  show Float.ofModel (Float.Model.pack (UnpackedFloat.mul _ (pack _ a ha).toModel.unpack
    (pack _ b hb).toModel.unpack)) = _
  rw [unpack_pack, unpack_pack, mul_eq ha.mantissa_pos hb.mantissa_pos hlarge hcanonical hcovers]
  rfl

theorem div_pack (ha : a.Canonical) (hb : b.Canonical) (hcanonical : target.Canonical)
    (hcovers : target.Covers (a.value / b.value)) :
    pack .positive a ha / pack .positive b hb = pack .positive target hcanonical := by
  show Float.ofModel (Float.Model.pack (UnpackedFloat.div _ (pack _ a ha).toModel.unpack
    (pack _ b hb).toModel.unpack)) = _
  rw [unpack_pack, unpack_pack, div_eq ha.mantissa_pos hb.mantissa_pos hcanonical hcovers]
  rfl

/-- Few digits and a small power of ten: one operation on exact values. -/
theorem ofScientific_small {m k : Nat} {s : Bool} (hm : 0 < m) (hsmall : m < 2 ^ 53 ∧ k ≤ 22)
    (hcanonical : target.Canonical) (hcovers : target.Covers (if s then m / 10 ^ k else m * 10 ^ k)) :
    Float.ofScientific m s k = pack .positive target hcanonical := by
  obtain ⟨hlt, hk⟩ := hsmall
  have hlarge : 2 ^ 52 ≤ (Magnitude.ofNat m).mantissa * (Magnitude.ofPower k).mantissa :=
    le_trans (ofNat_bounds hm hlt).1 (Nat.le_mul_of_pos_right _ (ofPower_canonical hk).mantissa_pos)
  unfold Float.ofScientific
  rw [dif_pos ⟨hlt, hk⟩, toFloat_eq hm hlt, powerOfTen_eq hk]
  cases s with
  | true =>
    refine div_pack _ _ hcanonical ?_
    rwa [ofNat_value hm hlt, ofPower_value hk]
  | false =>
    refine mul_pack _ _ hlarge hcanonical ?_
    rwa [ofNat_value hm hlt, ofPower_value hk]

/-- Numbers in the interval of a magnitude are in the range of binary64. -/
theorem Magnitude.Covers.range {r : ℚ} (h : target.Covers r) (hcanonical : target.Canonical) :
    2 ^ (-1075 : Int) ≤ r ∧ r < 2 ^ (1024 : Int) := by
  have hleast := hcanonical.least_le
  have hgreatest := hcanonical.le_greatest
  constructor
  · have hpos := two_zpow_pos (target.exponent - 2)
    have hmantissa : (1 : ℚ) ≤ target.mantissa := by exact_mod_cast hcanonical.mantissa_pos
    have hlow := Magnitude.low_ge hcanonical.mantissa_pos
    have hsum := two_zpow_add 1 (target.exponent - 2)
    rw [zpow_one] at hsum
    calc (2 : ℚ) ^ (-1075 : Int) ≤ 2 ^ (1 + (target.exponent - 2)) :=
          zpow_le_zpow_right₀ (by norm_num) (by omega)
      _ = 2 * 2 ^ (target.exponent - 2) := hsum
      _ ≤ target.interval.low * 2 ^ (target.exponent - 2) :=
          mul_le_mul_of_nonneg_right (by linarith) hpos.le
      _ ≤ r := h.low
  · refine (h.lt_power hcanonical.mantissa_lt).trans_le ?_
    exact zpow_le_zpow_right₀ (by norm_num) (by push_cast; omega)

theorem ten_zpow_pos (e : Int) : (0 : ℚ) < 10 ^ e := zpow_pos (by norm_num) e

theorem ten_zpow_add (e f : Int) : (10 : ℚ) ^ (e + f) = 10 ^ e * 10 ^ f := zpow_add₀ (by norm_num) e f

theorem ten_zpow_of_nonneg {p : Int} (h : 0 ≤ p) : (10 : ℚ) ^ p = 10 ^ p.toNat := by
  rw [← zpow_natCast, Int.toNat_of_nonneg h]

theorem ten_zpow_of_neg {p : Int} (h : p < 0) : (10 : ℚ) ^ p = (10 ^ (-p).toNat)⁻¹ := by
  rw [← ten_zpow_of_nonneg (by omega), ← zpow_neg, neg_neg]

/-- The number of digits of a natural number. -/
theorem pow_length_toDigits {n : Nat} (hn : 0 < n) :
    10 ^ ((Nat.toDigits 10 n).length - 1) ≤ n ∧ n < 10 ^ (Nat.toDigits 10 n).length := by
  have hlength : 0 < (Nat.toDigits 10 n).length := Nat.length_toDigits_pos
  refine ⟨?_, (Nat.length_toDigits_le_iff (by norm_num) hlength).1 le_rfl⟩
  by_cases hone : (Nat.toDigits 10 n).length = 1
  · rw [hone]
    exact hn
  · by_contra hless
    have hle := (Nat.length_toDigits_le_iff (b := 10) (by norm_num) (by omega)).2 (not_le.1 hless)
    omega

/-- The leading digit of a decimal number stands where its digits and its exponent say. -/
theorem ten_zpow_bounds {m : Nat} (hm : 0 < m) (p : Int) :
    (10 : ℚ) ^ (p + (Nat.toDigits 10 m).length - 1) ≤ m * 10 ^ p ∧
      m * 10 ^ p < (10 : ℚ) ^ (p + (Nat.toDigits 10 m).length) := by
  obtain ⟨hlow, hhigh⟩ := pow_length_toDigits hm
  have hlength : 0 < (Nat.toDigits 10 m).length := Nat.length_toDigits_pos
  have hpos := ten_zpow_pos p
  have hlow : (10 : ℚ) ^ ((Nat.toDigits 10 m).length - 1) ≤ m := by exact_mod_cast hlow
  have hhigh : (m : ℚ) < 10 ^ (Nat.toDigits 10 m).length := by exact_mod_cast hhigh
  have hexponent : p + (Nat.toDigits 10 m).length - 1 = ((Nat.toDigits 10 m).length - 1 : Nat) + p := by
    omega
  rw [hexponent, add_comm p, ten_zpow_add, ten_zpow_add, zpow_natCast, zpow_natCast]
  exact ⟨mul_le_mul_of_nonneg_right hlow hpos.le, mul_lt_mul_of_pos_right hhigh hpos⟩

/-- All of binary64 lies between these powers of ten. -/
theorem two_pow_lt_ten_pow : (2 : ℚ) ^ 1075 < 10 ^ 400 := by
  have hnat : (2 ^ 1075 : Nat) < 10 ^ 400 := by decide +kernel
  exact_mod_cast hnat

section Decimals

variable {m : Nat} {p : Int} (hm : 0 < m) (hcanonical : target.Canonical)
  (hcovers : target.Covers (m * 10 ^ p))
include hm hcanonical hcovers

/-- The leading digit of a decimal in the interval of a magnitude is in the range of binary64. -/
theorem leading_bounds :
    -400 ≤ p + (Nat.toDigits 10 m).length ∧ p + (Nat.toDigits 10 m).length ≤ 400 := by
  obtain ⟨hleast, hgreatest⟩ := hcovers.range hcanonical
  obtain ⟨hlow, hhigh⟩ := ten_zpow_bounds hm p
  constructor
  · by_contra hless
    have hpower : (10 : ℚ) ^ (p + (Nat.toDigits 10 m).length) ≤ 10 ^ (-400 : Int) :=
      zpow_le_zpow_right₀ (by norm_num) (by omega)
    have hsmall : (10 : ℚ) ^ (-400 : Int) < 2 ^ (-1075 : Int) := by
      rw [zpow_neg, zpow_neg]
      exact (inv_lt_inv₀ (ten_zpow_pos 400) (two_zpow_pos 1075)).2 two_pow_lt_ten_pow
    exact absurd ((hhigh.trans_le hpower).trans hsmall) (not_lt.2 hleast)
  · by_contra hmore
    have hpower : (10 : ℚ) ^ (400 : Int) ≤ 10 ^ (p + (Nat.toDigits 10 m).length - 1) :=
      zpow_le_zpow_right₀ (by norm_num) (by omega)
    have hlarge : (2 : ℚ) ^ (1024 : Int) ≤ 2 ^ (1075 : Int) :=
      zpow_le_zpow_right₀ (by norm_num) (by norm_num)
    have hten : (2 : ℚ) ^ (1075 : Int) < 10 ^ (400 : Int) := two_pow_lt_ten_pow
    exact absurd ((hgreatest.trans_le hlarge).trans hten) (not_lt.2 (hpower.trans hlow))

/-- Any digits and any power of ten: one operation on exact integers. -/
theorem ofScientific_large :
    UnpackedFloat.ofScientific Format.binary64 m p =
      .finite .positive target.mantissa target.exponent hcanonical.mantissa_pos := by
  obtain ⟨hleast, hgreatest⟩ := leading_bounds hm hcanonical hcovers
  have hlength : 0 < (Nat.toDigits 10 m).length := Nat.length_toDigits_pos
  have hlog : (Nat.toDigits 10 m).length - 1 ≤ m.log2 := by
    rw [Nat.le_log2 hm.ne']
    exact (Nat.pow_le_pow_left (by norm_num) _).trans (pow_length_toDigits hm).1
  have hbits : (2 : Int) ^ Format.binary64.exponentBits = 2048 := rfl
  unfold UnpackedFloat.ofScientific
  rw [dif_neg hm.ne', if_neg (by rw [hbits]; omega), if_neg (by rw [hbits]; omega)]
  by_cases hnonneg : 0 ≤ p
  · rw [if_pos hnonneg]
    have hten : 0 < 10 ^ p.toNat := Nat.pow_pos (by norm_num)
    have hmoved : 0 < m <<< 53 := Nat.shiftLeft_pos_iff.2 hm
    have hlarge : 2 ^ 52 ≤ m <<< 53 * 10 ^ p.toNat := by
      rw [Nat.shiftLeft_eq]
      nlinarith [Nat.mul_le_mul hm hten]
    refine mul_eq (a := ⟨m <<< 53, -53⟩) (b := ⟨10 ^ p.toNat, 0⟩) hmoved hten hlarge hcanonical ?_
    have hvalue : (Magnitude.mk (m <<< 53) (-53)).value * (Magnitude.mk (10 ^ p.toNat) 0).value =
        m * 10 ^ p := by
      have hunit : (2 : ℚ) ^ (53 : Nat) * 2 ^ (-53 : Int) = 1 := by norm_num
      rw [Magnitude.value, Magnitude.value, ten_zpow_of_nonneg hnonneg]
      simp only [Nat.shiftLeft_eq, zpow_zero, mul_one, Nat.cast_mul, Nat.cast_pow, Nat.cast_ofNat]
      rw [mul_assoc (m : ℚ), hunit, mul_one]
    rwa [hvalue]
  · rw [if_neg hnonneg]
    have hten : 0 < 10 ^ (-p).toNat := Nat.pow_pos (by norm_num)
    refine div_eq (a := ⟨m, 0⟩) (b := ⟨10 ^ (-p).toNat, 0⟩) hm hten hcanonical ?_
    have hvalue : (Magnitude.mk m 0).value / (Magnitude.mk (10 ^ (-p).toNat) 0).value = m * 10 ^ p := by
      rw [Magnitude.value, Magnitude.value, ten_zpow_of_neg (not_le.1 hnonneg)]
      simp only [zpow_zero, mul_one]
      push_cast
      rw [div_eq_mul_inv]
    rwa [hvalue]

/-- A decimal in the interval of a magnitude is read as this magnitude. -/
theorem nearestFloat_eq : nearestFloat m p = pack .positive target hcanonical := by
  obtain ⟨hleast, hgreatest⟩ := leading_bounds hm hcanonical hcovers
  have hslow : Float.ofModel (Float.Model.ofScientific m p) = pack .positive target hcanonical := by
    show Float.ofModel (Float.Model.pack (UnpackedFloat.ofScientific _ m p)) = _
    rw [ofScientific_large hm hcanonical hcovers]
    rfl
  unfold nearestFloat
  dsimp only
  rw [if_neg hm.ne', if_neg (by omega), if_neg (by omega)]
  by_cases hnegative : p < 0
  · rw [if_pos hnegative]
    by_cases hsmall : m < 2 ^ 53 ∧ (-p).toNat ≤ 22
    · refine ofScientific_small hm hsmall hcanonical ?_
      rwa [if_pos rfl, div_eq_mul_inv, ← ten_zpow_of_neg hnegative]
    · have hexponent : Int.negOfNat (-p).toNat = p := by
        rw [Int.negOfNat_eq, Int.ofNat_eq_natCast]
        omega
      unfold Float.ofScientific
      rw [dif_neg hsmall, if_pos rfl, hexponent]
      exact hslow
  · rw [if_neg hnegative]
    by_cases hsmall : m < 2 ^ 53 ∧ p.toNat ≤ 22
    · refine ofScientific_small hm hsmall hcanonical ?_
      rwa [if_neg (by norm_num), ← ten_zpow_of_nonneg (not_lt.1 hnegative)]
    · have hexponent : Int.ofNat p.toNat = p := Int.toNat_of_nonneg (by omega)
      unfold Float.ofScientific
      rw [dif_neg hsmall, if_neg (by norm_num), hexponent]
      exact hslow

end Decimals

end EvidenceGraph.Decimal
