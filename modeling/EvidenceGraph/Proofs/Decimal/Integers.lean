/-
# `EvidenceGraph.Proofs.Decimal.Integers` — integers as binary64 values.

An integer becomes the nearest binary64 value, half way to the even one. Its magnitude is found by dividing
by the power of two that leaves 53 bits, and rounding up by one if the remainder asks for it
(`exists_covers`). A larger integer never becomes a smaller value, since the intervals of two magnitudes lie
one behind the other (`level_ofInt_le`); but from `2 ^ 53` on two of them may become the same one, and only
from there on (`le_natAbs_of_level_eq`).
-/
import EvidenceGraph.Proofs.Decimal.Nearest
import EvidenceGraph.Proofs.Decimal.Order

namespace EvidenceGraph.Decimal

open Float.Model Float.Model.UnpackedFloat

/-! ## Levels of magnitudes -/

/-- The level of the positive value with this magnitude. -/
def Magnitude.level (m : Magnitude) : Int := (m.exponent + 1074) * 2 ^ 52 + m.mantissa

theorem OnLevel.unique {u : UnpackedFloat} {a b : Int} (ha : OnLevel u a) (hb : OnLevel u b) : a = b := by
  cases ha <;> cases hb <;> rfl

theorem isNaN_pack {m : Magnitude} (h : m.Canonical) (s : Sign) : (pack s m h).isNaN = false := by
  show (pack s m h).toModel.unpack.isNaN = false
  rw [unpack_pack h s]
  rfl

theorem level_pack {m : Magnitude} (h : m.Canonical) (s : Sign) : level (pack s m h) = s.apply m.level := by
  have hlevel := onLevel_level (isNaN_pack h s)
  rw [unpack_pack h s] at hlevel
  exact hlevel.unique (.finite s h.mantissa_pos h)

/-- The interval of a magnitude ends where that of a greater one begins, or before. -/
theorem Magnitude.high_le_low {a b : Magnitude} (ha : a.Canonical) (hb : b.Canonical) (h : a.level < b.level) :
    a.interval.high * (2 : ℚ) ^ (a.exponent - 2) ≤ b.interval.low * 2 ^ (b.exponent - 2) := by
  have halt := ha.mantissa_lt
  have hblt := hb.mantissa_lt
  have hleast := ha.least_le
  have hasub := ha.subnormal
  have hbsub := hb.subnormal
  have hbleast := hb.least_le
  unfold Magnitude.level at h
  have hexponent : a.exponent ≤ b.exponent := by omega
  rcases hexponent.eq_or_lt with heq | hlt
  · -- one grid: the greater mantissa is greater by a unit, which is four quarters
    have hmantissa : a.mantissa + 1 ≤ b.mantissa := by
      rw [heq] at h
      omega
    have hmantissa : (a.mantissa : ℚ) + 1 ≤ b.mantissa := by exact_mod_cast hmantissa
    have hlow := Magnitude.low_ge hb.mantissa_pos
    rw [heq, Magnitude.high_eq]
    exact mul_le_mul_of_nonneg_right (by linarith) (two_zpow_pos _).le
  · have hlow : (2 : ℚ) ^ 54 - 1 ≤ b.interval.low := by
      by_cases hpower : b.mantissa = 2 ^ 52
      · rw [Magnitude.low_eq_of_power hpower (by omega)]
        norm_num
      · have hnormal : (2 : ℚ) ^ 52 + 1 ≤ b.mantissa := by exact_mod_cast (by omega : 2 ^ 52 + 1 ≤ b.mantissa)
        have hge := Magnitude.low_ge hb.mantissa_pos
        linarith
    have hhigh : (a.interval.high : ℚ) ≤ 2 * (2 ^ 54 - 1) := by
      have hmantissa : (a.mantissa : ℚ) + 1 ≤ 2 ^ 53 := by exact_mod_cast halt
      rw [Magnitude.high_eq]
      linarith
    have hgrid : 2 * (2 : ℚ) ^ (a.exponent - 2) ≤ 2 ^ (b.exponent - 2) := by
      have hdouble := two_zpow_add 1 (a.exponent - 2)
      rw [zpow_one] at hdouble
      rw [← hdouble]
      exact zpow_le_zpow_right₀ (by norm_num) (by omega)
    calc a.interval.high * (2 : ℚ) ^ (a.exponent - 2)
        ≤ 2 * (2 ^ 54 - 1) * 2 ^ (a.exponent - 2) := mul_le_mul_of_nonneg_right hhigh (two_zpow_pos _).le
      _ = (2 ^ 54 - 1) * (2 * 2 ^ (a.exponent - 2)) := by ring
      _ ≤ (2 ^ 54 - 1) * 2 ^ (b.exponent - 2) := mul_le_mul_of_nonneg_left hgrid (by norm_num)
      _ ≤ b.interval.low * 2 ^ (b.exponent - 2) := mul_le_mul_of_nonneg_right hlow (two_zpow_pos _).le

/-- A greater number is not in the interval of a smaller magnitude. -/
theorem Magnitude.Covers.level_le {a b : Magnitude} {r t : ℚ} (ha : a.Canonical) (hb : b.Canonical)
    (hr : a.Covers r) (ht : b.Covers t) (hlt : r < t) : a.level ≤ b.level := by
  by_contra hless
  have hends := Magnitude.high_le_low hb ha (not_le.1 hless)
  exact absurd (ht.high.trans (hends.trans hr.low)) (not_le.2 hlt)

theorem Magnitude.level_injective {a b : Magnitude} (ha : a.Canonical) (hb : b.Canonical)
    (h : a.level = b.level) : a = b := by
  have halt := ha.mantissa_lt
  have hblt := hb.mantissa_lt
  have hasub := ha.subnormal
  have hbsub := hb.subnormal
  have haleast := ha.least_le
  have hbleast := hb.least_le
  obtain ⟨m, e⟩ := a
  obtain ⟨n, f⟩ := b
  unfold Magnitude.level at h
  dsimp only at *
  have hexponent : e = f := by omega
  subst hexponent
  have hmantissa : m = n := by omega
  rw [hmantissa]

/-! ## The nearest magnitude of a natural number -/

/-- On a grid of integers the interval is one of integers, in quarters. -/
theorem covers_natCast_iff {a k n : Nat} :
    (Magnitude.mk a k).Covers n ↔
      let i := (Magnitude.mk a k).interval
      if i.closed then i.low * 2 ^ k ≤ 4 * n ∧ 4 * n ≤ i.high * 2 ^ k
      else i.low * 2 ^ k < 4 * n ∧ 4 * n < i.high * 2 ^ k := by
  have hquarter : (2 : ℚ) ^ ((k : Int) - 2) = 2 ^ k / 4 := by
    have hscale := two_zpow_quarter (k : Int)
    rw [zpow_natCast] at hscale
    linarith
  have hle (x y : Nat) : (x : ℚ) * (2 ^ k / 4) ≤ y ↔ x * 2 ^ k ≤ 4 * y := by
    rw [← @Nat.cast_le ℚ, mul_div_assoc', div_le_iff₀ (by norm_num)]
    push_cast
    rw [mul_comm (y : ℚ)]
  have hge (x y : Nat) : (y : ℚ) ≤ x * (2 ^ k / 4) ↔ 4 * y ≤ x * 2 ^ k := by
    rw [← @Nat.cast_le ℚ, mul_div_assoc', le_div_iff₀ (by norm_num)]
    push_cast
    rw [mul_comm (y : ℚ)]
  unfold Magnitude.Covers
  dsimp only
  rw [hquarter]
  split
  · rw [hle, hge]
  · rw [← not_le, ← not_le, hle, hge, not_le, not_le]

section Nearest

variable {q k r : Nat}

/-- Below half a unit above a mantissa, and at half a unit above an even one. -/
theorem covers_down (hq : 0 < q) (hr : 2 * r < 2 ^ k ∨ 2 * r = 2 ^ k ∧ q % 2 = 0) :
    (Magnitude.mk q k).Covers (q * 2 ^ k + r : Nat) := by
  have hunit : 0 < 2 ^ k := Nat.pow_pos (by norm_num)
  have hlow : (Magnitude.mk q k).interval.low * 2 ^ k < 4 * (q * 2 ^ k) := by
    rw [← mul_assoc]
    exact Nat.mul_lt_mul_of_pos_right (Magnitude.low_lt (m := ⟨q, k⟩) hq) hunit
  have hhigh : (Magnitude.mk q k).interval.high * 2 ^ k = 4 * (q * 2 ^ k) + 2 * 2 ^ k := by
    simp only [Magnitude.interval]
    ring
  rw [covers_natCast_iff]
  dsimp only
  split
  · omega
  · next hopen =>
    have hodd : q % 2 ≠ 0 := by simpa [Magnitude.interval] using hopen
    omega

/-- Above half a unit below a mantissa, and at half a unit below an even one. -/
theorem covers_up (hq : 2 ^ 52 ≤ q) (hlt : r < 2 ^ k) (hr : 2 ^ k < 2 * r ∨ 2 ^ k = 2 * r ∧ q % 2 = 1) :
    (Magnitude.mk (q + 1) k).Covers (q * 2 ^ k + r : Nat) := by
  have hlow : (Magnitude.mk (q + 1) k).interval.low * 2 ^ k = 4 * (q * 2 ^ k) + 2 * 2 ^ k := by
    have hleading : leadingBit = 2 ^ 52 := rfl
    have hnat : (Magnitude.mk (q + 1) k).interval.low = 4 * q + 2 := by
      simp only [Magnitude.interval, hleading]
      rw [if_neg (by omega)]
      omega
    rw [hnat]
    ring
  have hhigh : (Magnitude.mk (q + 1) k).interval.high * 2 ^ k = 4 * (q * 2 ^ k) + 6 * 2 ^ k := by
    simp only [Magnitude.interval]
    ring
  rw [covers_natCast_iff]
  dsimp only
  split
  · omega
  · next hopen =>
    have hodd : (q + 1) % 2 ≠ 0 := by simpa [Magnitude.interval] using hopen
    omega

/-- Half a unit below a power of two, and above that. -/
theorem covers_power (hlt : r < 2 ^ k) (hr : 2 ^ k ≤ 2 * r) :
    (Magnitude.mk (2 ^ 52) (k + 1 : Nat)).Covers ((2 ^ 53 - 1) * 2 ^ k + r : Nat) := by
  have hleast : -1074 < ((k + 1 : Nat) : Int) := by omega
  rw [covers_natCast_iff]
  simp only [Magnitude.interval, leadingBit, hleast, pow_succ (n := k)]
  norm_num
  omega

end Nearest

/-- Every natural number of 64 bits is in the interval of a magnitude. -/
theorem exists_covers {n : Nat} (hn : 0 < n) (hlt : n < 2 ^ 64) :
    ∃ m : Magnitude, m.Canonical ∧ m.Covers n := by
  by_cases hsmall : n < 2 ^ 53
  · have hcanonical := ofNat_canonical hn hsmall
    refine ⟨.ofNat n, hcanonical, ?_⟩
    have hcovers := Magnitude.covers_value hcanonical.mantissa_pos
    rwa [ofNat_value hn hsmall] at hcovers
  · -- divide by the power of two that leaves 53 bits
    obtain ⟨k, hk⟩ : ∃ k, n.log2 = 52 + k := by
      have hlog : 53 ≤ n.log2 := (Nat.le_log2 hn.ne').2 (not_lt.1 hsmall)
      exact ⟨n.log2 - 52, by omega⟩
    have hplace : k < 12 := by
      have hlog : n.log2 < 64 := (Nat.log2_lt hn.ne').2 hlt
      omega
    have hunit : 0 < 2 ^ k := Nat.pow_pos (by norm_num)
    have hbounds : 2 ^ 52 * 2 ^ k ≤ n ∧ n < 2 ^ 53 * 2 ^ k := by
      rw [← pow_add, ← pow_add, ← hk]
      refine ⟨Nat.log2_self_le hn.ne', ?_⟩
      have hnext : 53 + k = n.log2 + 1 := by omega
      rw [hnext]
      exact Nat.lt_log2_self
    have hqlow : 2 ^ 52 ≤ n / 2 ^ k := (Nat.le_div_iff_mul_le hunit).2 hbounds.1
    have hqhigh : n / 2 ^ k < 2 ^ 53 := (Nat.div_lt_iff_lt_mul hunit).2 hbounds.2
    have hr : n % 2 ^ k < 2 ^ k := Nat.mod_lt n hunit
    have hsplit : n / 2 ^ k * 2 ^ k + n % 2 ^ k = n := Nat.div_add_mod' n (2 ^ k)
    have hcanonical {q j : Nat} (hlow : 2 ^ 52 ≤ q) (hhigh : q < 2 ^ 53) (hj : j < 13) :
        (Magnitude.mk q j).Canonical := by
      constructor <;> dsimp only <;> omega
    generalize n / 2 ^ k = q at hqlow hqhigh hsplit
    generalize n % 2 ^ k = r at hr hsplit
    subst hsplit
    by_cases hdown : 2 * r < 2 ^ k ∨ 2 * r = 2 ^ k ∧ q % 2 = 0
    · exact ⟨⟨q, k⟩, hcanonical hqlow hqhigh (by omega), covers_down (by omega) hdown⟩
    · by_cases htop : q + 1 < 2 ^ 53
      · exact ⟨⟨q + 1, k⟩, hcanonical (by omega) htop (by omega), covers_up hqlow hr (by omega)⟩
      · obtain rfl : q = 2 ^ 53 - 1 := by omega
        exact ⟨⟨2 ^ 52, (k + 1 : Nat)⟩, hcanonical le_rfl (by norm_num) (by omega), covers_power hr (by omega)⟩

/-! ## Integers -/

/-- A natural number becomes the value in whose interval it is. -/
theorem ofNat_eq_pack {n : Nat} {m : Magnitude} (hn : 0 < n) (hcanonical : m.Canonical) (h : m.Covers n) :
    Float.ofNat n = pack .positive m hcanonical := by
  have hcovers : m.Covers (n * 10 ^ (0 : Int)) := by rwa [zpow_zero, mul_one]
  obtain ⟨hleast, hgreatest⟩ := leading_bounds hn hcanonical hcovers
  have hread := nearestFloat_eq hn hcanonical hcovers
  unfold nearestFloat at hread
  dsimp only at hread
  rwa [if_neg hn.ne', if_neg (by omega), if_neg (by omega), if_neg (lt_irrefl 0)] at hread

theorem level_ofNat_zero : level (Float.ofNat 0) = 0 ∧ signBit (Float.ofNat 0) = false := by decide +kernel

theorem Magnitude.Canonical.level_pos {m : Magnitude} (h : m.Canonical) : 0 < m.level := h.level_bounds.1

theorem level_ofNat_le {n p : Nat} (h : n ≤ p) (hp : p < 2 ^ 64) :
    level (Float.ofNat n) ≤ level (Float.ofNat p) := by
  rcases h.eq_or_lt with rfl | hlt
  · rfl
  obtain ⟨b, hb, hcoversp⟩ := exists_covers (by omega) hp
  rw [ofNat_eq_pack (by omega) hb hcoversp, level_pack]
  rcases Nat.eq_zero_or_pos n with rfl | hn
  · rw [level_ofNat_zero.1]
    exact hb.level_pos.le
  · obtain ⟨a, ha, hcoversn⟩ := exists_covers hn (by omega)
    rw [ofNat_eq_pack hn ha hcoversn, level_pack]
    exact hcoversn.level_le ha hb hcoversp (by exact_mod_cast hlt)

/-- Below `2 ^ 53` the next integer is beyond the interval. -/
theorem level_ofNat_lt {n p : Nat} (h : n < p) (hn : n < 2 ^ 53) (hp : p < 2 ^ 64) :
    level (Float.ofNat n) < level (Float.ofNat p) := by
  obtain ⟨b, hb, hcoversp⟩ := exists_covers (by omega) hp
  rcases Nat.eq_zero_or_pos n with rfl | hpos
  · rw [level_ofNat_zero.1, ofNat_eq_pack (by omega) hb hcoversp, level_pack]
    exact hb.level_pos
  have ha := ofNat_canonical hpos hn
  have hcoversn := Magnitude.covers_value ha.mantissa_pos
  rw [ofNat_value hpos hn] at hcoversn
  refine lt_of_le_of_ne (level_ofNat_le h.le hp) fun hsame => ?_
  rw [ofNat_eq_pack hpos ha hcoversn, ofNat_eq_pack (by omega) hb hcoversp, level_pack, level_pack] at hsame
  rw [← Magnitude.level_injective ha hb hsame] at hcoversp
  have hvalue := ofNat_value hpos hn
  rw [Magnitude.value_eq_quarters] at hvalue
  push_cast at hvalue
  have hunit : 2 * (2 : ℚ) ^ ((Magnitude.ofNat n).exponent - 2) < 1 := by
    have hexponent : (Magnitude.ofNat n).exponent ≤ 0 := by
      have hlog : n.log2 < 53 := (Nat.log2_lt hpos.ne').2 hn
      show (n.log2 : Int) - 52 ≤ 0
      omega
    have hle : (2 : ℚ) ^ ((Magnitude.ofNat n).exponent - 2) ≤ 2 ^ (-2 : Int) :=
      zpow_le_zpow_right₀ (by norm_num) (by omega)
    norm_num at hle
    linarith
  have hhigh := hcoversp.high
  rw [Magnitude.high_eq, add_mul, hvalue] at hhigh
  have hnext : (n : ℚ) + 1 ≤ p := by exact_mod_cast h
  linarith

theorem level_neg_ofNat {n : Nat} (hn : 0 < n) (hlt : n < 2 ^ 64) :
    level (-Float.ofNat n) = -level (Float.ofNat n) := by
  obtain ⟨m, hm, hcovers⟩ := exists_covers hn hlt
  rw [ofNat_eq_pack hn hm hcovers, neg_pack, level_pack, level_pack]
  rfl

theorem level_ofInt {i : Int} (h : i.natAbs < 2 ^ 64) :
    level (Float.ofInt i) = i.sign * level (Float.ofNat i.natAbs) := by
  cases i with
  | ofNat n =>
    rcases Nat.eq_zero_or_pos n with rfl | hn
    · exact level_ofNat_zero.1
    · have hsign : (Int.ofNat n).sign = 1 := Int.sign_eq_one_of_pos (Int.natCast_pos.2 hn)
      rw [hsign, one_mul]
      rfl
  | negSucc n =>
    rw [Int.sign_negSucc, neg_one_mul]
    exact level_neg_ofNat n.succ_pos h

theorem isNaN_ofInt {i : Int} (h : i.natAbs < 2 ^ 64) : (Float.ofInt i).isNaN = false := by
  cases i with
  | ofNat n =>
    rcases Nat.eq_zero_or_pos n with rfl | hn
    · decide +kernel
    · obtain ⟨m, hm, hcovers⟩ := exists_covers hn h
      show (Float.ofNat n).isNaN = false
      rw [ofNat_eq_pack hn hm hcovers, isNaN_pack]
  | negSucc n =>
    obtain ⟨m, hm, hcovers⟩ := exists_covers n.succ_pos h
    show (-Float.ofNat n.succ).isNaN = false
    rw [ofNat_eq_pack n.succ_pos hm hcovers, neg_pack, isNaN_pack]

/-- A greater integer does not become a smaller value. -/
theorem level_ofInt_le {i j : Int} (h : i ≤ j) (hi : i.natAbs < 2 ^ 64) (hj : j.natAbs < 2 ^ 64) :
    level (Float.ofInt i) ≤ level (Float.ofInt j) := by
  have hnonneg (k : Int) (hk : k.natAbs < 2 ^ 64) : 0 ≤ level (Float.ofNat k.natAbs) :=
    level_ofNat_zero.1 ▸ level_ofNat_le (Nat.zero_le _) hk
  have hinonneg := hnonneg i hi
  have hjnonneg := hnonneg j hj
  rw [level_ofInt hi, level_ofInt hj]
  rcases lt_trichotomy i 0 with hneg | rfl | hpos
  · rw [Int.sign_eq_neg_one_of_neg hneg]
    rcases lt_trichotomy j 0 with hjneg | rfl | hjpos
    · have hle := level_ofNat_le (by omega : j.natAbs ≤ i.natAbs) hi
      rw [Int.sign_eq_neg_one_of_neg hjneg]
      omega
    · rw [Int.sign_zero]
      omega
    · rw [Int.sign_eq_one_of_pos hjpos]
      omega
  · rw [Int.sign_zero, zero_mul]
    exact mul_nonneg (Int.sign_nonneg_iff.2 h) hjnonneg
  · have hle := level_ofNat_le (by omega : i.natAbs ≤ j.natAbs) hj
    rw [Int.sign_eq_one_of_pos hpos, Int.sign_eq_one_of_pos (by omega), one_mul, one_mul]
    exact hle

theorem sign_level_ofInt {i : Int} (h : i.natAbs < 2 ^ 64) : (level (Float.ofInt i)).sign = i.sign := by
  rw [level_ofInt h, Int.sign_mul, Int.sign_sign]
  by_cases hzero : i = 0
  · rw [hzero, Int.sign_zero, zero_mul]
  · have hpos := level_ofNat_lt (by omega : 0 < i.natAbs) (by norm_num) h
    rw [level_ofNat_zero.1] at hpos
    rw [Int.sign_eq_one_of_pos hpos, mul_one]

theorem natAbs_toInt_lt (i : Int64) : i.toInt.natAbs < 2 ^ 64 := by
  have hlow := i.le_toInt
  have hhigh := i.toInt_lt
  omega

/-- Two integers that become one value are both beyond those that are represented exactly. -/
theorem le_natAbs_of_level_eq {i j : Int} (hne : i ≠ j) (hi : i.natAbs < 2 ^ 64) (hj : j.natAbs < 2 ^ 64)
    (h : level (Float.ofInt i) = level (Float.ofInt j)) : 2 ^ 53 ≤ i.natAbs ∧ 2 ^ 53 ≤ j.natAbs := by
  have hsign : i.sign = j.sign := by rw [← sign_level_ofInt hi, h, sign_level_ofInt hj]
  have hnatAbs : i.natAbs ≠ j.natAbs := by
    intro hsame
    apply hne
    rw [← Int.sign_mul_natAbs i, hsign, hsame, Int.sign_mul_natAbs]
  have hnonzero : j.sign ≠ 0 := by
    intro hzero
    rw [hzero, Int.sign_eq_zero_iff_zero] at hsign
    rw [Int.sign_eq_zero_iff_zero] at hzero
    exact hne (hsign.trans hzero.symm)
  rw [level_ofInt hi, level_ofInt hj, hsign] at h
  have hlevel := mul_left_cancel₀ hnonzero h
  rcases hnatAbs.lt_or_gt with hlt | hlt
  · have hlarge : ¬ i.natAbs < 2 ^ 53 := fun hsmall => (level_ofNat_lt hlt hsmall hj).ne hlevel
    omega
  · have hlarge : ¬ j.natAbs < 2 ^ 53 := fun hsmall => (level_ofNat_lt hlt hsmall hi).ne hlevel.symm
    omega

end EvidenceGraph.Decimal
