/-
# `EvidenceGraph.Proofs.Decimal.Rounding` — which numbers are rounded to a binary64 value.

Arithmetic on binary64 values cuts an exact result off at some binary place, keeps two bits about what is
cut off, and rounds to the nearest mantissa, half way to the even one. `Stands` says what an extended
mantissa knows of the exact number, and shifting keeps it. Main statement: `roundWithAccuracy_eq`, every
number in the interval of a magnitude is rounded to this magnitude, also across a power of two, where the
number is first rounded on the finer grid below.
-/
import EvidenceGraph.Decimal.Shortest
import Mathlib.Algebra.Order.Field.Power
import Mathlib.Algebra.Order.Ring.Rat
import Mathlib.Tactic.FieldSimp
import Mathlib.Tactic.Linarith
import Mathlib.Tactic.NormNum
import Mathlib.Tactic.Ring

namespace EvidenceGraph.Decimal

open Float.Model Float.Model.UnpackedFloat

/-! ## Powers of two -/

theorem two_zpow_pos (e : Int) : (0 : ℚ) < 2 ^ e := zpow_pos (by norm_num) e

theorem two_zpow_add (e f : Int) : (2 : ℚ) ^ (e + f) = 2 ^ e * 2 ^ f := zpow_add₀ (by norm_num) e f

theorem two_zpow_lt {e f : Int} : (2 : ℚ) ^ e < 2 ^ f ↔ e < f := zpow_lt_zpow_iff_right₀ (by norm_num)

/-- Four quarters make a unit. -/
theorem two_zpow_quarter (e : Int) : (2 : ℚ) ^ e = 4 * 2 ^ (e - 2) := by
  have h := two_zpow_add 2 (e - 2)
  rw [add_sub_cancel] at h
  rw [h]
  norm_num

/-! ## Magnitudes and their intervals -/

/-- The number that a magnitude is. -/
def Magnitude.value (m : Magnitude) : ℚ := m.mantissa * 2 ^ m.exponent

/-- The magnitudes of the positive binary64 values: the mantissa has 53 bits, or the exponent is the least
one. -/
structure Magnitude.Canonical (m : Magnitude) : Prop where
  mantissa_pos : 0 < m.mantissa
  mantissa_lt : m.mantissa < 2 ^ 53
  least_le : -1074 ≤ m.exponent
  le_greatest : m.exponent ≤ 971
  subnormal : m.mantissa < 2 ^ 52 → m.exponent = -1074

/-- A number in the interval of a magnitude. -/
def Magnitude.Covers (m : Magnitude) (r : ℚ) : Prop :=
  if m.interval.closed then
    m.interval.low * 2 ^ (m.exponent - 2) ≤ r ∧ r ≤ m.interval.high * 2 ^ (m.exponent - 2)
  else
    m.interval.low * 2 ^ (m.exponent - 2) < r ∧ r < m.interval.high * 2 ^ (m.exponent - 2)

section Covers

variable {m : Magnitude} {r : ℚ}

/-- In quarters of the last place a magnitude is four times its mantissa. -/
theorem Magnitude.value_eq_quarters : m.value = (4 * m.mantissa : Nat) * 2 ^ (m.exponent - 2) := by
  rw [Magnitude.value, two_zpow_quarter m.exponent]
  push_cast
  ring

theorem Magnitude.Covers.low (h : m.Covers r) : m.interval.low * 2 ^ (m.exponent - 2) ≤ r := by
  unfold Magnitude.Covers at h
  split at h
  · exact h.1
  · exact h.1.le

theorem Magnitude.Covers.high (h : m.Covers r) : r ≤ m.interval.high * 2 ^ (m.exponent - 2) := by
  unfold Magnitude.Covers at h
  split at h
  · exact h.2
  · exact h.2.le

theorem Magnitude.covers_of_lt (hlow : m.interval.low * 2 ^ (m.exponent - 2) < r)
    (hhigh : r < m.interval.high * 2 ^ (m.exponent - 2)) : m.Covers r := by
  unfold Magnitude.Covers
  split
  · exact ⟨hlow.le, hhigh.le⟩
  · exact ⟨hlow, hhigh⟩

/-- The ends belong to the interval of an even mantissa only. -/
theorem Magnitude.Covers.odd (h : m.Covers r) (hodd : m.mantissa % 2 = 1) :
    m.interval.low * 2 ^ (m.exponent - 2) < r ∧ r < m.interval.high * 2 ^ (m.exponent - 2) := by
  have hopen : m.interval.closed = false := by simp [Magnitude.interval, hodd]
  simpa [Magnitude.Covers, hopen] using h

/-- The interval reaches down by half a unit of the last place or less. -/
theorem Magnitude.low_ge (hm : 0 < m.mantissa) : 4 * (m.mantissa : ℚ) - 2 ≤ m.interval.low := by
  have hnat : 4 * m.mantissa ≤ m.interval.low + 2 := by
    simp only [Magnitude.interval]
    split <;> omega
  have hrat : 4 * (m.mantissa : ℚ) ≤ m.interval.low + 2 := by exact_mod_cast hnat
  linarith

theorem Magnitude.high_eq : (m.interval.high : ℚ) = 4 * m.mantissa + 2 := by
  simp [Magnitude.interval]

theorem Magnitude.low_lt (hm : 0 < m.mantissa) : m.interval.low < 4 * m.mantissa := by
  simp only [Magnitude.interval]
  split <;> omega

/-- Where the next value below is nearer, the interval reaches down by a quarter only. -/
theorem Magnitude.low_eq_of_power (hm : m.mantissa = 2 ^ 52) (he : -1074 < m.exponent) :
    (m.interval.low : ℚ) = 4 * 2 ^ 52 - 1 := by
  have hnat : m.interval.low = 4 * 2 ^ 52 - 1 := by
    simp [Magnitude.interval, leadingBit, hm, he]
  rw [hnat]
  norm_num

end Covers

/-! ## Extended mantissas -/

/-- An extended mantissa stands for a number: the mantissa is its integral part, and the two bits tell
whether the rest is nothing, less than a half, a half, or more than a half. -/
def Stands (em : ExtendedMantissa) (x : ℚ) : Prop :=
  match em.roundBit, em.stickyBit with
  | false, false => x = em.mantissa
  | false, true => em.mantissa < x ∧ x < em.mantissa + 1 / 2
  | true, false => x = em.mantissa + 1 / 2
  | true, true => em.mantissa + 1 / 2 < x ∧ x < em.mantissa + 1

theorem stands_exact (m : Nat) : Stands (.ofMantissaAndAccuracy m .exact) m := rfl

/-- The quotient of two numbers is known by its integral part and the remainder. -/
theorem stands_fraction (n : Nat) {d : Nat} (hd : 0 < d) :
    Stands (.ofMantissaAndAccuracy (n / d) (accuracyOfFraction (n % d) d)) (n / d) := by
  have hpos : (0 : ℚ) < d := by exact_mod_cast hd
  have hsplit : (n : ℚ) = (n / d : Nat) * d + (n % d : Nat) := by exact_mod_cast (Nat.div_add_mod' n d).symm
  have hlt : ((n % d : Nat) : ℚ) < d := by exact_mod_cast Nat.mod_lt n hd
  have hvalue : (n : ℚ) / d = (n / d : Nat) + (n % d : Nat) / d := by
    rw [hsplit, add_div, mul_div_cancel_right₀ _ hpos.ne']
  rw [hvalue]
  generalize n % d = rest at hlt
  unfold accuracyOfFraction
  split
  · next hzero => simp [Stands, ExtendedMantissa.ofMantissaAndAccuracy, hzero]
  · next hne =>
    have hrest : (0 : ℚ) < rest := by exact_mod_cast Nat.pos_of_ne_zero hne
    rcases Nat.lt_trichotomy (2 * rest) d with h | h | h
    · rw [Nat.compare_eq_lt.2 h]
      have hhalf : (rest : ℚ) / d < 1 / 2 := by
        rw [div_lt_iff₀ hpos]
        have hdouble : 2 * (rest : ℚ) < d := by exact_mod_cast h
        linarith
      have hsome : (0 : ℚ) < rest / d := div_pos hrest hpos
      exact ⟨by simpa [ExtendedMantissa.ofMantissaAndAccuracy] using hsome,
        by simpa [ExtendedMantissa.ofMantissaAndAccuracy] using hhalf⟩
    · rw [Nat.compare_eq_eq.2 h]
      have hhalf : (rest : ℚ) / d = 1 / 2 := by
        rw [div_eq_iff hpos.ne']
        have hdouble : 2 * (rest : ℚ) = d := by exact_mod_cast h
        linarith
      simpa [Stands, ExtendedMantissa.ofMantissaAndAccuracy] using hhalf
    · rw [Nat.compare_eq_gt.2 h]
      have hhalf : 1 / 2 < (rest : ℚ) / d := by
        rw [lt_div_iff₀ hpos]
        have hdouble : (d : ℚ) < 2 * rest := by exact_mod_cast h
        linarith
      have hone : (rest : ℚ) / d < 1 := by rwa [div_lt_iff₀ hpos, one_mul]
      exact ⟨by simpa [ExtendedMantissa.ofMantissaAndAccuracy] using hhalf,
        by simpa [ExtendedMantissa.ofMantissaAndAccuracy] using hone⟩

section Stands

variable {em : ExtendedMantissa} {x : ℚ}

/-- The mantissa is the integral part. -/
theorem Stands.floor (h : Stands em x) : em.mantissa ≤ x ∧ x < em.mantissa + 1 := by
  obtain ⟨mantissa, roundBit, stickyBit⟩ := em
  cases roundBit <;> cases stickyBit <;> simp only [Stands] at h ⊢ <;> constructor <;> linarith

/-- Dropping a bit halves the number. -/
theorem Stands.shiftRightOne (h : Stands em x) : Stands em.shiftRightOne (x / 2) := by
  obtain ⟨mantissa, roundBit, stickyBit⟩ := em
  have hsplit : (mantissa : ℚ) = 2 * (mantissa / 2 : Nat) + (mantissa % 2 : Nat) := by
    exact_mod_cast (Nat.div_add_mod mantissa 2).symm
  rcases Nat.mod_two_eq_zero_or_one mantissa with hbit | hbit
  all_goals
    rw [hbit] at hsplit
    cases roundBit <;> cases stickyBit <;>
      simp [Stands, ExtendedMantissa.shiftRightOne, hbit] at h hsplit ⊢
  all_goals first | linarith | (constructor <;> linarith)

theorem Stands.shiftRight (h : Stands em x) (n : Nat) : Stands (em >>> n) (x / 2 ^ n) := by
  show Stands (n.repeat ExtendedMantissa.shiftRightOne em) (x / 2 ^ n)
  induction n with
  | zero => simpa [Nat.repeat] using h
  | succ n ih =>
    rw [Nat.repeat, pow_succ, ← div_div]
    exact ih.shiftRightOne

/-- A number at most half a unit from `M` is rounded to `M`, and so is one just half a unit from an even
`M`. -/
theorem Stands.roundedMantissa_eq (h : Stands em x) {M : Nat} (hlow : (M : ℚ) - 1 / 2 ≤ x)
    (hhigh : x ≤ M + 1 / 2) (hodd : M % 2 = 1 → (M : ℚ) - 1 / 2 < x ∧ x < M + 1 / 2) :
    em.roundedMantissa = M := by
  obtain ⟨mantissa, roundBit, stickyBit⟩ := em
  have hle {a b : Nat} (hab : (a : ℚ) < b + 1) : a ≤ b := by
    have hlt : a < b + 1 := by exact_mod_cast hab
    omega
  cases roundBit <;> cases stickyBit <;>
    simp only [Stands] at h <;>
    simp only [ExtendedMantissa.roundedMantissa, ExtendedMantissa.accuracy, Accuracy.roundToNearestEven]
  · exact Nat.le_antisymm (hle (by linarith)) (hle (by linarith))
  · exact Nat.le_antisymm (hle (by linarith)) (hle (by linarith))
  · -- half way between two mantissas, so `M` is the even one of them
    have hM : M % 2 = 0 := by
      rcases Nat.mod_two_eq_zero_or_one M with heven | hone
      · exact heven
      · obtain ⟨hl, hh⟩ := hodd hone
        have h₁ : M ≤ mantissa := hle (by linarith)
        have h₂ : mantissa + 1 ≤ M := hle (by push_cast; linarith)
        omega
    have h₁ : M ≤ mantissa + 1 := hle (by push_cast; linarith)
    have h₂ : mantissa ≤ M := hle (by linarith)
    omega
  · exact Nat.le_antisymm (hle (by push_cast; linarith)) (hle (by push_cast; linarith))

end Stands

/-! ## Where the last place is -/

theorem targetExponent_binary64 (t : Int) :
    Format.binary64.targetExponent t = max (t - 53) (-1074) := rfl

/-- A number with the integral part `m` has as many binary places as `m`. -/
theorem totalExponent_bounds {m : Nat} {e : Int} {x : ℚ} (hm : m ≤ x) (hx : x < m + 1) :
    x * 2 ^ e < 2 ^ totalExponent m e ∧ (m ≠ 0 → 2 ^ (totalExponent m e - 1) ≤ x * 2 ^ e) := by
  have hpos := two_zpow_pos e
  have hexponent : totalExponent m e = (m.log2 + 1 : Nat) + e := by
    simp only [totalExponent]
    omega
  rw [hexponent]
  constructor
  · rw [two_zpow_add, zpow_natCast]
    have hnat : m + 1 ≤ 2 ^ (m.log2 + 1) := Nat.lt_log2_self
    have hrat : (m : ℚ) + 1 ≤ 2 ^ (m.log2 + 1) := by exact_mod_cast hnat
    exact mul_lt_mul_of_pos_right (hx.trans_le hrat) hpos
  · intro hne
    have hnat : 2 ^ m.log2 ≤ m := Nat.log2_self_le hne
    have hrat : (2 : ℚ) ^ m.log2 ≤ m := by exact_mod_cast hnat
    have hless : ((m.log2 + 1 : Nat) : Int) + e - 1 = (m.log2 : Nat) + e := by omega
    rw [hless, two_zpow_add, zpow_natCast]
    exact mul_le_mul_of_nonneg_right (hrat.trans hm) hpos.le

section Target

variable {target : Magnitude} {r : ℚ}

/-- A number in the interval of a magnitude is smaller than the power of two above it. -/
theorem Magnitude.Covers.lt_power (h : target.Covers r) {k : Nat} (hk : target.mantissa < 2 ^ k) :
    r < 2 ^ (k + target.exponent) := by
  have hunit := two_zpow_quarter target.exponent
  have hpos := two_zpow_pos (target.exponent - 2)
  have hhigh := h.high
  rw [Magnitude.high_eq] at hhigh
  have hmantissa : (target.mantissa : ℚ) + 1 ≤ 2 ^ k := by exact_mod_cast hk
  rw [two_zpow_add, zpow_natCast, hunit]
  nlinarith

/-- In units of the last place, the number is at most a half away. -/
theorem Magnitude.Covers.near (h : target.Covers r) (hpos : 0 < target.mantissa) :
    (target.mantissa : ℚ) - 1 / 2 ≤ r / 2 ^ target.exponent ∧
      r / 2 ^ target.exponent ≤ target.mantissa + 1 / 2 ∧
      (target.mantissa % 2 = 1 → (target.mantissa : ℚ) - 1 / 2 < r / 2 ^ target.exponent ∧
        r / 2 ^ target.exponent < target.mantissa + 1 / 2) := by
  have hquarter := two_zpow_pos (target.exponent - 2)
  have hlow := Magnitude.low_ge hpos
  rw [two_zpow_quarter target.exponent]
  refine ⟨?_, ?_, fun hodd => ⟨?_, ?_⟩⟩
  · rw [le_div_iff₀ (by linarith)]
    have hbound := h.low
    nlinarith
  · rw [div_le_iff₀ (by linarith)]
    have hbound := h.high
    rw [Magnitude.high_eq] at hbound
    linarith
  · rw [lt_div_iff₀ (by linarith)]
    have hbound := (h.odd hodd).1
    nlinarith
  · rw [div_lt_iff₀ (by linarith)]
    have hbound := (h.odd hodd).2
    rw [Magnitude.high_eq] at hbound
    linarith

/-- Below a power of two, a number of its interval is at least the power less a quarter of a unit. -/
theorem Magnitude.Covers.near_power (h : target.Covers r) (hm : target.mantissa = 2 ^ 52)
    (he : -1074 < target.exponent) : (2 ^ 53 : ℚ) - 1 / 2 ≤ r / 2 ^ (target.exponent - 1) := by
  have hquarter := two_zpow_pos (target.exponent - 2)
  have hhalf : (2 : ℚ) ^ (target.exponent - 1) = 2 * 2 ^ (target.exponent - 2) := by
    have hsum := two_zpow_add 1 (target.exponent - 2)
    have hexponent : 1 + (target.exponent - 2) = target.exponent - 1 := by omega
    rwa [hexponent, zpow_one] at hsum
  have hlow := h.low
  rw [Magnitude.low_eq_of_power hm he] at hlow
  rw [hhalf, le_div_iff₀ (by linarith)]
  linarith

/-- A number below a power of two is less than `2 ^ 53` units of the next place. -/
theorem div_lt_power {e : Int} (h : r < 2 ^ (52 + e)) : r / 2 ^ (e - 1) < 2 ^ 53 := by
  have hsum := two_zpow_add 53 (e - 1)
  have hexponent : 53 + (e - 1) = 52 + e := by omega
  rw [hexponent] at hsum
  rw [div_lt_iff₀ (two_zpow_pos _)]
  rw [hsum] at h
  exact h

/-- The binary places of a number in the interval of a magnitude end where those of the magnitude do, or
further behind. -/
theorem Magnitude.Covers.place_le (h : target.Covers r) (hcanonical : target.Canonical) {t : Int}
    (hlow : 2 ^ (t - 1) ≤ r) : t - 53 ≤ target.exponent := by
  have hlt := hlow.trans_lt (h.lt_power hcanonical.mantissa_lt)
  rw [two_zpow_lt] at hlt
  push_cast at hlt
  omega

/-- A number in the interval of a magnitude with 53 bits has 52 bits before the last place. -/
theorem Magnitude.Covers.power_lt (h : target.Covers r) (hnormal : 2 ^ 52 ≤ target.mantissa) :
    2 ^ (51 + target.exponent) < r := by
  have hunit := two_zpow_pos target.exponent
  obtain ⟨hnear, -, -⟩ := h.near (by omega)
  rw [le_div_iff₀ hunit] at hnear
  have hmantissa : (2 ^ 52 : ℚ) ≤ target.mantissa := by exact_mod_cast hnormal
  have hpower : (2 : ℚ) ^ (51 + target.exponent) = 2 ^ 51 * 2 ^ target.exponent := by
    rw [two_zpow_add]
    norm_num
  rw [hpower]
  nlinarith

/-- It has fewer than 53 only if it is below a power of two that is the magnitude. -/
theorem Magnitude.Covers.mantissa_eq (h : target.Covers r) (hnormal : 2 ^ 52 ≤ target.mantissa)
    (hless : r < 2 ^ (52 + target.exponent)) : target.mantissa = 2 ^ 52 := by
  refine Nat.le_antisymm ?_ hnormal
  by_contra hmore
  have hunit := two_zpow_pos target.exponent
  obtain ⟨hnear, -, -⟩ := h.near (by omega)
  rw [le_div_iff₀ hunit] at hnear
  have hnext : 2 ^ 52 + 1 ≤ target.mantissa := by omega
  have hmantissa : (2 ^ 52 : ℚ) + 1 ≤ target.mantissa := by exact_mod_cast hnext
  have hpower : (2 : ℚ) ^ (52 + target.exponent) = 2 ^ 52 * 2 ^ target.exponent := by
    rw [two_zpow_add]
    norm_num
  rw [hpower] at hless
  nlinarith

/-- The last place of a number in the interval of a magnitude is that of the magnitude, or, for a number
below a power of two, the next one. -/
theorem Magnitude.Covers.targetExponent (h : target.Covers r) (hcanonical : target.Canonical) {t : Int}
    (hhigh : r < 2 ^ t) (hlow : t < -1021 ∨ 2 ^ (t - 1) ≤ r) :
    Format.binary64.targetExponent t = target.exponent ∨
      (target.mantissa = 2 ^ 52 ∧ -1074 < target.exponent ∧ r < 2 ^ (52 + target.exponent) ∧
        Format.binary64.targetExponent t = target.exponent - 1) := by
  have hle := hcanonical.least_le
  rw [targetExponent_binary64]
  by_cases hleast : target.exponent = -1074
  · left
    rcases hlow with hlow | hlow
    · omega
    · have hplace := h.place_le hcanonical hlow
      omega
  · have hnormal : 2 ^ 52 ≤ target.mantissa := by
      by_contra hsub
      exact hleast (hcanonical.subnormal (by omega))
    -- so far below the least normal magnitude there is no number of the interval
    have habove : 51 + target.exponent < t := two_zpow_lt.1 ((h.power_lt hnormal).trans hhigh)
    have hread : 2 ^ (t - 1) ≤ r := by
      rcases hlow with hlow | hlow
      · omega
      · exact hlow
    have hplace := h.place_le hcanonical hread
    rcases lt_or_ge r (2 ^ (52 + target.exponent)) with hless | hpower
    · right
      have hlt := two_zpow_lt.1 (hread.trans_lt hless)
      exact ⟨h.mantissa_eq hnormal hless, by omega, hless, by omega⟩
    · left
      have hlt := two_zpow_lt.1 (hpower.trans_lt hhigh)
      omega

end Target

/-! ## Rounding -/

theorem finite_congr {s t : Sign} {m n : Nat} {e f : Int} {hm : 0 < m} {hn : 0 < n} (hsign : s = t)
    (hmantissa : m = n) (hexponent : e = f) : UnpackedFloat.finite s m e hm = .finite t n f hn := by
  subst hsign hmantissa hexponent
  rfl

theorem shiftToExponent_of_le {m : Nat} {e t : Int} {acc : Accuracy} (h : e ≤ t) :
    shiftToExponent m e acc t = (ExtendedMantissa.ofMantissaAndAccuracy m acc >>> (t - e).toNat, t) := by
  have hsum : e + ((t - e).toNat : Int) = t := by omega
  simp only [shiftToExponent, hsum]

/-- A mantissa in its place stays there. -/
theorem shift_canonical {target : Magnitude} (h : target.Canonical) :
    shiftToTargetExponent Format.binary64 target.mantissa target.exponent .exact =
      (.ofMantissaAndAccuracy target.mantissa .exact, target.exponent) := by
  have hpos := h.mantissa_pos
  have htarget : Format.binary64.targetExponent (totalExponent target.mantissa target.exponent) =
      target.exponent := by
    have hle := h.least_le
    rw [targetExponent_binary64, totalExponent]
    have hlog : target.mantissa.log2 < 53 := (Nat.log2_lt hpos.ne').2 h.mantissa_lt
    by_cases hnormal : 2 ^ 52 ≤ target.mantissa
    · have hlog' : 52 ≤ target.mantissa.log2 := (Nat.le_log2 hpos.ne').2 hnormal
      omega
    · have hleast := h.subnormal (by omega)
      have hlog' : target.mantissa.log2 < 52 := (Nat.log2_lt hpos.ne').2 (by omega)
      omega
  rw [shiftToTargetExponent, htarget, shiftToExponent_of_le le_rfl, Int.sub_self]
  rfl

/-- A mantissa that was rounded up to the next power of two is moved back into its place. -/
theorem shift_power {e : Int} (h : -1074 < e) :
    shiftToTargetExponent Format.binary64 (2 ^ 53) (e - 1) .exact =
      (⟨2 ^ 52, false, false⟩, e) := by
  have htarget : Format.binary64.targetExponent (totalExponent (2 ^ 53) (e - 1)) = e := by
    rw [targetExponent_binary64, totalExponent, Nat.log2_two_pow]
    push_cast
    omega
  have hone : (e - (e - 1)).toNat = 1 := by omega
  rw [shiftToTargetExponent, htarget, shiftToExponent_of_le (by omega), hone]
  rfl

/-- Shifting a mantissa to its last place cuts the number off there. -/
theorem Stands.shiftToTargetExponent {m : Nat} {e : Int} {acc : Accuracy} {x : ℚ}
    (h : Stands (.ofMantissaAndAccuracy m acc) x)
    (hfine : e ≤ Format.binary64.targetExponent (totalExponent m e)) :
    ∃ em, UnpackedFloat.shiftToTargetExponent Format.binary64 m e acc =
        (em, Format.binary64.targetExponent (totalExponent m e)) ∧
      Stands em (x * 2 ^ e / 2 ^ Format.binary64.targetExponent (totalExponent m e)) := by
  refine ⟨_, shiftToExponent_of_le hfine, ?_⟩
  generalize Format.binary64.targetExponent (totalExponent m e) = place at hfine
  have hscale : (2 : ℚ) ^ place = 2 ^ (place - e).toNat * 2 ^ e := by
    rw [← zpow_natCast, ← two_zpow_add]
    congr 1
    omega
  rw [hscale, mul_div_mul_right _ _ (two_zpow_pos e).ne']
  exact h.shiftRight (place - e).toNat

section Rounded

variable {m : Nat} {e : Int} {acc : Accuracy} {em : ExtendedMantissa} {target : Magnitude}

/-- A number that is rounded to a mantissa in its place. -/
theorem roundWithAccuracy_of_place (hcanonical : target.Canonical)
    (hshift : shiftToTargetExponent Format.binary64 m e acc = (em, target.exponent))
    (hrounded : em.roundedMantissa = target.mantissa) (s : Sign) :
    roundWithAccuracy Format.binary64 s m e acc =
      .finite s target.mantissa target.exponent hcanonical.mantissa_pos := by
  unfold roundWithAccuracy
  rw [hshift]
  dsimp only
  rw [hrounded, shift_canonical hcanonical]
  exact dif_neg hcanonical.mantissa_pos.ne'

/-- A number below a power of two that is rounded up to it on the finer grid. -/
theorem roundWithAccuracy_of_power (hcanonical : target.Canonical) (hpower : target.mantissa = 2 ^ 52)
    (hnotLeast : -1074 < target.exponent)
    (hshift : shiftToTargetExponent Format.binary64 m e acc = (em, target.exponent - 1))
    (hrounded : em.roundedMantissa = 2 ^ 53) (s : Sign) :
    roundWithAccuracy Format.binary64 s m e acc =
      .finite s target.mantissa target.exponent hcanonical.mantissa_pos := by
  unfold roundWithAccuracy
  rw [hshift]
  dsimp only
  rw [hrounded, shift_power hnotLeast]
  dsimp only
  rw [dif_neg (by norm_num)]
  exact finite_congr rfl hpower.symm rfl

end Rounded

/-- A number in the interval of a magnitude is rounded to this magnitude, from any mantissa and accuracy
that stand for it, if the mantissa has no fewer binary places than the magnitude. -/
theorem roundWithAccuracy_eq {m : Nat} {e : Int} {acc : Accuracy} {x : ℚ} {target : Magnitude}
    (hstands : Stands (.ofMantissaAndAccuracy m acc) x)
    (hfine : e ≤ Format.binary64.targetExponent (totalExponent m e)) (hcanonical : target.Canonical)
    (hcovers : target.Covers (x * 2 ^ e)) (s : Sign) :
    roundWithAccuracy Format.binary64 s m e acc =
      .finite s target.mantissa target.exponent hcanonical.mantissa_pos := by
  have hmantissa : (ExtendedMantissa.ofMantissaAndAccuracy m acc).mantissa = m := by
    unfold ExtendedMantissa.ofMantissaAndAccuracy
    split <;> rfl
  obtain ⟨hfloor, hceil⟩ := hstands.floor
  rw [hmantissa] at hfloor hceil
  obtain ⟨hhigh, hlow⟩ := totalExponent_bounds (e := e) hfloor hceil
  have hlow : totalExponent m e < -1021 ∨ 2 ^ (totalExponent m e - 1) ≤ x * 2 ^ e := by
    by_cases hzero : m = 0
    · left
      rw [targetExponent_binary64] at hfine
      simp only [hzero, totalExponent, Nat.log2_zero] at hfine ⊢
      omega
    · exact .inr (hlow hzero)
  -- the first shift cuts the number off at its last place
  obtain ⟨em, hshift, hcut⟩ := hstands.shiftToTargetExponent hfine
  rcases hcovers.targetExponent hcanonical hhigh hlow with hplace | ⟨hpower, hnotLeast, hbelow, hplace⟩
  · rw [hplace] at hshift hcut
    obtain ⟨hnearLow, hnearHigh, hodd⟩ := hcovers.near hcanonical.mantissa_pos
    have hrounded := hcut.roundedMantissa_eq hnearLow hnearHigh hodd
    exact roundWithAccuracy_of_place hcanonical hshift hrounded s
  · -- below a power of two the number is rounded up to it on the finer grid
    rw [hplace] at hshift hcut
    have hnear := hcovers.near_power hpower hnotLeast
    have hless := div_lt_power hbelow
    have hrounded : em.roundedMantissa = 2 ^ 53 := by
      apply hcut.roundedMantissa_eq
      · push_cast
        exact hnear
      · push_cast
        linarith
      · intro hodd
        omega
    exact roundWithAccuracy_of_power hcanonical hpower hnotLeast hshift hrounded s

end EvidenceGraph.Decimal
