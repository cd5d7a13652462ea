/-
# `EvidenceGraph.Proofs.Decimal.Shortest` — the shortest decimal lies in the interval of its value.

The test for a decimal compares exact natural numbers; it says that the decimal is in the interval of the
magnitude (`contains_iff`). A grid of seventeen digits is finer than the interval is wide, so one of the two
neighbours of the value on it passes the test, and the search over coarser grids before it always ends with
a decimal of the interval: `shortest_covers`.
-/
import EvidenceGraph.Proofs.Decimal.Nearest

namespace EvidenceGraph.Decimal

variable {m : Magnitude}

/-! ## Comparisons on a common scale -/

/-- A power as a fraction of two natural numbers, one of which is one. -/
theorem zpow_mul_pow_toNat {b : ℚ} (hb : b ≠ 0) (e : Int) : b ^ e * b ^ (-e).toNat = b ^ e.toNat := by
  rw [← zpow_natCast, ← zpow_natCast, ← zpow_add₀ hb]
  congr 1
  omega

/-- The scale is a multiple of a quarter of the last binary place and of a step of the decimal grid. -/
theorem scale_eq (e p : Int) :
    ∃ c : ℚ, 0 < c ∧ ((scale e p).binary : ℚ) = 2 ^ (e - 2) * c ∧
      ((scale e p).decimal : ℚ) = 10 ^ p * c := by
  have htwo := zpow_mul_pow_toNat (b := 2) (by norm_num) (e - 2)
  have hten := zpow_mul_pow_toNat (b := 10) (by norm_num) p
  have hflip : -(e - 2) = 2 - e := by ring
  rw [hflip] at htwo
  refine ⟨2 ^ (2 - e).toNat * 10 ^ (-p).toNat, by positivity, ?_, ?_⟩
  · show ((2 ^ (e - 2).toNat * 10 ^ (-p).toNat : Nat) : ℚ) = _
    push_cast
    rw [← htwo]
    ring
  · show ((10 ^ p.toNat * 2 ^ (2 - e).toNat : Nat) : ℚ) = _
    push_cast
    rw [← hten]
    ring

section Scale

variable {e p : Int} {n d : Nat}

theorem scaled_le_decimal :
    n * (scale e p).binary ≤ d * (scale e p).decimal ↔ (n : ℚ) * 2 ^ (e - 2) ≤ d * 10 ^ p := by
  obtain ⟨c, hc, hbinary, hdecimal⟩ := scale_eq e p
  rw [← Nat.cast_le (α := ℚ), Nat.cast_mul, Nat.cast_mul, hbinary, hdecimal, ← mul_assoc, ← mul_assoc,
    mul_le_mul_iff_left₀ hc]

theorem decimal_le_scaled :
    d * (scale e p).decimal ≤ n * (scale e p).binary ↔ (d : ℚ) * 10 ^ p ≤ n * 2 ^ (e - 2) := by
  obtain ⟨c, hc, hbinary, hdecimal⟩ := scale_eq e p
  rw [← Nat.cast_le (α := ℚ), Nat.cast_mul, Nat.cast_mul, hbinary, hdecimal, ← mul_assoc, ← mul_assoc,
    mul_le_mul_iff_left₀ hc]

end Scale

/-- The test for a decimal says that the decimal is in the interval. -/
theorem contains_iff {p : Int} {d : Nat} : m.contains p d ↔ m.Covers (d * 10 ^ p) := by
  unfold Magnitude.contains Magnitude.Covers
  simp only
  split
  · rw [Bool.and_eq_true, decide_eq_true_iff, decide_eq_true_iff, scaled_le_decimal, decimal_le_scaled]
  · rw [Bool.and_eq_true, decide_eq_true_iff, decide_eq_true_iff, ← not_le, ← not_le, decimal_le_scaled,
      scaled_le_decimal, not_le, not_le]

theorem atLeastPower_iff {k : Int} : m.atLeastPower k ↔ (10 : ℚ) ^ k ≤ m.value := by
  have h := decimal_le_scaled (e := m.exponent) (p := k) (n := 4 * m.mantissa) (d := 1)
  rw [one_mul, Nat.cast_one, one_mul, ← Magnitude.value_eq_quarters] at h
  rw [← h]
  simp [Magnitude.atLeastPower]

/-! ## One grid -/

/-- A decimal found on a grid is in the interval. -/
theorem covers_of_onGrid {tie : Tie} {p : Int} {d : Nat} (h : m.onGrid? tie p = some d) :
    m.Covers (d * 10 ^ p) := by
  rw [← contains_iff]
  unfold Magnitude.onGrid? at h
  simp only at h
  split at h
  · next hbelow habove =>
    repeat' split at h
    all_goals cases h; assumption
  · next hbelow _ => cases h; exact hbelow
  · next _ habove => cases h; exact habove
  · cases h

/-- The last point of a grid that is not above the value. -/
def gridBelow (m : Magnitude) (p : Int) : Nat :=
  4 * m.mantissa * (scale m.exponent p).binary / (scale m.exponent p).decimal

theorem gridBelow_bounds (m : Magnitude) (p : Int) :
    (gridBelow m p : ℚ) * 10 ^ p ≤ m.value ∧ m.value < (gridBelow m p + 1 : Nat) * 10 ^ p := by
  have hpos : 0 < (scale m.exponent p).decimal :=
    Nat.mul_pos (Nat.pow_pos (by norm_num)) (Nat.pow_pos (by norm_num))
  rw [Magnitude.value_eq_quarters, ← decimal_le_scaled, ← not_le, ← decimal_le_scaled, not_le]
  exact ⟨Nat.div_mul_le_self _ _, (Nat.div_lt_iff_lt_mul hpos).1 (Nat.lt_succ_self _)⟩

/-- If one of the two neighbours of the value is in the interval, the grid has a decimal. -/
theorem onGrid_isSome {tie : Tie} {p : Int}
    (h : m.Covers (gridBelow m p * 10 ^ p) ∨ m.Covers ((gridBelow m p + 1 : Nat) * 10 ^ p)) :
    (m.onGrid? tie p).isSome := by
  rw [← contains_iff, ← contains_iff] at h
  unfold Magnitude.onGrid?
  simp only
  split
  · repeat' split
    all_goals rfl
  · rfl
  · rfl
  · next hbelow habove =>
    rcases h with h | h
    · rw [gridBelow, hbelow] at h
      cases h
    · rw [gridBelow, habove] at h
      cases h

/-- A decimal above the value by less than half a unit is in the interval. -/
theorem covers_of_above (hcanonical : m.Canonical) {r : ℚ} (hle : m.value ≤ r)
    (hnear : r < m.value + 2 * 2 ^ (m.exponent - 2)) : m.Covers r := by
  have hquarter := two_zpow_pos (m.exponent - 2)
  have hlow : (m.interval.low : ℚ) < (4 * m.mantissa : Nat) := by
    exact_mod_cast Magnitude.low_lt hcanonical.mantissa_pos
  have hvalue := Magnitude.value_eq_quarters (m := m)
  apply Magnitude.covers_of_lt
  · calc (m.interval.low : ℚ) * 2 ^ (m.exponent - 2)
        < (4 * m.mantissa : Nat) * 2 ^ (m.exponent - 2) := mul_lt_mul_of_pos_right hlow hquarter
      _ = m.value := hvalue.symm
      _ ≤ r := hle
  · rw [Magnitude.high_eq, add_mul]
    push_cast at hvalue
    rwa [hvalue] at hnear

/-- So is one below the value by less than half a unit, unless the value is a power of two. -/
theorem covers_of_below (hcanonical : m.Canonical) (hpower : m.mantissa ≠ 2 ^ 52) {r : ℚ} (hle : r ≤ m.value)
    (hnear : m.value - 2 * 2 ^ (m.exponent - 2) < r) : m.Covers r := by
  have hquarter := two_zpow_pos (m.exponent - 2)
  have hlow : (m.interval.low : ℚ) = 4 * m.mantissa - 2 := by
    have hpos := hcanonical.mantissa_pos
    have hnat : m.interval.low + 2 = 4 * m.mantissa := by
      have hleading : leadingBit = 2 ^ 52 := rfl
      simp only [Magnitude.interval, hleading, hpower, false_and, if_false]
      omega
    have hrat : (m.interval.low : ℚ) + 2 = 4 * m.mantissa := by exact_mod_cast hnat
    linarith
  have hvalue := Magnitude.value_eq_quarters (m := m)
  push_cast at hvalue
  apply Magnitude.covers_of_lt
  · rw [hlow, sub_mul, ← hvalue]
    exact hnear
  · rw [Magnitude.high_eq, add_mul, ← hvalue]
    linarith

/-- A grid on which the value has seventeen digits is fine enough. -/
theorem onGrid_isSome_of_fine {tie : Tie} {p : Int} (hcanonical : m.Canonical)
    (hfine : (10 : ℚ) ^ 16 * 10 ^ p ≤ m.value) : (m.onGrid? tie p).isSome := by
  obtain ⟨hbelow, habove⟩ := gridBelow_bounds m p
  apply onGrid_isSome
  have hquarter := two_zpow_pos (m.exponent - 2)
  have hvalue := Magnitude.value_eq_quarters (m := m)
  have hnext : ((gridBelow m p + 1 : Nat) : ℚ) * 10 ^ p = gridBelow m p * 10 ^ p + 10 ^ p := by
    push_cast
    ring
  rw [hnext] at habove ⊢
  push_cast at hvalue
  by_cases hpower : m.mantissa = 2 ^ 52
  · -- the step is less than half a unit, so the upper neighbour is near enough
    right
    refine covers_of_above hcanonical habove.le ?_
    have hmantissa : (m.mantissa : ℚ) = 2 ^ 52 := by exact_mod_cast hpower
    rw [hmantissa] at hvalue
    linarith
  · -- the step is less than a unit, so one of the neighbours is nearer than half a unit
    have hmantissa : (m.mantissa : ℚ) ≤ 2 ^ 53 := by exact_mod_cast hcanonical.mantissa_lt.le
    have hbound : m.value ≤ 4 * 2 ^ 53 * 2 ^ (m.exponent - 2) := by
      rw [hvalue]
      gcongr
    by_cases hnear : m.value - 2 * 2 ^ (m.exponent - 2) < gridBelow m p * 10 ^ p
    · exact .inl (covers_of_below hcanonical hpower hbelow hnear)
    · right
      refine covers_of_above hcanonical habove.le ?_
      linarith

/-! ## The leading digit -/

/-- The binary logarithm gives the decimal one, up to one. -/
theorem ten_zpow_guess_le {l : Int} (hlow : -1075 < l) (hhigh : l < 1024) :
    (10 : ℚ) ^ (l * 30103 / 100000 - 1) ≤ 2 ^ l := by
  rcases Int.le_total 0 l with hnonneg | hneg
  · obtain ⟨n, rfl⟩ := Int.eq_ofNat_of_zero_le hnonneg
    have hall : ∀ n < 1024, 10 ^ (n * 30103 / 100000) ≤ 10 * 2 ^ n := by decide +kernel
    have hnat := hall n (by omega)
    have hrat : (10 : ℚ) ^ (n * 30103 / 100000) ≤ 10 * 2 ^ n := by exact_mod_cast hnat
    have hexponent : (n : Int) * 30103 / 100000 - 1 = ((n * 30103 / 100000 : Nat) : Int) + (-1) := by
      omega
    rw [hexponent, ten_zpow_add, zpow_natCast, zpow_natCast, zpow_neg_one]
    linarith
  · obtain ⟨n, hn⟩ := Int.eq_ofNat_of_zero_le (Int.neg_nonneg_of_nonpos hneg)
    obtain rfl : l = -(n : Int) := by omega
    have hall : ∀ n < 1075, 2 ^ n ≤ 10 ^ ((n * 30103 + 99999) / 100000 + 1) := by decide +kernel
    have hnat := hall n (by omega)
    have hrat : (2 : ℚ) ^ n ≤ 10 ^ ((n * 30103 + 99999) / 100000 + 1) := by exact_mod_cast hnat
    have hexponent : -(n : Int) * 30103 / 100000 - 1 = -(((n * 30103 + 99999) / 100000 + 1 : Nat) : Int) := by
      omega
    rw [hexponent, zpow_neg, zpow_neg, zpow_natCast, zpow_natCast]
    exact inv_anti₀ (by positivity) hrat

theorem ten_zpow_leadingExponent_le (hcanonical : m.Canonical) :
    (10 : ℚ) ^ m.leadingExponent ≤ m.value := by
  have hpos := hcanonical.mantissa_pos
  have hleast := hcanonical.least_le
  have hgreatest := hcanonical.le_greatest
  have hlog : m.mantissa.log2 < 53 := (Nat.log2_lt hpos.ne').2 hcanonical.mantissa_lt
  unfold Magnitude.leadingExponent
  simp only
  split
  · next h => exact atLeastPower_iff.1 h
  · split
    · next h => exact atLeastPower_iff.1 h
    · refine (ten_zpow_guess_le (by omega) (by omega)).trans ?_
      have hnat : 2 ^ m.mantissa.log2 ≤ m.mantissa := Nat.log2_self_le hpos.ne'
      have hrat : (2 : ℚ) ^ m.mantissa.log2 ≤ m.mantissa := by exact_mod_cast hnat
      rw [two_zpow_add, zpow_natCast]
      exact mul_le_mul_of_nonneg_right hrat (two_zpow_pos _).le

/-! ## The search -/

/-- The number that decimal digits are. -/
def Digits.value (d : Digits) : ℚ := d.digits * 10 ^ d.exponent

/-- Trailing zeros are dropped for powers of ten. -/
theorem trimmed_value (fuel : Nat) (d : Digits) : (d.trimmed fuel).value = d.value := by
  induction fuel generalizing d with
  | zero => rfl
  | succ fuel ih =>
    unfold Digits.trimmed
    split
    · next hzero =>
      have hdigits : (d.digits : ℚ) = 10 * (d.digits / 10 : Nat) := by
        have hnat : d.digits = 10 * (d.digits / 10) := by omega
        exact_mod_cast hnat
      rw [ih, Digits.value, Digits.value, hdigits, ten_zpow_add, zpow_one]
      ring
    · rfl

/-- The shortest decimal of a magnitude is in its interval. -/
theorem shortest_covers (hcanonical : m.Canonical) (tie : Tie) : m.Covers (m.shortest tie).value := by
  unfold Magnitude.shortest
  rw [trimmed_value]
  generalize hfound : (List.range 17).findSome? (fun n : Nat =>
    (m.onGrid? tie (m.leadingExponent - n)).map fun d => Digits.mk d (m.leadingExponent - n)) = found
  cases found with
  | some d =>
    obtain ⟨n, -, hgrid⟩ := List.exists_of_findSome?_eq_some hfound
    obtain ⟨digits, hdigits, rfl⟩ := Option.map_eq_some_iff.1 hgrid
    exact covers_of_onGrid hdigits
  | none =>
    -- the last grid that is tried has a decimal
    have hlast := List.findSome?_eq_none_iff.1 hfound 16 (by simp)
    rw [Option.map_eq_none_iff] at hlast
    have hfine : (10 : ℚ) ^ 16 * 10 ^ (m.leadingExponent - (16 : Nat)) ≤ m.value := by
      have hsum := ten_zpow_add 16 (m.leadingExponent - (16 : Nat))
      have hexponent : 16 + (m.leadingExponent - (16 : Nat)) = m.leadingExponent := by omega
      rw [hexponent] at hsum
      have hle := ten_zpow_leadingExponent_le hcanonical
      rw [hsum] at hle
      exact hle
    have hsome : (m.onGrid? tie (m.leadingExponent - (16 : Nat))).isSome :=
      onGrid_isSome_of_fine hcanonical hfine
    rw [hlast] at hsome
    cases hsome

end EvidenceGraph.Decimal
