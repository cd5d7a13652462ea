/-
# `EvidenceGraph.Proofs.Decimal.Order` — binary64 values stand in the order of their bits.

Below the sign the exponent field stands over the fraction field, so these bits count the magnitudes: from
zero over the subnormal and the normal ones up to infinity. Read as a number with the sign of the value they
are its level. Two values that are numbers compare as their levels do (`compare_unpack`), and both zeros
stand on the same level. The one NaN has a level, too, above that of infinity, but compares with nothing.
-/
import EvidenceGraph.Proofs.Decimal.Packing
import Mathlib

namespace EvidenceGraph.Decimal

open Float.Model Float.Model.UnpackedFloat

/-- The bits of a value below its sign, as a number with this sign. -/
def level (x : Float) : Int :=
  if signBit x then 2 ^ 63 - x.toBits.toNat else x.toBits.toNat

/-- The level of an unpacked number. A place of the exponent is as high as all fractions together, and the
leading bit of a mantissa counts as one more of them. -/
inductive OnLevel : UnpackedFloat → Int → Prop
  | zero (s : Sign) : OnLevel (.zero s) 0
  | finite (s : Sign) {m : Nat} {e : Int} (hm : 0 < m) :
      Magnitude.Canonical ⟨m, e⟩ → OnLevel (.finite s m e hm) (s.apply ((e + 1074) * 2 ^ 52 + m))
  | infinity (s : Sign) : OnLevel (.infinity s) (s.apply (2047 * 2 ^ 52))

/-! ## Comparing levels -/

/-- Finite magnitudes lie between zero and infinity. -/
theorem Magnitude.Canonical.level_bounds {m : Nat} {e : Int} (h : Magnitude.Canonical ⟨m, e⟩) :
    0 < (e + 1074) * 2 ^ 52 + m ∧ (e + 1074) * 2 ^ 52 + m < 2047 * 2 ^ 52 := by
  have hpos : 0 < m := h.mantissa_pos
  have hlt : m < 2 ^ 53 := h.mantissa_lt
  have hleast : -1074 ≤ e := h.least_le
  have hgreatest : e ≤ 971 := h.le_greatest
  omega

/-- Magnitudes are compared by their exponents first, because only those with the least one lack the leading
bit. -/
theorem compare_magnitudes {m n : Nat} {e f : Int} (hm : Magnitude.Canonical ⟨m, e⟩)
    (hn : Magnitude.Canonical ⟨n, f⟩) :
    (compare e f).then (compare m n) =
      compare ((e + 1074) * 2 ^ 52 + (m : Int)) ((f + 1074) * 2 ^ 52 + n) := by
  have hmlt : m < 2 ^ 53 := hm.mantissa_lt
  have hnlt : n < 2 ^ 53 := hn.mantissa_lt
  have hmleast : -1074 ≤ e := hm.least_le
  have hnleast : -1074 ≤ f := hn.least_le
  have hmsub : m < 2 ^ 52 → e = -1074 := hm.subnormal
  have hnsub : n < 2 ^ 52 → f = -1074 := hn.subnormal
  rcases Int.lt_trichotomy e f with hlt | rfl | hgt
  · rw [Int.compare_eq_lt.2 hlt, eq_comm]
    apply Int.compare_eq_lt.2
    omega
  · have hsame : compare e e = .eq := compare_eq_iff_eq.2 rfl
    rw [hsame, Ordering.then, Int.compare_eq_ite_lt, Nat.compare_eq_ite_lt]
    simp
  · rw [Int.compare_eq_gt.2 hgt, eq_comm]
    apply Int.compare_eq_gt.2
    omega

theorem swap_compare_neg (a b : Int) : (compare a b).swap = compare (-a) (-b) := by
  rw [Int.compare_swap, Int.compare_eq_ite_lt, Int.compare_eq_ite_lt]
  simp

theorem some_lt_eq_compare {a b : Int} (h : a < b) : some Ordering.lt = some (compare a b) := by
  rw [Int.compare_eq_lt.2 h]

theorem some_gt_eq_compare {a b : Int} (h : b < a) : some Ordering.gt = some (compare a b) := by
  rw [Int.compare_eq_gt.2 h]

/-- Finite numbers of one sign are compared by their magnitudes, and of two signs the negative one is less. -/
theorem compare_finite (s t : Sign) {m n : Nat} {e f : Int} (hmpos : 0 < m) (hnpos : 0 < n)
    (hm : Magnitude.Canonical ⟨m, e⟩) (hn : Magnitude.Canonical ⟨n, f⟩) :
    (finite s m e hmpos).compare (finite t n f hnpos) =
      some (compare (s.apply ((e + 1074) * 2 ^ 52 + m)) (t.apply ((f + 1074) * 2 ^ 52 + n))) := by
  have hmbounds := hm.level_bounds
  have hnbounds := hn.level_bounds
  have hmagnitudes := compare_magnitudes hm hn
  cases s <;> cases t
  · exact congrArg some ((congrArg Ordering.swap hmagnitudes).trans (swap_compare_neg _ _))
  · apply some_lt_eq_compare
    simp only [Sign.apply]
    omega
  · apply some_gt_eq_compare
    simp only [Sign.apply]
    omega
  · exact congrArg some hmagnitudes

/-- Comparing unpacked numbers is comparing their levels. -/
theorem compare_of_onLevel {u v : UnpackedFloat} {a b : Int} (hu : OnLevel u a) (hv : OnLevel v b) :
    u.compare v = some (compare a b) := by
  cases hu with
  | zero s =>
    cases hv with
    | zero t => rfl
    | infinity t => cases t <;> rfl
    | finite t _ hn =>
      have hbounds := hn.level_bounds
      cases t with
      | negative =>
        apply some_gt_eq_compare
        simp only [Sign.apply]
        omega
      | positive =>
        apply some_lt_eq_compare
        simp only [Sign.apply]
        omega
  | infinity s =>
    cases hv with
    | zero t => cases s <;> rfl
    | infinity t => cases s <;> cases t <;> rfl
    | finite t _ hn =>
      have hbounds := hn.level_bounds
      cases s with
      | negative =>
        apply some_lt_eq_compare
        cases t <;> simp only [Sign.apply] <;> omega
      | positive =>
        apply some_gt_eq_compare
        cases t <;> simp only [Sign.apply] <;> omega
  | finite s _ hm =>
    have hbounds := hm.level_bounds
    cases hv with
    | zero t =>
      cases s with
      | negative =>
        apply some_lt_eq_compare
        simp only [Sign.apply]
        omega
      | positive =>
        apply some_gt_eq_compare
        simp only [Sign.apply]
        omega
    | infinity t =>
      cases t with
      | negative =>
        apply some_gt_eq_compare
        cases s <;> simp only [Sign.apply] <;> omega
      | positive =>
        apply some_lt_eq_compare
        cases s <;> simp only [Sign.apply] <;> omega
    | finite t _ hn => exact compare_finite s t _ _ hm hn

/-! ## The level of a value -/

/-- Every value is put together from a sign, an exponent field and a fraction field. -/
theorem exists_components (x : Float) :
    ∃ (s : Sign) (e : BitVec 11) (f : BitVec 52),
      x.toBits.toBitVec = packComponents Format.binary64 s e f := by
  let b : BitVec 64 := x.toBits.toBitVec
  refine ⟨.ofBitVec (b.extractLsb' 63 1), b.extractLsb' 52 11, b.extractLsb' 0 52, ?_⟩
  have hsign : (Sign.ofBitVec (b.extractLsb' 63 1)).toBitVec = b.extractLsb' 63 1 := by
    generalize b.extractLsb' 63 1 = v
    revert v
    decide
  have hlow : b.extractLsb' 52 11 ++ b.extractLsb' 0 52 = b.extractLsb' 0 (11 + 52) :=
    BitVec.extractLsb'_append_extractLsb'_eq_extractLsb' rfl
  have hall : b.extractLsb' 63 1 ++ b.extractLsb' 0 (11 + 52) = b.extractLsb' 0 (1 + (11 + 52)) :=
    BitVec.extractLsb'_append_extractLsb'_eq_extractLsb' rfl
  show b = (Sign.ofBitVec (b.extractLsb' 63 1)).toBitVec ++ b.extractLsb' 52 11 ++ b.extractLsb' 0 52
  rw [hsign, BitVec.append_assoc, hlow, hall]
  exact BitVec.extractLsb'_eq_self.symm

theorem level_of_components {x : Float} {s : Sign} {e : BitVec 11} {f : BitVec 52}
    (h : x.toBits.toBitVec = packComponents Format.binary64 s e f) :
    level x = s.apply (e.toNat * 2 ^ 52 + f.toNat) := by
  have he := e.isLt
  have hf := f.isLt
  have hbits : x.toBits.toNat = s.toBitVec.toNat * 2 ^ 63 + e.toNat * 2 ^ 52 + f.toNat := by
    rw [← toNat_packComponents, ← h]
    rfl
  cases s with
  | negative =>
    have hbits : x.toBits.toNat = 2 ^ 63 + e.toNat * 2 ^ 52 + f.toNat := hbits
    have hnegative : signBit x = true := by
      simp only [signBit, decide_eq_true_eq]
      omega
    rw [level, if_pos hnegative, Sign.apply]
    omega
  | positive =>
    have hbits : x.toBits.toNat = e.toNat * 2 ^ 52 + f.toNat := by simpa [Sign.toBitVec] using hbits
    have hpositive : ¬ signBit x = true := by
      simp only [signBit, decide_eq_true_eq]
      omega
    rw [level, if_neg hpositive, Sign.apply]
    omega

theorem unpack_zero (s : Sign) :
    UnpackedFloat.unpack Format.binary64 (packComponents Format.binary64 s 0#11 0#52) = .zero s := by
  simp [UnpackedFloat.unpack, unpackExponent_packComponents, unpackMantissa_packComponents]

theorem unpack_infinity (s : Sign) :
    UnpackedFloat.unpack Format.binary64 (packComponents Format.binary64 s (-1#11) 0#52) = .infinity s := by
  simp [UnpackedFloat.unpack, unpackExponent_packComponents, unpackMantissa_packComponents]

theorem unpack_notANumber (s : Sign) {f : BitVec 52} (h : f ≠ 0#52) :
    UnpackedFloat.unpack Format.binary64 (packComponents Format.binary64 s (-1#11) f) = .notANumber := by
  simp [UnpackedFloat.unpack, unpackExponent_packComponents, unpackMantissa_packComponents, h]

/-- A value that is a number stands on its level. -/
theorem onLevel_level {x : Float} (h : x.isNaN = false) : OnLevel x.toModel.unpack (level x) := by
  obtain ⟨s, e, f, hbits⟩ := exists_components x
  have hunpack : x.toModel.unpack =
      UnpackedFloat.unpack Format.binary64 (packComponents Format.binary64 s e f) := by
    rw [← hbits]
    rfl
  have hnumber : x.toModel.unpack.isNaN = false := h
  have hfraction : f.toNat < 2 ^ 52 := f.isLt
  rw [hunpack] at hnumber ⊢
  rw [level_of_components hbits]
  by_cases hspecial : e = -1#11
  · subst hspecial
    by_cases hnone : f = 0#52
    · subst hnone
      rw [unpack_infinity]
      exact .infinity s
    · rw [unpack_notANumber s hnone] at hnumber
      cases hnumber
  by_cases hzero : e = 0#11
  · subst hzero
    by_cases hnone : f = 0#52
    · subst hnone
      rw [unpack_zero]
      have hlevel : s.apply ((0#11).toNat * 2 ^ 52 + (0#52).toNat) = 0 := by
        cases s <;> simp [Sign.apply]
      rw [hlevel]
      exact .zero s
    · -- a subnormal magnitude, with the least exponent
      have hpos : 0 < f.toNat := by
        apply Nat.pos_of_ne_zero
        intro hf
        exact hnone (BitVec.eq_of_toNat_eq hf)
      rw [unpack_subnormal hpos rfl]
      have hcanonical : Magnitude.Canonical ⟨f.toNat, -1074⟩ := by
        constructor <;> dsimp only <;> omega
      simpa using OnLevel.finite s hpos hcanonical
  · have hfield : 0 < e.toNat ∧ e.toNat < 2047 := by
      have hlt := e.isLt
      have hne : e.toNat ≠ 0 := fun he => hzero (BitVec.eq_of_toNat_eq he)
      have hne' : e.toNat ≠ 2047 := fun he => hspecial (BitVec.eq_of_toNat_eq he)
      omega
    have hpos : 0 < 2 ^ 52 + f.toNat := by omega
    rw [unpack_normal hpos hzero hspecial rfl]
    have hcanonical : Magnitude.Canonical ⟨2 ^ 52 + f.toNat, e.toNat - 1075⟩ := by
      constructor <;> dsimp only <;> omega
    have hlevel : ((e.toNat : Int) - 1075 + 1074) * 2 ^ 52 + (2 ^ 52 + f.toNat : Nat) =
        e.toNat * 2 ^ 52 + f.toNat := by
      push_cast
      ring
    rw [← hlevel]
    exact .finite s hpos hcanonical

/-! ## The order of values -/

/-- Comparing two values that are numbers is comparing their levels. -/
theorem compare_unpack {x y : Float} (hx : x.isNaN = false) (hy : y.isNaN = false) :
    x.toModel.unpack.compare y.toModel.unpack = some (compare (level x) (level y)) :=
  compare_of_onLevel (onLevel_level hx) (onLevel_level hy)

theorem isNaN_unpacked_iff {u : UnpackedFloat} : u.isNaN = true ↔ u = .notANumber := by
  cases u <;> simp [UnpackedFloat.isNaN]

/-- What is not a number compares with nothing. -/
theorem compare_unpack_of_isNaN {x y : Float} (h : x.isNaN = true ∨ y.isNaN = true) :
    x.toModel.unpack.compare y.toModel.unpack = none := by
  rcases h with hx | hy
  · rw [isNaN_unpacked_iff.1 hx]
    rfl
  · rw [isNaN_unpacked_iff.1 hy]
    cases x.toModel.unpack <;> rfl

theorem compare_unpack_eq_some {x y : Float} {o : Ordering} :
    x.toModel.unpack.compare y.toModel.unpack = some o ↔
      x.isNaN = false ∧ y.isNaN = false ∧ compare (level x) (level y) = o := by
  cases hx : x.isNaN with
  | true => simp [compare_unpack_of_isNaN (.inl hx)]
  | false =>
    cases hy : y.isNaN with
    | true => simp [compare_unpack_of_isNaN (.inr hy)]
    | false => simp [compare_unpack hx hy]

theorem lt_iff_level {x y : Float} : x < y ↔ x.isNaN = false ∧ y.isNaN = false ∧ level x < level y := by
  have hcompare : x < y ↔ x.toModel.unpack.compare y.toModel.unpack = some .lt := by
    show Float.lt x y = true ↔ _
    rw [Float.lt, decide_eq_true_iff]
    exact beq_iff_eq
  rw [hcompare, compare_unpack_eq_some, Int.compare_eq_lt]

theorem le_iff_level {x y : Float} : x ≤ y ↔ x.isNaN = false ∧ y.isNaN = false ∧ level x ≤ level y := by
  have hcompare : x ≤ y ↔ (x.toModel.unpack.compare y.toModel.unpack).any Ordering.isLE := by
    show Float.le x y = true ↔ _
    rw [Float.le, decide_eq_true_iff]
    exact Iff.rfl
  rw [hcompare]
  cases hx : x.isNaN with
  | true => simp [compare_unpack_of_isNaN (.inl hx)]
  | false =>
    cases hy : y.isNaN with
    | true => simp [compare_unpack_of_isNaN (.inr hy)]
    | false => simp [compare_unpack hx hy, Int.isLE_compare]

/-- Of two values that are numbers the second is at most the first unless the first is less. -/
theorem not_lt_iff_le {x y : Float} (hx : x.isNaN = false) (hy : y.isNaN = false) : ¬ x < y ↔ y ≤ x := by
  rw [lt_iff_level, le_iff_level]
  simp only [hx, hy, true_and, Int.not_lt]

theorem beq_iff_level {x y : Float} :
    (x == y) = true ↔ x.isNaN = false ∧ y.isNaN = false ∧ level x = level y := by
  have hcompare : (x == y) = true ↔ x.toModel.unpack.compare y.toModel.unpack = some .eq := by
    show UnpackedFloat.beq _ _ = true ↔ _
    exact beq_iff_eq
  rw [hcompare, compare_unpack_eq_some, Int.compare_eq_eq]

/-- No number stands above infinity. -/
theorem OnLevel.le {u : UnpackedFloat} {a : Int} (h : OnLevel u a) : a ≤ 2047 * 2 ^ 52 := by
  cases h with
  | zero s => norm_num
  | infinity s => cases s <;> norm_num [Sign.apply]
  | finite s _ hm =>
    have hbounds := hm.level_bounds
    cases s <;> simp only [Sign.apply] <;> omega

theorem fields_of_notANumber {b : BitVec Format.binary64.numBits}
    (h : UnpackedFloat.unpack Format.binary64 b = .notANumber) :
    unpackExponent b = -1#11 ∧ unpackMantissa b ≠ 0#52 := by
  unfold UnpackedFloat.unpack at h
  grind

/-- There is one NaN only. -/
theorem level_of_isNaN {x : Float} (h : x.isNaN = true) : level x = 0x7FF8000000000000 := by
  obtain ⟨hexponent, hmantissa⟩ := fields_of_notANumber (isNaN_unpacked_iff.1 h)
  exact level_of_components (x.toModel.valid.eq_packedNaN hexponent hmantissa)

/-- Numbers stand below the NaN. -/
theorem level_lt_of_isNaN {x y : Float} (hx : x.isNaN = false) (hy : y.isNaN = true) :
    level x < level y := by
  have hle := (onLevel_level hx).le
  rw [level_of_isNaN hy]
  omega

end EvidenceGraph.Decimal
