/-
# `EvidenceGraph.Proofs.Decimal.Packing` — magnitudes and the bits of binary64 values.

The sign, the exponent field and the fraction field are the bits of a value, so packing its sign and its
magnitude gives the value back (`pack_magnitude`), and unpacking what was packed gives the magnitude back
(`unpack_pack`). Both are about canonical magnitudes, and those of finite values are canonical.
-/
import EvidenceGraph.Proofs.Decimal.Rounding

namespace EvidenceGraph.Decimal

open Float.Model Float.Model.UnpackedFloat

/-- The finite binary64 value with the given sign and magnitude. -/
def pack (s : Sign) (m : Magnitude) (h : m.Canonical) : Float :=
  .ofModel (Float.Model.pack (.finite s m.mantissa m.exponent h.mantissa_pos))

/-- The sign of a binary64 value. -/
def signOf (x : Float) : Sign := if signBit x then .negative else .positive

/-! ## The fields of a value -/

theorem toNat_packComponents (s : Sign) (e : BitVec 11) (m : BitVec 52) :
    (packComponents Format.binary64 s e m).toNat =
      s.toBitVec.toNat * 2 ^ 63 + e.toNat * 2 ^ 52 + m.toNat := by
  have hm := m.isLt
  have he := e.isLt
  show ((s.toBitVec ++ e ++ m : BitVec (1 + 11 + 52))).toNat = _
  rw [BitVec.toNat_append, BitVec.toNat_append, ← Nat.shiftLeft_add_eq_or_of_lt he,
    ← Nat.shiftLeft_add_eq_or_of_lt hm]
  simp only [Nat.shiftLeft_eq]
  omega

/-- The number of an exponent field: zero marks the subnormal magnitudes. -/
def Magnitude.field (m : Magnitude) : Nat :=
  if m.mantissa < 2 ^ 52 then 0 else (m.exponent + 1075).toNat

theorem Magnitude.Canonical.field_lt {m : Magnitude} (h : m.Canonical) : m.field < 2047 := by
  have hle := h.le_greatest
  unfold Magnitude.field
  split <;> omega

theorem pack_finite {m : Magnitude} (h : m.Canonical) (s : Sign) :
    UnpackedFloat.pack Format.binary64 (.finite s m.mantissa m.exponent h.mantissa_pos) =
      packComponents Format.binary64 s (BitVec.ofNat 11 m.field) (BitVec.ofNat 52 m.mantissa) := by
  have hpos := h.mantissa_pos
  have hleast := h.least_le
  have hgreatest := h.le_greatest
  have hbiased : (m.exponent + (Format.binary64.exponentBias : Int) +
      (Format.binary64.mantissaBitsWithoutImplicit : Int)).toNat = (m.exponent + 1075).toNat := by
    have hbias : Format.binary64.exponentBias = 1023 := rfl
    have hbits : Format.binary64.mantissaBitsWithoutImplicit = 52 := rfl
    rw [hbias, hbits]
    omega
  have hsmall : ¬ 2 ^ Format.binary64.exponentBits ≤ (m.exponent + 1075).toNat + 1 := by
    have hbits : (2 : Nat) ^ Format.binary64.exponentBits = 2048 := rfl
    rw [hbits]
    omega
  unfold UnpackedFloat.pack
  dsimp only
  rw [hbiased, if_neg hsmall]
  have hbits : Format.binary64.mantissaBits = 53 := rfl
  by_cases hnormal : m.mantissa < 2 ^ 52
  · have hlog : m.mantissa.log2 < 52 := (Nat.log2_lt hpos.ne').2 hnormal
    rw [if_neg (by omega), Magnitude.field, if_pos hnormal]
  · have hlow : 52 ≤ m.mantissa.log2 := (Nat.le_log2 hpos.ne').2 (by omega)
    have hhigh : m.mantissa.log2 < 53 := (Nat.log2_lt hpos.ne').2 h.mantissa_lt
    rw [if_pos (by omega), Magnitude.field, if_neg hnormal]

theorem toNat_toBits_pack {m : Magnitude} (h : m.Canonical) (s : Sign) :
    (pack s m h).toBits.toNat = s.toBitVec.toNat * 2 ^ 63 + m.field * 2 ^ 52 + m.mantissa % 2 ^ 52 := by
  have hfield := h.field_lt
  show (UnpackedFloat.pack Format.binary64 _).toNat = _
  rw [pack_finite h, toNat_packComponents, BitVec.toNat_ofNat, BitVec.toNat_ofNat,
    Nat.mod_eq_of_lt (a := m.field) (by omega)]

/-! ## Values from their magnitudes -/

theorem toBits_injective {x y : Float} (h : x.toBits.toNat = y.toBits.toNat) : x = y := by
  obtain ⟨⟨a, ha⟩⟩ := x
  obtain ⟨⟨b, hb⟩⟩ := y
  obtain rfl : a = b := UInt64.toNat_inj.1 h
  rfl

theorem magnitude_canonical {x : Float} (hfinite : isFinite x) (hne : (magnitude x).mantissa ≠ 0) :
    (magnitude x).Canonical := by
  have hfield : exponentField x < 2048 := Nat.mod_lt _ (by norm_num)
  have hspecial : exponentField x ≠ 2047 := by simpa [isFinite] using hfinite
  have hfraction : fractionField x < 2 ^ 52 := Nat.mod_lt _ (by norm_num [leadingBit])
  have hleading : leadingBit = 2 ^ 52 := rfl
  unfold magnitude at hne ⊢
  split at hne
  · next hzero =>
    rw [if_pos hzero]
    exact ⟨Nat.pos_of_ne_zero hne, by show fractionField x < _; omega, le_rfl, by norm_num, fun _ => rfl⟩
  · next hnormal =>
    rw [if_neg hnormal]
    refine ⟨Nat.pos_of_ne_zero hne, ?_, ?_, ?_, fun hsub => ?_⟩
    · show leadingBit + fractionField x < _
      omega
    · show -1074 ≤ (exponentField x : Int) - 1075
      omega
    · show (exponentField x : Int) - 1075 ≤ 971
      omega
    · have hsub : leadingBit + fractionField x < 2 ^ 52 := hsub
      omega

/-- A finite value other than zero is its sign and its magnitude. -/
theorem pack_magnitude {x : Float} (h : (magnitude x).Canonical) : pack (signOf x) (magnitude x) h = x := by
  apply toBits_injective
  rw [toNat_toBits_pack]
  have hbits : x.toBits.toNat < 2 ^ 64 := x.toBits.toNat_lt
  have hsign : (signOf x).toBitVec.toNat = x.toBits.toNat / 2 ^ 63 := by
    unfold signOf signBit
    split
    · next hnegative =>
      have hhigh : (0x8000000000000000 : Nat) ≤ x.toBits.toNat := by simpa using hnegative
      show 1 = _
      omega
    · next hpositive =>
      have hlow : ¬ (0x8000000000000000 : Nat) ≤ x.toBits.toNat := by simpa using hpositive
      show 0 = _
      omega
  have hfield : (magnitude x).field = x.toBits.toNat / 2 ^ 52 % 2048 ∧
      (magnitude x).mantissa % 2 ^ 52 = x.toBits.toNat % 2 ^ 52 := by
    have hfraction : fractionField x = x.toBits.toNat % 2 ^ 52 := rfl
    have hexponent : exponentField x = x.toBits.toNat / 2 ^ 52 % 2048 := rfl
    have hleading : leadingBit = 2 ^ 52 := rfl
    unfold Magnitude.field magnitude
    split
    · next hzero =>
      rw [if_pos (by show fractionField x < _; omega)]
      exact ⟨by omega, by show fractionField x % _ = _; omega⟩
    · next hnormal =>
      rw [if_neg (by show ¬ leadingBit + fractionField x < _; omega)]
      refine ⟨?_, by show (leadingBit + fractionField x) % _ = _; omega⟩
      show ((exponentField x : Int) - 1075 + 1075).toNat = _
      omega
  rw [hsign, hfield.1, hfield.2]
  omega

/-- A value that is not negative is its magnitude. -/
theorem pack_positive {x : Float} {m : Magnitude} (hmagnitude : magnitude x = m) (hsign : signBit x = false)
    (h : m.Canonical) : pack .positive m h = x := by
  subst hmagnitude
  have hpositive : signOf x = .positive := by simp [signOf, hsign]
  rw [← hpositive, pack_magnitude]

/-! ## Unpacking -/

theorem unpackSign_packComponents (s : Sign) (e : BitVec 11) (m : BitVec 52) :
    Sign.ofBitVec (unpackSign (packComponents Format.binary64 s e m)) = s := by
  have hsign : unpackSign (packComponents Format.binary64 s e m) = s.toBitVec := by
    show (s.toBitVec ++ e ++ m).extractLsb' 63 1 = s.toBitVec
    rw [BitVec.extractLsb'_append_eq_of_le (by decide), BitVec.extractLsb'_append_eq_of_le (by decide)]
    exact BitVec.extractLsb'_eq_self
  rw [hsign]
  cases s <;> rfl

/-- Bits with a zero exponent field and some fraction are a value without the leading bit. -/
theorem unpack_subnormal {s : Sign} {f : BitVec 52} {n : Nat} (hn : 0 < n) (hfraction : f.toNat = n) :
    UnpackedFloat.unpack Format.binary64 (packComponents Format.binary64 s 0#11 f) =
      .finite s n (-1074) hn := by
  have hsome : f ≠ 0#52 := by
    rintro rfl
    exact hn.ne hfraction
  unfold UnpackedFloat.unpack
  dsimp only
  rw [if_neg (by rw [unpackExponent_packComponents]; decide), if_pos unpackExponent_packComponents,
    dif_neg (by rwa [unpackMantissa_packComponents])]
  apply finite_congr
  · exact unpackSign_packComponents s _ _
  · rw [unpackMantissa_packComponents, hfraction]
  · rw [unpackExponent_packComponents]
    rfl

/-- Bits with any other exponent field, but that of values that are not finite, have the leading bit. -/
theorem unpack_normal {s : Sign} {e : BitVec 11} {f : BitVec 52} {n : Nat} (hn : 0 < n)
    (hnormal : e ≠ 0#11) (hfinite : e ≠ -1#11) (hmantissa : 2 ^ 52 + f.toNat = n) :
    UnpackedFloat.unpack Format.binary64 (packComponents Format.binary64 s e f) =
      .finite s n (e.toNat - 1075) hn := by
  unfold UnpackedFloat.unpack
  dsimp only
  rw [if_neg (by rwa [unpackExponent_packComponents]), if_neg (by rwa [unpackExponent_packComponents])]
  apply finite_congr
  · exact unpackSign_packComponents s _ _
  · rw [unpackMantissa_packComponents]
    show (1#1 ++ f : BitVec (1 + 52)).toNat = _
    have hleading : (1#1).toNat <<< 52 = 2 ^ 52 := rfl
    rw [BitVec.toNat_append, ← Nat.shiftLeft_add_eq_or_of_lt (BitVec.isLt _), hleading, hmantissa]
  · rw [unpackExponent_packComponents]
    rfl

/-- Unpacking a packed magnitude gives it back. -/
theorem unpack_pack {m : Magnitude} (h : m.Canonical) (s : Sign) :
    (pack s m h).toModel.unpack = .finite s m.mantissa m.exponent h.mantissa_pos := by
  have hfield := h.field_lt
  have hlt := h.mantissa_lt
  have hleast := h.least_le
  show UnpackedFloat.unpack Format.binary64 (UnpackedFloat.pack Format.binary64 _) = _
  rw [pack_finite h]
  have hexponent : (BitVec.ofNat 11 m.field).toNat = m.field := by
    rw [BitVec.toNat_ofNat, Nat.mod_eq_of_lt (by omega)]
  have hmantissa : (BitVec.ofNat 52 m.mantissa).toNat = m.mantissa % 2 ^ 52 := BitVec.toNat_ofNat ..
  by_cases hnormal : m.mantissa < 2 ^ 52
  · have hzero : m.field = 0 := if_pos hnormal
    have hfraction : (BitVec.ofNat 52 m.mantissa).toNat = m.mantissa := by
      rw [hmantissa, Nat.mod_eq_of_lt hnormal]
    rw [hzero, unpack_subnormal h.mantissa_pos hfraction]
    exact finite_congr rfl rfl (h.subnormal hnormal).symm
  · have hfieldEq : m.field = (m.exponent + 1075).toNat := if_neg hnormal
    have hother {e : BitVec 11} (he : e.toNat ≠ m.field) : BitVec.ofNat 11 m.field ≠ e := by
      rintro rfl
      exact he hexponent
    have hnotZero : (0#11).toNat ≠ m.field := by
      show 0 ≠ _
      omega
    have hnotSpecial : (-1#11).toNat ≠ m.field := by
      show 2047 ≠ _
      omega
    have hleading : 2 ^ 52 + (BitVec.ofNat 52 m.mantissa).toNat = m.mantissa := by omega
    rw [unpack_normal h.mantissa_pos (hother hnotZero) (hother hnotSpecial) hleading]
    apply finite_congr rfl rfl
    omega

/-- Changing the sign of a packed magnitude. -/
theorem neg_pack {m : Magnitude} (h : m.Canonical) : -pack .positive m h = pack .negative m h := by
  show Float.ofModel (Float.Model.pack (pack .positive m h).toModel.unpack.neg) = _
  rw [unpack_pack h]
  rfl

end EvidenceGraph.Decimal
