/-
# `EvidenceGraph.Proofs.Decimal.Written` — written binary64 values read back.

Digits are written with a point among them, with zeros behind or in front of them, or with an exponent; in
each case the text is read as a decimal number of the same value (`reads_writeDigits`), though not
always with the same digits. Together with what is known of the shortest decimal and of reading this gives
`readFloat_write`: every finite value is read back from its text, with its sign, also the two zeros, in each
style that writes a point and a zero behind whole numbers. So the text tells the value (`write_injective`).
Which texts in a query have a point in them is said by `point_mem_display`.
-/
import EvidenceGraph.Proofs.Decimal.Numerals
import EvidenceGraph.Proofs.Decimal.Shortest

namespace EvidenceGraph.Decimal

/-! ## Strings of digits -/

theorem digitsValue_append (start : Nat) (cs ds : List Char) :
    digitsValue start (cs ++ ds) = digitsValue (digitsValue start cs) ds := List.foldl_append

theorem digitsValue_zeros (start n : Nat) :
    digitsValue start (List.replicate n '0') = start * 10 ^ n := by
  induction n generalizing start with
  | zero => simp [digitsValue]
  | succ n ih =>
    have hstep : digitsValue start (List.replicate (n + 1) '0') =
        digitsValue (10 * start) (List.replicate n '0') := by
      simp [digitsValue, List.replicate_succ]
    rw [hstep, ih, pow_succ]
    ring

theorem digitsValue_toDigits (n : Nat) : digitsValue 0 (Nat.toDigits 10 n) = n :=
  Nat.ofDigitChars_ten_toDigits

theorem isDigit_zeros {n : Nat} {c : Char} (h : c ∈ List.replicate n '0') : c.isDigit := by
  rw [(List.mem_replicate.1 h).2]
  rfl

/-! ## Unsigned decimal words -/

/-- What follows the digits of a decimal word. -/
def EndsDigits (cs : List Char) : Prop := ∀ c ∈ cs.head?, c.isDigit = false

theorem endsDigits_nil : EndsDigits [] := nofun

/-- Characters of a class are cut off where the first other one stands. -/
theorem takeWhile_append_of_ends {p : Char → Bool} {word tail : List Char} (hword : ∀ c ∈ word, p c)
    (htail : ∀ c ∈ tail.head?, p c = false) :
    (word ++ tail).takeWhile p = word ∧ (word ++ tail).dropWhile p = tail := by
  rw [List.takeWhile_append_of_pos hword, List.dropWhile_append_of_pos hword]
  cases tail with
  | nil => simp
  | cons c cs => simp [htail c rfl]

section Unsigned

variable (negative : Bool) {whole fraction tail : List Char} {e : Int}

/-- A word without a point. -/
theorem unsignedScientific?_whole (hne : whole ≠ []) (hwhole : ∀ c ∈ whole, c.isDigit)
    (htail : EndsDigits tail) (hpoint : tail.head? ≠ some '.') (he : exponentPart? tail = some e) :
    unsignedScientific? negative (whole ++ tail) = some ⟨negative, digitsValue 0 whole, e⟩ := by
  obtain ⟨htake, hdrop⟩ := takeWhile_append_of_ends hwhole htail
  simp [unsignedScientific?, htake, hdrop, hpoint, he, hne]

/-- A word with a point. -/
theorem unsignedScientific?_point (hne : whole ≠ []) (hwhole : ∀ c ∈ whole, c.isDigit)
    (hfraction : ∀ c ∈ fraction, c.isDigit) (htail : EndsDigits tail) (he : exponentPart? tail = some e) :
    unsignedScientific? negative (whole ++ '.' :: (fraction ++ tail)) =
      some ⟨negative, digitsValue 0 (whole ++ fraction), e - fraction.length⟩ := by
  have hpoint : EndsDigits ('.' :: (fraction ++ tail)) := by
    intro c hc
    cases hc
    rfl
  obtain ⟨htake, hdrop⟩ := takeWhile_append_of_ends hwhole hpoint
  obtain ⟨htake', hdrop'⟩ := takeWhile_append_of_ends hfraction htail
  simp [unsignedScientific?, htake, hdrop, htake', hdrop', he, hne]

end Unsigned

/-! ## Written digits -/

/-- The magnitude of a decimal number. -/
def Scientific.value (s : Scientific) : ℚ := s.mantissa * 10 ^ s.exponent

/-- A text that is read as a decimal number of the value `r`, whatever its sign is. -/
def Reads (cs : List Char) (r : ℚ) : Prop :=
  ∀ negative, ∃ s, unsignedScientific? negative cs = some s ∧ s.negative = negative ∧ s.value = r

theorem isDigit_toDigits {n : Nat} {c : Char} (h : c ∈ Nat.toDigits 10 n) : c.isDigit :=
  Nat.isDigit_of_mem_toDigits (by norm_num) (by norm_num) h

/-- Digits, zeros behind them, a point and a zero. -/
theorem reads_whole (n zeros : Nat) :
    Reads (Nat.toDigits 10 n ++ List.replicate zeros '0' ++ ".0".toList) (n * 10 ^ zeros) := by
  intro negative
  have hdigits : ∀ c ∈ Nat.toDigits 10 n ++ List.replicate zeros '0', c.isDigit := by
    intro c hc
    rcases List.mem_append.1 hc with hc | hc
    · exact isDigit_toDigits hc
    · exact isDigit_zeros hc
  have hne : Nat.toDigits 10 n ++ List.replicate zeros '0' ≠ [] :=
    List.append_ne_nil_of_left_ne_nil Nat.toDigits_ne_nil _
  have hzero : ∀ c ∈ ['0'], c.isDigit := fun _ hc => isDigit_zeros (n := 1) hc
  refine ⟨_, unsignedScientific?_point negative hne hdigits hzero endsDigits_nil rfl, rfl, ?_⟩
  have hlast : digitsValue (n * 10 ^ zeros) ['0'] = n * 10 ^ zeros * 10 := digitsValue_zeros _ 1
  have hplace : (0 : Int) - (['0'].length : Nat) = -1 := rfl
  rw [Scientific.value, digitsValue_append, digitsValue_append, digitsValue_toDigits, digitsValue_zeros,
    hlast, hplace, zpow_neg_one]
  push_cast
  rw [mul_assoc _ (10 : ℚ), mul_inv_cancel₀ (by norm_num), mul_one]

/-- Digits with the point among them. -/
theorem reads_inside (n place : Nat) (hplace : 0 < place) (hinside : place < (Nat.toDigits 10 n).length) :
    Reads ((Nat.toDigits 10 n).take place ++ '.' :: (Nat.toDigits 10 n).drop place)
      (n * 10 ^ ((place : Int) - (Nat.toDigits 10 n).length)) := by
  intro negative
  have hne : (Nat.toDigits 10 n).take place ≠ [] := by
    rw [← List.length_pos_iff, List.length_take]
    omega
  have hwhole : ∀ c ∈ (Nat.toDigits 10 n).take place, c.isDigit :=
    fun c hc => isDigit_toDigits (List.mem_of_mem_take hc)
  have hfraction : ∀ c ∈ (Nat.toDigits 10 n).drop place, c.isDigit :=
    fun c hc => isDigit_toDigits (List.mem_of_mem_drop hc)
  have hread := unsignedScientific?_point negative hne hwhole hfraction endsDigits_nil rfl
  rw [List.append_nil] at hread
  refine ⟨_, hread, rfl, ?_⟩
  rw [Scientific.value, List.take_append_drop, digitsValue_toDigits, List.length_drop]
  congr 2
  show (0 : Int) - _ = _
  omega

/-- Digits behind a point, with zeros between. -/
theorem reads_outside (n zeros : Nat) :
    Reads ('0' :: '.' :: (List.replicate zeros '0' ++ Nat.toDigits 10 n))
      (n * 10 ^ (-(zeros + (Nat.toDigits 10 n).length : Nat) : Int)) := by
  intro negative
  have hfraction : ∀ c ∈ List.replicate zeros '0' ++ Nat.toDigits 10 n, c.isDigit := by
    intro c hc
    rcases List.mem_append.1 hc with hc | hc
    · exact isDigit_zeros hc
    · exact isDigit_toDigits hc
  have hzero : ∀ c ∈ ['0'], c.isDigit := fun _ hc => isDigit_zeros (n := 1) hc
  have hread := unsignedScientific?_point negative (List.cons_ne_nil '0' []) hzero hfraction endsDigits_nil rfl
  rw [List.append_nil] at hread
  refine ⟨_, hread, rfl, ?_⟩
  have hfirst : digitsValue 0 ['0'] = 0 := rfl
  rw [Scientific.value, digitsValue_append, digitsValue_append, hfirst, digitsValue_zeros, zero_mul,
    digitsValue_toDigits, List.length_append, List.length_replicate, zero_sub]

/-- Digits in positional notation, a point and a zero behind whole numbers. -/
theorem reads_positional (d : Digits) : Reads (d.positional ".0") d.value := by
  simp only [Digits.positional]
  split
  · next hwhole =>
    rw [Digits.value, ten_zpow_of_nonneg hwhole]
    exact reads_whole d.digits d.exponent.toNat
  · next hnegative =>
    generalize hlength : (Nat.toDigits 10 d.digits).length = length
    split
    · next hinside =>
      have hread := reads_inside d.digits (length - (-d.exponent).toNat) (by omega) (by omega)
      have hplaces : ((length - (-d.exponent).toNat : Nat) : Int) - length = d.exponent := by omega
      rwa [hlength, hplaces] at hread
    · next houtside =>
      have hread := reads_outside d.digits ((-d.exponent).toNat - length)
      have hplaces : -(((-d.exponent).toNat - length + length : Nat) : Int) = d.exponent := by omega
      rwa [hlength, hplaces] at hread

/-- A style whose finite values are read back: whole numbers end in a point and a zero, and a positive exponent
has a plus sign or none. -/
structure Style.Readable (style : Style) : Prop where
  wholeEnd : style.wholeEnd = ".0"
  positiveSign : style.positiveSign = "" ∨ style.positiveSign = "+"

theorem readable_displayStyle : displayStyle.Readable := ⟨rfl, .inl rfl⟩

theorem readable_jsonStyle : jsonStyle.Readable := ⟨rfl, .inr rfl⟩

/-- The exponent behind the digits, with a minus sign if it is negative. -/
theorem exponentPart?_eq {sign : String} (hsign : sign = "" ∨ sign = "+") (k : Int) :
    exponentPart? ('e' :: ((if k < 0 then ['-'] else sign.toList) ++ Nat.toDigits 10 k.natAbs)) = some k := by
  show (if 'e' = 'e' ∨ 'e' = 'E' then integer? _ else none) = some k
  rw [if_pos (.inl rfl)]
  cases k with
  | negSucc n =>
    rw [if_pos (Int.negSucc_lt_zero n)]
    exact integer?_writeInt (.negSucc n)
  | ofNat n =>
    have hnonneg : ¬ Int.ofNat n < 0 := Int.not_lt.2 (Int.natCast_nonneg n)
    rw [if_neg hnonneg]
    rcases hsign with rfl | rfl
    · exact integer?_writeInt n
    · show (natural? (writeNat n)).map Int.ofNat = _
      rw [natural?_writeNat]
      rfl

/-- Digits in exponent notation. -/
theorem reads_exponential {sign : String} (hsign : sign = "" ∨ sign = "+") (d : Digits) :
    Reads (d.exponential sign) d.value := by
  intro negative
  have hexponent := exponentPart?_eq hsign d.leadingExponent
  have hvalue := digitsValue_toDigits d.digits
  have hdigits (c : Char) (hc : c ∈ Nat.toDigits 10 d.digits) : c.isDigit := isDigit_toDigits hc
  have htail (cs : List Char) : EndsDigits ('e' :: cs) := by
    intro c hc
    cases hc
    rfl
  simp only [Digits.exponential]
  have hleading : d.leadingExponent = d.exponent + ((Nat.toDigits 10 d.digits).length - 1 : Nat) := rfl
  generalize d.leadingExponent = k at hexponent hleading ⊢
  cases hcs : Nat.toDigits 10 d.digits with
  | nil => exact absurd hcs Nat.toDigits_ne_nil
  | cons c cs =>
    rw [hcs] at hvalue hdigits hleading
    have hfirst : ∀ x ∈ [c], x.isDigit := by
      intro x hx
      rw [List.mem_singleton.1 hx]
      exact hdigits c List.mem_cons_self
    cases cs with
    | nil =>
      have hread := unsignedScientific?_whole negative (List.cons_ne_nil c []) hfirst (htail _) (by simp)
        hexponent
      refine ⟨_, hread, rfl, ?_⟩
      have hk : k = d.exponent := by simpa using hleading
      rw [Scientific.value, Digits.value, hvalue, hk]
    | cons b bs =>
      have hmore : ∀ x ∈ b :: bs, x.isDigit := fun x hx => hdigits x (List.mem_cons_of_mem c hx)
      have hread := unsignedScientific?_point negative (List.cons_ne_nil c []) hfirst hmore
        (htail _) hexponent
      refine ⟨_, hread, rfl, ?_⟩
      rw [Scientific.value, Digits.value, List.singleton_append, hvalue, hleading]
      congr 2
      simp

theorem reads_writeDigits {style : Style} (h : style.Readable) (d : Digits) :
    Reads (style.writeDigits d) d.value := by
  simp only [Style.writeDigits]
  split
  · rw [h.wholeEnd]
    exact reads_positional d
  · exact reads_exponential h.positiveSign d

/-! ## Binary64 values -/

/-- The digits that a finite value is written with. -/
def Style.digitsOf (style : Style) (x : Float) : Digits :=
  if (magnitude x).mantissa = 0 then ⟨0, 0⟩ else (magnitude x).shortest style.tie

/-- The digits that a finite value has in a query. -/
def shownDigits (x : Float) : Digits :=
  if (magnitude x).mantissa = 0 then ⟨0, 0⟩ else (magnitude x).shortest displayStyle.tie

theorem toList_write (style : Style) {x : Float} (hfinite : isFinite x) :
    (style.write x).toList = (if signBit x then ['-'] else []) ++ style.writeDigits (style.digitsOf x) := by
  rw [Style.write, if_pos hfinite, String.toList_ofList]
  rfl

/-- Without a sign a decimal word starts with a digit or the point. -/
theorem scientific?_of_unsigned {cs : List Char} {s : Scientific}
    (h : unsignedScientific? false cs = some s) : scientific? cs = some s := by
  unfold scientific?
  split
  · simp [unsignedScientific?] at h
  · simp [unsignedScientific?] at h
  · exact h

/-- Written digits with or without a minus sign. -/
theorem Reads.signed {cs : List Char} {r : ℚ} (h : Reads cs r) (negative : Bool) :
    ∃ s, scientific? ((if negative then ['-'] else []) ++ cs) = some s ∧ s.negative = negative ∧
      s.value = r := by
  obtain ⟨s, hread, hsign, hvalue⟩ := h negative
  refine ⟨s, ?_, hsign, hvalue⟩
  cases negative with
  | true => exact hread
  | false => exact scientific?_of_unsigned hread

/-- A value that has no mantissa is one of the two zeros, by its sign. -/
theorem eq_zero_of_mantissa {x : Float} (hzero : (magnitude x).mantissa = 0) :
    x = if signBit x then -0 else 0 := by
  have hbits : x.toBits.toNat = 0 ∨ x.toBits.toNat = 2 ^ 63 := by
    have hlt : x.toBits.toNat < 2 ^ 64 := x.toBits.toNat_lt
    have hexponent : exponentField x = x.toBits.toNat / 2 ^ 52 % 2048 := rfl
    have hfraction : fractionField x = x.toBits.toNat % 2 ^ 52 := rfl
    unfold magnitude at hzero
    split at hzero
    · have hnone : fractionField x = 0 := hzero
      omega
    · have hsome : leadingBit + fractionField x = 0 := hzero
      have hleading : leadingBit = 2 ^ 52 := rfl
      omega
  rcases hbits with hbits | hbits
  · obtain rfl : x = Float.ofBits 0 := toBits_injective hbits
    decide +kernel
  · obtain rfl : x = Float.ofBits 0x8000000000000000 := toBits_injective hbits
    decide +kernel

/-- Every finite value is read back from its text. -/
theorem readFloat_write {style : Style} (h : style.Readable) {x : Float} (hfinite : isFinite x) :
    readFloat (style.write x) = some x := by
  obtain ⟨s, hread, hsign, hvalue⟩ := (reads_writeDigits h (style.digitsOf x)).signed (signBit x)
  rw [readFloat, toList_write style hfinite, hread, Option.map_some, Scientific.toFloat, hsign]
  by_cases hzero : (magnitude x).mantissa = 0
  · have hmantissa : s.mantissa = 0 := by
      have hdigits : style.digitsOf x = ⟨0, 0⟩ := if_pos hzero
      rw [hdigits, Scientific.value, Digits.value, Nat.cast_zero, zero_mul] at hvalue
      exact_mod_cast (mul_eq_zero.1 hvalue).resolve_right (ten_zpow_pos _).ne'
    have hnearest : nearestFloat s.mantissa s.exponent = 0 := if_pos hmantissa
    rw [hnearest]
    exact congrArg some (eq_zero_of_mantissa hzero).symm
  · have hcanonical := magnitude_canonical hfinite hzero
    have hcovers := shortest_covers hcanonical style.tie
    have hdigits : style.digitsOf x = (magnitude x).shortest style.tie := if_neg hzero
    rw [← hdigits, ← hvalue] at hcovers
    have hmantissa : 0 < s.mantissa := by
      refine Nat.pos_of_ne_zero fun hnone => ?_
      have hpos := (hcovers.range hcanonical).1
      rw [Scientific.value, hnone, Nat.cast_zero, zero_mul] at hpos
      exact absurd hpos (not_le.2 (two_zpow_pos _))
    have hpack := pack_magnitude hcanonical
    rw [nearestFloat_eq hmantissa hcanonical hcovers]
    cases hnegative : signBit x with
    | true =>
      have hsignOf : signOf x = .negative := by simp [signOf, hnegative]
      rw [hsignOf] at hpack
      rw [if_pos rfl, neg_pack, hpack]
    | false =>
      have hsignOf : signOf x = .positive := by simp [signOf, hnegative]
      rw [hsignOf] at hpack
      rw [if_neg (by simp), hpack]

theorem readFloat_display {x : Float} (hfinite : isFinite x) : readFloat (display x) = some x :=
  readFloat_write readable_displayStyle hfinite

/-- Finite values have different texts. -/
theorem write_injective {style : Style} (h : style.Readable) {x y : Float} (hx : isFinite x) (hy : isFinite y)
    (heq : style.write x = style.write y) : x = y := by
  have hread := readFloat_write h hx
  rw [heq, readFloat_write h hy] at hread
  exact (Option.some.inj hread).symm

theorem isDecimalChar_of_mem_write {style : Style} (h : style.Readable) {x : Float} (hfinite : isFinite x)
    {c : Char} (hc : c ∈ (style.write x).toList) : isDecimalChar c := by
  obtain ⟨s, hread, -⟩ := Option.map_eq_some_iff.1 (readFloat_write h hfinite)
  exact isDecimalChar_of_scientific? hread hc

/-- No finite value is written like an integer. -/
theorem write_ne_writeInt {style : Style} (h : style.Readable) {x : Float} (hfinite : isFinite x) (i : Int) :
    (style.write x).toList ≠ writeInt i := by
  intro heq
  obtain ⟨c, hc, hmark⟩ := exists_mark_writeDigits h.wholeEnd (style.digitsOf x)
  have hmem : c ∈ writeInt i := by
    rw [← heq, toList_write style hfinite]
    exact List.mem_append_right _ hc
  rcases eq_minus_or_isDigit_of_mem_writeInt hmem with rfl | hdigit
  · rcases hmark with hmark | hmark <;> cases hmark
  · rcases hmark with rfl | rfl <;> cases hdigit

/-! ## Values with a point -/

theorem not_isDigit_point {cs : List Char} (h : ∀ c ∈ cs, c.isDigit) : '.' ∉ cs :=
  fun hpoint => absurd (h '.' hpoint) (by decide)

/-- Exponent notation has a point behind the first of several digits. -/
theorem point_mem_exponential {d : Digits} : '.' ∈ d.exponential "" ↔ 10 ≤ d.digits := by
  have hexponent : '.' ∉ 'e' :: ((if d.leadingExponent < 0 then ['-'] else "".toList) ++
      Nat.toDigits 10 d.leadingExponent.natAbs) := by
    rw [List.mem_cons, List.mem_append, not_or, not_or]
    refine ⟨by decide, ?_, not_isDigit_point fun c => isDigit_toDigits⟩
    split <;> decide
  have hdigits : '.' ∉ Nat.toDigits 10 d.digits := not_isDigit_point fun c => isDigit_toDigits
  have hlength : (Nat.toDigits 10 d.digits).length ≤ 1 ↔ d.digits < 10 ^ 1 :=
    Nat.length_toDigits_le_iff (by norm_num) (by norm_num)
  unfold Digits.exponential
  rw [List.mem_append, or_iff_left hexponent]
  cases hcs : Nat.toDigits 10 d.digits with
  | nil => exact absurd hcs Nat.toDigits_ne_nil
  | cons c cs =>
    rw [hcs] at hdigits hlength
    cases cs with
    | nil =>
      have hone : d.digits < 10 := hlength.1 le_rfl
      exact iff_of_false hdigits (Nat.not_le.2 hone)
    | cons b bs =>
      have hmore : ¬ d.digits < 10 := fun hless => absurd (hlength.2 hless) (by simp)
      exact iff_of_true (by simp) (Nat.not_lt.1 hmore)

/-- A value is written with a point exactly if it is finite, and is written positionally or with several
digits. -/
theorem point_mem_display {x : Float} :
    '.' ∈ (display x).toList ↔
      isFinite x ∧
        ((-4 ≤ (shownDigits x).leadingExponent ∧ (shownDigits x).leadingExponent ≤ 15) ∨
          10 ≤ (shownDigits x).digits) := by
  by_cases hfinite : isFinite x
  · have hsign : '.' ∉ (if signBit x then ['-'] else []) := by split <;> decide
    have hdigits : displayStyle.digitsOf x = shownDigits x := rfl
    rw [display, toList_write _ hfinite, hdigits, List.mem_append, or_iff_right hsign]
    simp only [Style.writeDigits]
    split
    · next hrange => exact iff_of_true (point_mem_positional _) ⟨hfinite, .inl hrange⟩
    · next hrange =>
      have hpoint : '.' ∈ (shownDigits x).exponential displayStyle.positiveSign ↔ _ := point_mem_exponential
      rw [hpoint]
      exact ⟨fun h => ⟨hfinite, .inr h⟩, fun h => h.2.resolve_left hrange⟩
  · refine iff_of_false ?_ fun h => hfinite h.1
    rw [display, Style.write, if_neg hfinite]
    split
    · decide
    · split <;> decide

end EvidenceGraph.Decimal
