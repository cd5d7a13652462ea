/-
# `EvidenceGraph.Proofs.Decimal.Numerals` — numbers as they are written.

Writing an integer gives digits, after a minus sign if it is negative; reading goes the other way and
knows the range of its type. Main statements: `readInt64_writeInt` and `readCount_writeNat`, for every
value of either type. Of binary64 values it is only said which characters they are written with
(`isNumberChar_of_mem_display`), and that they are never read as integers (`readInt64_display`).
-/
import EvidenceGraph.Decimal.Numeral
import EvidenceGraph.Decimal.Style
import EvidenceGraph.Text.Caseless

namespace EvidenceGraph.Decimal

open EvidenceGraph.Text

/-! ## Digits -/

theorem isDigit_writeNat {n : Nat} {c : Char} (h : c ∈ writeNat n) : c.isDigit :=
  Nat.isDigit_of_mem_toDigits (by decide) (by decide) h

theorem writeNat_ne_nil (n : Nat) : writeNat n ≠ [] := Nat.toDigits_ne_nil

theorem natural?_writeNat (n : Nat) : natural? (writeNat n) = some n := by
  have hdigits : (writeNat n).all Char.isDigit := List.all_eq_true.2 fun c hc => isDigit_writeNat hc
  have hvalue : digitsValue 0 (writeNat n) = n := Nat.ofDigitChars_ten_toDigits
  simp [natural?, writeNat_ne_nil n, hdigits, hvalue]

/-- Only digits make a natural number, and at least one of them. -/
theorem natural?_eq_some {cs : List Char} {n : Nat} (h : natural? cs = some n) :
    cs ≠ [] ∧ ∀ c ∈ cs, c.isDigit := by
  unfold natural? at h
  split at h
  · next hcs =>
    simpa using hcs
  · cases h

/-- A written number starts with a digit. -/
theorem writeNat_head (n : Nat) : ∃ d ds, writeNat n = d :: ds ∧ d.isDigit := by
  cases h : writeNat n with
  | nil => exact absurd h (writeNat_ne_nil n)
  | cons d ds => exact ⟨d, ds, rfl, isDigit_writeNat (h ▸ List.mem_cons_self)⟩

theorem ne_of_isDigit {c d : Char} (hc : c.isDigit) (hd : d.isDigit = false) : c ≠ d := by
  rintro rfl
  rw [hc] at hd
  cases hd

/-! ## Marks -/

/-- A character of numbers that is no letter: a digit, a sign or the point. -/
def isMark (c : Char) : Bool := c.isDigit || c == '+' || c == '-' || c == '.'

theorem isMark_of_isDigit {c : Char} (h : c.isDigit) : isMark c := by
  simp [isMark, h]

theorem toLower_of_isMark {c : Char} (h : isMark c) : c.toLower = c := by
  simp only [isMark, Bool.or_eq_true, beq_iff_eq] at h
  rcases h with ((hdigit | rfl) | rfl) | rfl
  · simp only [Char.isDigit, Bool.and_eq_true, decide_eq_true_eq] at hdigit
    have hsmall : ¬ (c.val ≥ 65 ∧ c.val ≤ 90) := by
      have hnine : c.val.toNat ≤ 57 := hdigit.2
      intro hcapital
      have hletter : 65 ≤ c.val.toNat := hcapital.1
      omega
    exact dif_neg hsmall
  · rfl
  · rfl
  · rfl

/-- A word with a mark in it is no word of letters in any case. -/
theorem not_sameWord_of_isMark {w a : String} {c : Char} (hc : c ∈ w.toList) (hmark : isMark c)
    (ha : (foldCase a).any isMark = false) : sameWord w a = false := by
  rw [Bool.eq_false_iff]
  intro hsame
  have hfold : foldCase w = foldCase a := by simpa [sameWord] using hsame
  have hmem : c ∈ foldCase a := by
    rw [← hfold, foldCase, ← toLower_of_isMark hmark]
    exact List.mem_map_of_mem hc
  have hany : (foldCase a).any isMark = true := List.any_eq_true.2 ⟨c, hmem, hmark⟩
  rw [ha] at hany
  cases hany

/-! ## Counts -/

/-- The word of a count has a digit in it. -/
theorem exists_isMark_of_readCount {w : String} {n : UInt64} (h : readCount w = some n) :
    ∃ c ∈ w.toList, isMark c := by
  obtain ⟨m, hm, -⟩ := Option.bind_eq_some_iff.1 h
  obtain ⟨hne, hdigits⟩ := natural?_eq_some hm
  obtain ⟨d, hd⟩ := List.exists_mem_of_ne_nil _ hne
  refine ⟨d, ?_, isMark_of_isDigit (hdigits d hd)⟩
  split at hd
  · exact List.mem_of_mem_tail hd
  · exact hd

theorem uint64?_toNat (n : UInt64) : uint64? n.toNat = some n := by
  have hrange : n.toNat < UInt64.size := n.toNat_lt
  simp [uint64?, hrange]

theorem readCount_writeNat (n : UInt64) : readCount (String.ofList (writeNat n.toNat)) = some n := by
  obtain ⟨d, ds, hwrite, hd⟩ := writeNat_head n.toNat
  have hplus : (writeNat n.toNat).head? ≠ some '+' := by
    rw [hwrite]
    simpa using ne_of_isDigit hd (by decide)
  simp [readCount, hplus, natural?_writeNat, uint64?_toNat]

/-! ## Signed integers -/

/-- A text that starts with a digit is read without a sign. -/
theorem integer?_of_digit {d : Char} {ds : List Char} (hd : d.isDigit) :
    integer? (d :: ds) = (natural? (d :: ds)).map Int.ofNat := by
  have hplus : d ≠ '+' := ne_of_isDigit hd (by decide)
  have hminus : d ≠ '-' := ne_of_isDigit hd (by decide)
  simp [integer?, hplus, hminus]

theorem integer?_writeInt (i : Int) : integer? (writeInt i) = some i := by
  cases i with
  | ofNat n =>
    obtain ⟨d, ds, hwrite, hd⟩ := writeNat_head n
    show integer? (writeNat n) = _
    rw [hwrite, integer?_of_digit hd, ← hwrite, natural?_writeNat]
    rfl
  | negSucc n =>
    show (natural? (writeNat (n + 1))).map _ = _
    rw [natural?_writeNat]
    rfl

theorem int64?_toInt (i : Int64) : int64? i.toInt = some i := by
  have hlow : Int64.minValue.toInt ≤ i.toInt := Int64.minValue_le_toInt i
  have hhigh : i.toInt ≤ Int64.maxValue.toInt := Int64.toInt_le i
  have hrange : int64? i.toInt = some (Int64.ofInt i.toInt) := if_pos ⟨hlow, hhigh⟩
  rw [hrange, Int64.ofInt_toInt]

theorem readInt64_writeInt (i : Int64) : readInt64 (String.ofList (writeInt i.toInt)) = some i := by
  simp [readInt64, integer?_writeInt, int64?_toInt]

theorem toInt_of_int64?_eq_some {i : Int} {n : Int64} (h : int64? i = some n) : n.toInt = i := by
  unfold int64? at h
  split at h
  · next hrange =>
    obtain rfl := Option.some.inj h
    have hlow : -2 ^ 63 ≤ i := hrange.1
    have hhigh : i ≤ 2 ^ 63 - 1 := hrange.2
    exact Int64.toInt_ofInt_of_le hlow (by omega)
  · cases h

/-- A written integer is made of digits and minus signs. -/
theorem eq_minus_or_isDigit_of_mem_writeInt {i : Int} {c : Char} (h : c ∈ writeInt i) :
    c = '-' ∨ c.isDigit := by
  cases i with
  | ofNat n => exact .inr (isDigit_writeNat h)
  | negSucc n =>
    rcases List.mem_cons.1 h with rfl | h
    · exact .inl rfl
    · exact .inr (isDigit_writeNat h)

theorem writeInt_ne_nil (i : Int) : writeInt i ≠ [] := by
  cases i with
  | ofNat n => exact writeNat_ne_nil n
  | negSucc n => exact List.cons_ne_nil _ _

theorem exists_isMark_writeInt (i : Int) : ∃ c ∈ writeInt i, isMark c := by
  obtain ⟨c, hc⟩ := List.exists_mem_of_ne_nil _ (writeInt_ne_nil i)
  refine ⟨c, hc, ?_⟩
  rcases eq_minus_or_isDigit_of_mem_writeInt hc with rfl | h
  · rfl
  · exact isMark_of_isDigit h

/-! ## Binary64 values -/

/-- The characters of written numbers: digits, the point, the minus sign, and the letters of exponents
and of values that are not finite. -/
def isNumberChar (c : Char) : Bool := c.isDigit || ['.', '-', 'e', 'i', 'n', 'f', 'N', 'a'].contains c

theorem isNumberChar_of_isDigit {c : Char} (h : c.isDigit) : isNumberChar c := by
  simp [isNumberChar, h]

theorem isNumberChar_of_mem_writeInt {i : Int} {c : Char} (h : c ∈ writeInt i) : isNumberChar c := by
  rcases eq_minus_or_isDigit_of_mem_writeInt h with rfl | h
  · rfl
  · exact isNumberChar_of_isDigit h

theorem isNumberChar_of_mem_positional {d : Digits} {wholeEnd : String} {c : Char}
    (hend : wholeEnd.toList.all isNumberChar) (h : c ∈ d.positional wholeEnd) : isNumberChar c := by
  have hdigits (c : Char) (hc : c ∈ Nat.toDigits 10 d.digits) : isNumberChar c :=
    isNumberChar_of_isDigit (isDigit_writeNat hc)
  have hzeros (n : Nat) (hc : c ∈ List.replicate n '0') : isNumberChar c := by
    rw [(List.mem_replicate.1 hc).2]
    rfl
  simp only [Digits.positional] at h
  split at h
  · simp only [List.mem_append] at h
    rcases h with (hc | hc) | hc
    · exact hdigits c hc
    · exact hzeros _ hc
    · exact List.all_eq_true.1 hend c hc
  · split at h
    · rcases List.mem_append.1 h with hc | hc
      · exact hdigits c (List.mem_of_mem_take hc)
      · rcases List.mem_cons.1 hc with rfl | hc
        · rfl
        · exact hdigits c (List.mem_of_mem_drop hc)
    · simp only [List.mem_cons, List.mem_append] at h
      rcases h with rfl | rfl | hc | hc
      · rfl
      · rfl
      · exact hzeros _ hc
      · exact hdigits c hc

theorem isNumberChar_of_mem_exponential {d : Digits} {positiveSign : String} {c : Char}
    (hsign : positiveSign.toList.all isNumberChar) (h : c ∈ d.exponential positiveSign) :
    isNumberChar c := by
  have hdigits (n : Nat) (c : Char) (hc : c ∈ Nat.toDigits 10 n) : isNumberChar c :=
    isNumberChar_of_isDigit (isDigit_writeNat hc)
  unfold Digits.exponential at h
  rcases List.mem_append.1 h with hc | hc
  · split at hc
    · cases hc
    · next d hd =>
      exact hdigits _ c (by rw [hd]; exact hc)
    · next d ds hd =>
      rcases List.mem_cons.1 hc with rfl | hc
      · exact hdigits _ c (by rw [hd]; exact List.mem_cons_self)
      · rcases List.mem_cons.1 hc with rfl | hc
        · rfl
        · exact hdigits _ c (by rw [hd]; exact List.mem_cons_of_mem _ hc)
  · rcases List.mem_cons.1 hc with rfl | hc
    · rfl
    · rcases List.mem_append.1 hc with hc | hc
      · split at hc
        · rw [List.mem_singleton.1 hc]
          rfl
        · exact List.all_eq_true.1 hsign c hc
      · exact hdigits _ c hc

theorem isNumberChar_of_mem_writeDigits {d : Digits} {c : Char} (h : c ∈ displayStyle.writeDigits d) :
    isNumberChar c := by
  simp only [Style.writeDigits] at h
  split at h
  · exact isNumberChar_of_mem_positional (by decide) h
  · exact isNumberChar_of_mem_exponential (by decide) h

/-- A value in a query is written with these characters, also one that is not finite. -/
theorem isNumberChar_of_mem_display {x : Float} {c : Char} (h : c ∈ (display x).toList) :
    isNumberChar c := by
  unfold display Style.write at h
  split at h
  · rw [String.toList_ofList] at h
    rcases List.mem_append.1 h with hc | hc
    · split at hc
      · rw [List.mem_singleton.1 hc]
        rfl
      · cases hc
    · exact isNumberChar_of_mem_writeDigits hc
  · have hnames : ([displayStyle.nan, displayStyle.negativeInfinity, displayStyle.infinity].all
        fun name => name.toList.all isNumberChar) = true := by decide
    simp only [List.all_cons, Bool.and_eq_true, List.all_eq_true] at hnames
    split at h
    · exact hnames.1 c h
    · split at h
      · exact hnames.2.1 c h
      · exact hnames.2.2.1 c h

theorem positional_ne_nil (d : Digits) (wholeEnd : String) : d.positional wholeEnd ≠ [] := by
  simp only [Digits.positional]
  split
  · simp
  · split <;> simp

theorem exponential_ne_nil (d : Digits) (positiveSign : String) : d.exponential positiveSign ≠ [] := by
  simp [Digits.exponential]

theorem writeDigits_ne_nil (style : Style) (d : Digits) : style.writeDigits d ≠ [] := by
  simp only [Style.writeDigits]
  split
  · exact positional_ne_nil d style.wholeEnd
  · exact exponential_ne_nil d style.positiveSign

theorem display_ne_nil (x : Float) : (display x).toList ≠ [] := by
  unfold display Style.write
  split
  · rw [String.toList_ofList]
    exact List.append_ne_nil_of_right_ne_nil _ (writeDigits_ne_nil _ _)
  · repeat' split
    all_goals decide

theorem isNumberChar_toLower {c : Char} (h : isNumberChar c) : isNumberChar c.toLower := by
  rcases Bool.or_eq_true_iff.1 h with hdigit | hletter
  · rwa [toLower_of_isMark (isMark_of_isDigit hdigit)]
  · have hall : (['.', '-', 'e', 'i', 'n', 'f', 'N', 'a'].all fun d => isNumberChar d.toLower) = true := by
      decide
    exact List.all_eq_true.1 hall c (List.contains_iff_mem.1 hletter)

/-- A written number is no word with another letter in it. -/
theorem not_sameWord_of_isNumberChar {w a : String} (h : ∀ c ∈ w.toList, isNumberChar c)
    (ha : (foldCase a).all isNumberChar = false) : sameWord w a = false := by
  rw [Bool.eq_false_iff]
  intro hsame
  have hfold : foldCase w = foldCase a := by simpa [sameWord] using hsame
  have hall : (foldCase a).all isNumberChar = true := by
    rw [← hfold, foldCase, List.all_map, List.all_eq_true]
    exact fun c hc => isNumberChar_toLower (h c hc)
  rw [ha] at hall
  cases hall

theorem not_sameWord_display (x : Float) {a : String} (ha : (foldCase a).all isNumberChar = false) :
    sameWord (display x) a = false :=
  not_sameWord_of_isNumberChar (fun _ hc => isNumberChar_of_mem_display hc) ha

/-- Positional notation has a point, also of a whole number. -/
theorem point_mem_positional (d : Digits) : '.' ∈ d.positional ".0" := by
  simp only [Digits.positional]
  split
  · simp
  · split <;> simp

/-- Written digits have a point or the mark of an exponent if whole numbers end in a point. -/
theorem exists_mark_writeDigits {style : Style} (hend : style.wholeEnd = ".0") (d : Digits) :
    ∃ c ∈ style.writeDigits d, c = '.' ∨ c = 'e' := by
  simp only [Style.writeDigits]
  split
  · rw [hend]
    exact ⟨'.', point_mem_positional d, .inl rfl⟩
  · exact ⟨'e', by simp [Digits.exponential], .inr rfl⟩

/-- A written value has a point, the mark of an exponent, or the letter of a value that is not finite. -/
theorem exists_mark_display (x : Float) : ∃ c ∈ (display x).toList, c ∈ ['.', 'e', 'n', 'N'] := by
  unfold display Style.write
  split
  · have hend : displayStyle.wholeEnd = ".0" := rfl
    obtain ⟨c, hc, hmark⟩ := exists_mark_writeDigits hend
      (if (magnitude x).mantissa = 0 then ⟨0, 0⟩ else (magnitude x).shortest displayStyle.tie)
    refine ⟨c, ?_, ?_⟩
    · rw [String.toList_ofList]
      exact List.mem_append_right _ hc
    · rcases hmark with rfl | rfl <;> decide
  · split
    · exact ⟨'N', by decide, by decide⟩
    · split
      · exact ⟨'n', by decide, by decide⟩
      · exact ⟨'n', by decide, by decide⟩

/-- An integer is made of digits and signs. -/
theorem isDigit_or_sign_of_integer? {cs : List Char} {i : Int} (h : integer? cs = some i) {c : Char}
    (hc : c ∈ cs) : c.isDigit ∨ c = '+' ∨ c = '-' := by
  unfold integer? at h
  split at h <;> obtain ⟨n, hn, -⟩ := Option.map_eq_some_iff.1 h
  · rcases List.mem_cons.1 hc with rfl | hc
    · exact .inr (.inl rfl)
    · exact .inl ((natural?_eq_some hn).2 c hc)
  · rcases List.mem_cons.1 hc with rfl | hc
    · exact .inr (.inr rfl)
    · exact .inl ((natural?_eq_some hn).2 c hc)
  · exact .inl ((natural?_eq_some hn).2 c hc)

/-- No written binary64 value is read as an integer. -/
theorem readInt64_display (x : Float) : readInt64 (display x) = none := by
  obtain ⟨c, hc, hmark⟩ := exists_mark_display x
  have hother : ¬ (c.isDigit ∨ c = '+' ∨ c = '-') := by
    simp only [List.mem_cons, List.not_mem_nil, or_false] at hmark
    rcases hmark with rfl | rfl | rfl | rfl <;> decide
  cases hread : integer? (display x).toList with
  | none => rw [readInt64, hread, Option.bind_none]
  | some i => exact absurd (isDigit_or_sign_of_integer? hread hc) hother

/-! ## Decimal words -/

/-- The characters of decimal words: digits, signs, the point and the marks of exponents. -/
def isDecimalChar (c : Char) : Bool := isMark c || c == 'e' || c == 'E'

theorem isDecimalChar_of_isMark {c : Char} (h : isMark c) : isDecimalChar c := by
  simp [isDecimalChar, h]

theorem isDecimalChar_of_isDigit {c : Char} (h : c.isDigit) : isDecimalChar c :=
  isDecimalChar_of_isMark (isMark_of_isDigit h)

theorem isDecimalChar_of_mem_writeInt {i : Int} {c : Char} (h : c ∈ writeInt i) : isDecimalChar c := by
  rcases eq_minus_or_isDigit_of_mem_writeInt h with rfl | hdigit
  · rfl
  · exact isDecimalChar_of_isDigit hdigit

theorem isDecimalChar_of_exponentPart? {cs : List Char} {e : Int} (h : exponentPart? cs = some e) {c : Char}
    (hc : c ∈ cs) : isDecimalChar c := by
  cases cs with
  | nil => cases hc
  | cons mark cs =>
    change (if mark = 'e' ∨ mark = 'E' then integer? cs else none) = some e at h
    split at h
    · next hmark =>
      rcases List.mem_cons.1 hc with rfl | hc
      · rcases hmark with rfl | rfl <;> rfl
      · rcases isDigit_or_sign_of_integer? h hc with hdigit | rfl | rfl
        · exact isDecimalChar_of_isDigit hdigit
        · rfl
        · rfl
    · cases h

theorem isDecimalChar_of_unsignedScientific? {negative : Bool} {cs : List Char} {s : Scientific}
    (h : unsignedScientific? negative cs = some s) {c : Char} (hc : c ∈ cs) : isDecimalChar c := by
  have hdigits {ds : List Char} (hd : c ∈ ds.takeWhile Char.isDigit) : isDecimalChar c :=
    isDecimalChar_of_isDigit (List.all_eq_true.1 List.all_takeWhile c hd)
  rw [← List.takeWhile_append_dropWhile (p := Char.isDigit) (l := cs)] at hc
  rcases List.mem_append.1 hc with hc | hc
  · exact hdigits hc
  by_cases hpoint : (cs.dropWhile Char.isDigit).head? = some '.'
  · simp only [unsignedScientific?, hpoint, if_true] at h
    split at h
    · cases h
    · obtain ⟨e, he, -⟩ := Option.map_eq_some_iff.1 h
      obtain ⟨more, hmore⟩ := List.head?_eq_some_iff.1 hpoint
      rw [hmore] at hc he
      rcases List.mem_cons.1 hc with rfl | hc
      · rfl
      · rw [← List.takeWhile_append_dropWhile (p := Char.isDigit) (l := more)] at hc
        rcases List.mem_append.1 hc with hc | hc
        · exact hdigits hc
        · exact isDecimalChar_of_exponentPart? he hc
  · simp only [unsignedScientific?, hpoint, if_false] at h
    split at h
    · cases h
    · obtain ⟨e, he, -⟩ := Option.map_eq_some_iff.1 h
      exact isDecimalChar_of_exponentPart? he hc

/-- A decimal word is made of these characters. -/
theorem isDecimalChar_of_scientific? {cs : List Char} {s : Scientific} (h : scientific? cs = some s) {c : Char}
    (hc : c ∈ cs) : isDecimalChar c := by
  unfold scientific? at h
  split at h
  · rcases List.mem_cons.1 hc with rfl | hc
    · rfl
    · exact isDecimalChar_of_unsignedScientific? h hc
  · rcases List.mem_cons.1 hc with rfl | hc
    · rfl
    · exact isDecimalChar_of_unsignedScientific? h hc
  · exact isDecimalChar_of_unsignedScientific? h hc

end EvidenceGraph.Decimal
