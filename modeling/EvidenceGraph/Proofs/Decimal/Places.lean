/-
# `EvidenceGraph.Proofs.Decimal.Places` — which words are integers, and which ones.

Integers are read digit by digit; the value that this gives is the sum of the digits at their places
(`digitsValue_eq`). `Unsigned`, `Signed` and `Counting` say what an integer word looks like and what it stands
for, whatever its length is and however many zeros it starts with. A word is read as a number of 64 bits
exactly if it is such a word and stands for a number of the type: `readInt64_eq_some_iff` and
`readCount_eq_some_iff`. Nothing wraps round or is cut off at the limits.
-/
import Mathlib.Data.Nat.Digits.Defs
import Mathlib.Tactic.Ring
import EvidenceGraph.Proofs.Decimal.Numerals

namespace EvidenceGraph.Decimal

/-! ## Digits at their places -/

/-- The sum of some digits at their places, the last of which counts ones. -/
def placeValue (cs : List Char) : Nat := Nat.ofDigits 10 (cs.map fun c => c.toNat - '0'.toNat).reverse

theorem placeValue_cons (c : Char) (cs : List Char) :
    placeValue (c :: cs) = placeValue cs + 10 ^ cs.length * (c.toNat - '0'.toNat) := by
  rw [placeValue, List.map_cons, Nat.ofDigits_reverse_cons, List.length_map, placeValue]

/-- Digits that continue a number move it up by as many places. -/
theorem digitsValue_eq (start : Nat) (cs : List Char) :
    digitsValue start cs = start * 10 ^ cs.length + placeValue cs := by
  induction cs generalizing start with
  | nil => simp [digitsValue, placeValue]
  | cons c cs ih =>
    have hstep : digitsValue start (c :: cs) = digitsValue (10 * start + (c.toNat - '0'.toNat)) cs := rfl
    rw [hstep, ih, placeValue_cons, List.length_cons, pow_succ]
    ring

/-- One or more ASCII digits, which stand for the natural number `n`. -/
structure Unsigned (cs : List Char) (n : Nat) : Prop where
  ne_nil : cs ≠ []
  isDigit : ∀ c ∈ cs, c.isDigit
  value_eq : placeValue cs = n

theorem natural?_eq_some_iff {cs : List Char} {n : Nat} : natural? cs = some n ↔ Unsigned cs n := by
  have hvalue : digitsValue 0 cs = placeValue cs := by rw [digitsValue_eq, Nat.zero_mul, Nat.zero_add]
  constructor
  · intro h
    obtain ⟨hne, hdigits⟩ := natural?_eq_some h
    have hguard : (!cs.isEmpty && cs.all Char.isDigit) = true := by simpa using ⟨hne, hdigits⟩
    rw [natural?, if_pos hguard, hvalue] at h
    exact ⟨hne, hdigits, Option.some.inj h⟩
  · rintro ⟨hne, hdigits, rfl⟩
    have hguard : (!cs.isEmpty && cs.all Char.isDigit) = true := by simpa using ⟨hne, hdigits⟩
    rw [natural?, if_pos hguard, hvalue]

/-- Digits do not start with a plus sign. -/
theorem Unsigned.ne_plus {c : Char} {cs : List Char} {n : Nat} (h : Unsigned (c :: cs) n) : c ≠ '+' :=
  ne_of_isDigit (h.isDigit c List.mem_cons_self) rfl

/-! ## Signed integers -/

/-- Digits with an optional sign before them, which stand for the integer `i`. -/
inductive Signed : List Char → Int → Prop
  | plain {cs : List Char} {n : Nat} : Unsigned cs n → Signed cs n
  | plus {cs : List Char} {n : Nat} : Unsigned cs n → Signed ('+' :: cs) n
  | minus {cs : List Char} {n : Nat} : Unsigned cs n → Signed ('-' :: cs) (-n)

/-- There is a digit behind the sign. -/
theorem Signed.exists_isDigit {cs : List Char} {i : Int} (h : Signed cs i) : ∃ d ∈ cs, d.isDigit := by
  cases h with
  | plain hn =>
    obtain ⟨d, hd⟩ := List.exists_mem_of_ne_nil _ hn.ne_nil
    exact ⟨d, hd, hn.isDigit d hd⟩
  | plus hn | minus hn =>
    obtain ⟨d, hd⟩ := List.exists_mem_of_ne_nil _ hn.ne_nil
    exact ⟨d, List.mem_cons_of_mem _ hd, hn.isDigit d hd⟩

theorem integer?_eq_some_iff {cs : List Char} {i : Int} : integer? cs = some i ↔ Signed cs i := by
  constructor
  · intro h
    unfold integer? at h
    split at h <;> obtain ⟨n, hn, rfl⟩ := Option.map_eq_some_iff.1 h <;> rw [natural?_eq_some_iff] at hn
    · exact .plus hn
    · exact .minus hn
    · exact .plain hn
  · intro h
    cases h with
    | @plain cs n hn =>
      cases cs with
      | nil => exact absurd rfl hn.ne_nil
      | cons c cs =>
        rw [integer?_of_digit (hn.isDigit c List.mem_cons_self), natural?_eq_some_iff.2 hn]
        rfl
    | plus hn =>
      show (natural? _).map Int.ofNat = _
      rw [natural?_eq_some_iff.2 hn]
      rfl
    | minus hn =>
      show (natural? _).map (fun n => -Int.ofNat n) = _
      rw [natural?_eq_some_iff.2 hn]
      rfl

theorem int64?_eq_some_iff {i : Int} {n : Int64} :
    int64? i = some n ↔ -2 ^ 63 ≤ i ∧ i < 2 ^ 63 ∧ n.toInt = i := by
  constructor
  · intro h
    obtain rfl := toInt_of_int64?_eq_some h
    exact ⟨n.le_toInt, n.toInt_lt, rfl⟩
  · rintro ⟨-, -, rfl⟩
    exact int64?_toInt n

/-- A word is read as a signed integer of 64 bits exactly if it is one, within the limits of the type. -/
theorem readInt64_eq_some_iff {w : String} {n : Int64} :
    readInt64 w = some n ↔ ∃ i, Signed w.toList i ∧ -2 ^ 63 ≤ i ∧ i < 2 ^ 63 ∧ n.toInt = i := by
  simp only [readInt64, Option.bind_eq_some_iff, integer?_eq_some_iff, int64?_eq_some_iff]

/-! ## Counts -/

/-- Digits with an optional plus sign before them, which stand for the natural number `n`. -/
inductive Counting : List Char → Nat → Prop
  | plain {cs : List Char} {n : Nat} : Unsigned cs n → Counting cs n
  | plus {cs : List Char} {n : Nat} : Unsigned cs n → Counting ('+' :: cs) n

theorem counting_iff {cs : List Char} {n : Nat} :
    Counting cs n ↔ natural? (if cs.head? = some '+' then cs.tail else cs) = some n := by
  rw [natural?_eq_some_iff]
  constructor
  · rintro (h | h)
    · cases cs with
      | nil => exact absurd rfl h.ne_nil
      | cons c cs => rwa [if_neg (by simpa using h.ne_plus)]
    · exact h
  · intro h
    split at h
    · next hplus =>
      obtain ⟨ds, rfl⟩ := List.head?_eq_some_iff.1 hplus
      exact .plus h
    · exact .plain h

theorem uint64?_eq_some_iff {m : Nat} {n : UInt64} : uint64? m = some n ↔ m < 2 ^ 64 ∧ n.toNat = m := by
  constructor
  · intro h
    unfold uint64? at h
    split at h
    · next hrange =>
      obtain rfl := Option.some.inj h
      exact ⟨hrange, UInt64.toNat_ofNat_of_lt' hrange⟩
    · cases h
  · rintro ⟨-, rfl⟩
    exact uint64?_toNat n

/-- A word is read as a count exactly if it is one, below the limit of 64 bits. -/
theorem readCount_eq_some_iff {w : String} {n : UInt64} :
    readCount w = some n ↔ ∃ m, Counting w.toList m ∧ m < 2 ^ 64 ∧ n.toNat = m := by
  simp only [readCount, Option.bind_eq_some_iff, counting_iff, uint64?_eq_some_iff]

end EvidenceGraph.Decimal
