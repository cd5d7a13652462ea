/-
# `EvidenceGraph.Decimal.Numeral` — reading numbers from words.

An integer word is an optional sign and one or more ASCII digits; it is read exactly or not at all, so a
value outside the range of its type is no number. A decimal word is an optional sign, digits with at most
one point among or around them, and an optional exponent; it is read as the nearest binary64 value, half
way to the even one, and as an infinity beyond the largest.
-/

namespace EvidenceGraph.Decimal

/-- The value of a digit string that continues a number read so far. -/
def digitsValue (start : Nat) (digits : List Char) : Nat :=
  digits.foldl (fun value c => 10 * value + (c.toNat - '0'.toNat)) start

/-- A non-empty string of ASCII digits as a natural number. -/
def natural? (cs : List Char) : Option Nat :=
  if !cs.isEmpty && cs.all Char.isDigit then some (digitsValue 0 cs) else none

/-- An optional sign before a natural number. -/
def integer? : List Char → Option Int
  | '+' :: cs => (natural? cs).map Int.ofNat
  | '-' :: cs => (natural? cs).map fun n => -Int.ofNat n
  | cs => (natural? cs).map Int.ofNat

/-- An integer of the signed 64-bit range, if `i` is one. -/
def int64? (i : Int) : Option Int64 :=
  if Int64.minValue.toInt ≤ i ∧ i ≤ Int64.maxValue.toInt then some (Int64.ofInt i) else none

/-- A natural number of the unsigned 64-bit range, if `n` is one. -/
def uint64? (n : Nat) : Option UInt64 :=
  if n < UInt64.size then some (UInt64.ofNat n) else none

/-- A word as a signed 64-bit integer. -/
def readInt64 (word : String) : Option Int64 :=
  (integer? word.toList).bind int64?

/-- A word as a count: a natural number below `2 ^ 64`, with an optional `+`. -/
def readCount (word : String) : Option UInt64 :=
  let cs := word.toList
  (natural? (if cs.head? = some '+' then cs.tail else cs)).bind uint64?

/-- The decimal digits of a natural number. -/
def writeNat (n : Nat) : List Char := Nat.toDigits 10 n

/-- The decimal digits of an integer, after a `-` if it is negative. -/
def writeInt : Int → List Char
  | .ofNat n => writeNat n
  | .negSucc n => '-' :: writeNat (n + 1)

/-- A decimal number `± mantissa × 10 ^ exponent`. -/
structure Scientific where
  negative : Bool
  mantissa : Nat
  exponent : Int
deriving DecidableEq, Repr

/-- The binary64 value nearest to `mantissa × 10 ^ exponent`. The two outer cases are far outside the
range of binary64 on either side and keep the powers of ten small. -/
def nearestFloat (mantissa : Nat) (exponent : Int) : Float :=
  let magnitude : Int := exponent + (Nat.toDigits 10 mantissa).length
  if mantissa = 0 then 0
  else if 400 < magnitude then Float.ofBits 0x7FF0000000000000
  else if magnitude < -400 then 0
  else if exponent < 0 then Float.ofScientific mantissa true (-exponent).toNat
  else Float.ofScientific mantissa false exponent.toNat

/-- The binary64 value nearest to a decimal number; a zero keeps its sign. -/
def Scientific.toFloat (s : Scientific) : Float :=
  let x := nearestFloat s.mantissa s.exponent
  if s.negative then -x else x

/-- The integer with exponent mark behind the digits of a decimal word: nothing at all, or `e` with a
signed integer. -/
def exponentPart? : List Char → Option Int
  | [] => some 0
  | c :: cs => if c = 'e' ∨ c = 'E' then integer? cs else none

/-- An unsigned decimal word: digits, at most one point, at least one digit, an optional exponent. -/
def unsignedScientific? (negative : Bool) (cs : List Char) : Option Scientific :=
  let whole := cs.takeWhile Char.isDigit
  let afterWhole := cs.dropWhile Char.isDigit
  let afterPoint := if afterWhole.head? = some '.' then afterWhole.tail else []
  let fraction := afterPoint.takeWhile Char.isDigit
  let tail := if afterWhole.head? = some '.' then afterPoint.dropWhile Char.isDigit else afterWhole
  if whole.isEmpty && fraction.isEmpty then
    none
  else
    (exponentPart? tail).map fun e =>
      ⟨negative, digitsValue 0 (whole ++ fraction), e - fraction.length⟩

/-- A decimal word with an optional sign. -/
def scientific? : List Char → Option Scientific
  | '+' :: cs => unsignedScientific? false cs
  | '-' :: cs => unsignedScientific? true cs
  | cs => unsignedScientific? false cs

/-- A decimal word as the nearest binary64 value. -/
def readFloat (word : String) : Option Float :=
  (scientific? word.toList).map Scientific.toFloat

/-- The names of the binary64 values that have no digits, in small letters. -/
def namedFloats : List (String × Float) :=
  [("inf", Float.ofBits 0x7FF0000000000000),
   ("infinity", Float.ofBits 0x7FF0000000000000),
   ("nan", Float.ofBits 0x7FF8000000000000)]

/-- A name in any case and with an optional sign as a binary64 value. -/
def readNamedFloat (word : String) : Option Float :=
  let find (cs : List Char) := namedFloats.lookup (String.ofList (cs.map Char.toLower))
  match word.toList with
  | '+' :: cs => find cs
  | '-' :: cs => (find cs).map fun x => -x
  | cs => find cs

end EvidenceGraph.Decimal
