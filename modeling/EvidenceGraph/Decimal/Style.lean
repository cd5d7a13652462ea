/-
# `EvidenceGraph.Decimal.Style` — how a binary64 value is written.

All styles of the library write the shortest digits that read back. They differ in where positional
notation ends, in what stands behind a whole number, in the sign of a positive exponent, in how an exact
tie is broken and in the text of the values that are not finite.
-/
import EvidenceGraph.Decimal.Shortest

namespace EvidenceGraph.Decimal

/-- A way to write binary64 values. -/
structure Style where
  /-- The least exponent of the leading digit that is written positionally. -/
  leastPositional : Int
  /-- The greatest exponent of the leading digit that is written positionally. -/
  greatestPositional : Int
  /-- What stands behind the digits of a whole number in positional notation. -/
  wholeEnd : String
  /-- The sign in front of a positive exponent. -/
  positiveSign : String
  tie : Tie
  infinity : String
  negativeInfinity : String
  nan : String

/-- Values in canonical query text and in searches: positional for `1e-4 ≤ |x| < 1e16`. -/
def displayStyle : Style :=
  ⟨-4, 15, ".0", "", .away, "inf", "-inf", "NaN"⟩

/-- Values inside JSON text: positional for `1e-5 ≤ |x| < 1e16`; JSON has no infinities. -/
def jsonStyle : Style :=
  ⟨-5, 15, ".0", "+", .toEven, "null", "null", "null"⟩

/-- Values as plain text: positional throughout, whole numbers without a point. -/
def plainStyle : Style :=
  ⟨-400, 400, "", "", .away, "inf", "-inf", "NaN"⟩

/-- Positional notation of `digits · 10 ^ exponent`, with `wholeEnd` behind a whole number. -/
def Digits.positional (wholeEnd : String) (d : Digits) : List Char :=
  let cs := Nat.toDigits 10 d.digits
  if 0 ≤ d.exponent then
    cs ++ List.replicate d.exponent.toNat '0' ++ wholeEnd.toList
  else
    let places := (-d.exponent).toNat
    if places < cs.length then
      cs.take (cs.length - places) ++ '.' :: cs.drop (cs.length - places)
    else
      '0' :: '.' :: (List.replicate (places - cs.length) '0' ++ cs)

/-- The exponent of the leading digit. -/
def Digits.leadingExponent (d : Digits) : Int :=
  d.exponent + ((Nat.toDigits 10 d.digits).length - 1 : Nat)

/-- Exponent notation: one digit, a point and the others if there are any, and the exponent. -/
def Digits.exponential (positiveSign : String) (d : Digits) : List Char :=
  let k := d.leadingExponent
  let mantissa := match Nat.toDigits 10 d.digits with
    | [] => []
    | [c] => [c]
    | c :: cs => c :: '.' :: cs
  let sign := if k < 0 then ['-'] else positiveSign.toList
  mantissa ++ 'e' :: (sign ++ Nat.toDigits 10 k.natAbs)

/-- A decimal magnitude in the notation that the style asks for. -/
def Style.writeDigits (style : Style) (d : Digits) : List Char :=
  let k := d.leadingExponent
  if style.leastPositional ≤ k ∧ k ≤ style.greatestPositional then d.positional style.wholeEnd
  else d.exponential style.positiveSign

/-- The text of a binary64 value. -/
def Style.write (style : Style) (x : Float) : String :=
  if isFinite x then
    let m := magnitude x
    let digits := if m.mantissa = 0 then ⟨0, 0⟩ else m.shortest style.tie
    let sign := if signBit x then ['-'] else []
    String.ofList (sign ++ style.writeDigits digits)
  else if fractionField x ≠ 0 then style.nan
  else if signBit x then style.negativeInfinity
  else style.infinity

/-- The text of a value in a query. -/
def display (x : Float) : String := displayStyle.write x

/-- The text of a value as plain text. -/
def plain (x : Float) : String := plainStyle.write x

end EvidenceGraph.Decimal
