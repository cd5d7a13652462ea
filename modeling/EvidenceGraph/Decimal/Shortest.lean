/-
# `EvidenceGraph.Decimal.Shortest` — the fewest digits that read back.

A finite binary64 value is `mantissa · 2 ^ exponent`. The reals that round to it form an interval around
it, ends included when the mantissa is even. Its shortest decimal is the point of the coarsest decimal
grid that falls into the interval; if both neighbours of the value on that grid do, the nearer one, and
at equal distance the one that the tie rule names. Everything is computed in exact natural numbers.
-/

namespace EvidenceGraph.Decimal

/-- Which of two equally near decimals is taken. -/
inductive Tie where
  /-- The one farther from zero. -/
  | away
  /-- The one whose last digit is even. -/
  | toEven
deriving DecidableEq, Repr

/-- The magnitude `mantissa · 2 ^ exponent` of a finite binary64 value. -/
structure Magnitude where
  mantissa : Nat
  exponent : Int
deriving DecidableEq, Repr

/-- The leading bit of the mantissas of normal values, `2 ^ 52`; the fraction field lies below it. -/
def leadingBit : Nat := 0x10000000000000

/-- The biased exponent field of a binary64 value. -/
def exponentField (x : Float) : Nat := x.toBits.toNat / leadingBit % 2048

/-- The fraction field of a binary64 value. -/
def fractionField (x : Float) : Nat := x.toBits.toNat % leadingBit

/-- The sign bit of a binary64 value. -/
def signBit (x : Float) : Bool := 0x8000000000000000 ≤ x.toBits.toNat

/-- Neither an infinity nor a NaN. -/
def isFinite (x : Float) : Bool := exponentField x != 2047

/-- The magnitude of a finite value. A zero exponent field marks a subnormal value, which lacks the
leading bit. -/
def magnitude (x : Float) : Magnitude :=
  if exponentField x = 0 then ⟨fractionField x, -1074⟩
  else ⟨leadingBit + fractionField x, exponentField x - 1075⟩

/-- A decimal magnitude `digits · 10 ^ exponent`. -/
structure Digits where
  digits : Nat
  exponent : Int
deriving DecidableEq, Repr

/-- The interval of reals that round to a value, in quarters of its last binary place: the value itself
is `4 · mantissa`. Below a power of two the next value is only half as far away. -/
structure Interval where
  low : Nat
  high : Nat
  closed : Bool

/-- The rounding interval of a magnitude. -/
def Magnitude.interval (m : Magnitude) : Interval :=
  { low := 4 * m.mantissa - if m.mantissa = leadingBit ∧ -1074 < m.exponent then 1 else 2
    high := 4 * m.mantissa + 2
    closed := m.mantissa % 2 == 0 }

/-- Comparing `n · 2 ^ (e - 2)` with `d · 10 ^ p` means comparing `n * binary` with `d * decimal`. -/
structure Scale where
  binary : Nat
  decimal : Nat

/-- The common scale of quarters of `2 ^ e` and a decimal grid of step `10 ^ p`. -/
def scale (e p : Int) : Scale :=
  { binary := Nat.pow 2 (e - 2).toNat * Nat.pow 10 (-p).toNat
    decimal := Nat.pow 10 p.toNat * Nat.pow 2 (2 - e).toNat }

/-- Whether the decimal `d · 10 ^ p` rounds to the magnitude `m`. -/
def Magnitude.contains (m : Magnitude) (p : Int) (d : Nat) : Bool :=
  let s := scale m.exponent p
  let i := m.interval
  if i.closed then i.low * s.binary ≤ d * s.decimal && d * s.decimal ≤ i.high * s.binary
  else i.low * s.binary < d * s.decimal && d * s.decimal < i.high * s.binary

/-- The digits of the shortest decimal on the grid of step `10 ^ p`, if a point of it rounds to `m`. -/
def Magnitude.onGrid? (tie : Tie) (m : Magnitude) (p : Int) : Option Nat :=
  let s := scale m.exponent p
  let value := 4 * m.mantissa * s.binary
  -- the value lies between two neighbouring points of the grid
  let below := value / s.decimal
  let above := below + 1
  match m.contains p below, m.contains p above with
  | true, true =>
    let down := value - below * s.decimal
    let up := above * s.decimal - value
    if down < up then some below
    else if up < down then some above
    else match tie with
      | .away => some above
      | .toEven => if below % 2 = 0 then some below else some above
  | true, false => some below
  | false, true => some above
  | false, false => none

/-- Whether the magnitude is at least `10 ^ k`. -/
def Magnitude.atLeastPower (m : Magnitude) (k : Int) : Bool :=
  let s := scale m.exponent k
  s.decimal ≤ 4 * m.mantissa * s.binary

/-- The exponent of the leading decimal digit: `10 ^ k ≤ m < 10 ^ (k + 1)`. The logarithm in base two
gives it up to one. -/
def Magnitude.leadingExponent (m : Magnitude) : Int :=
  -- 0.30103 is the decimal logarithm of two
  let guess := ((Nat.log2 m.mantissa + m.exponent) * 30103) / 100000
  if m.atLeastPower (guess + 1) then guess + 1
  else if m.atLeastPower guess then guess
  else guess - 1

/-- Drop trailing zeros of a digit string, at most `fuel` many. -/
def Digits.trimmed (fuel : Nat) (d : Digits) : Digits :=
  match fuel with
  | 0 => d
  | fuel + 1 =>
    if d.digits % 10 = 0 ∧ d.digits ≠ 0 then Digits.trimmed fuel ⟨d.digits / 10, d.exponent + 1⟩ else d

/-- The shortest decimal that rounds to a positive magnitude: grids of one, two, … seventeen digits are
tried in turn, and seventeen always suffice. -/
def Magnitude.shortest (tie : Tie) (m : Magnitude) : Digits :=
  let k := m.leadingExponent
  let found := (List.range 17).findSome? fun (n : Nat) =>
    (m.onGrid? tie (k - n)).map fun d => Digits.mk d (k - n)
  (found.getD ⟨0, 0⟩).trimmed 18

end EvidenceGraph.Decimal
