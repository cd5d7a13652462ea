/-
# `EvidenceGraph.Json.Tree` — what a JSON text spells.

A text is read in two steps. `Tree.ofText?` checks the grammar and keeps everything as it was spelled:
numbers as decimals, members in their order with repeated keys. `Tree.value?` then gives the value, which
may fail: a number can lie outside binary64, a string can hold half of a surrogate pair, and arrays and
objects can be nested too deeply. A part of a text that nobody asks for the value of is never held
against it.
-/
import EvidenceGraph.Json.Basic
import EvidenceGraph.Decimal.Numeral
import EvidenceGraph.Decimal.Shortest

namespace EvidenceGraph.Json

/-- A number as spelled. An integer literal has neither a point nor an exponent. -/
structure Numeral where
  isInteger : Bool
  value : Decimal.Scientific
deriving Repr

/-- A JSON text, as spelled. A string or key is missing where it holds half of a surrogate pair. -/
inductive Tree where
  | null
  | bool (value : Bool)
  | number (numeral : Numeral)
  | str (text : Option String)
  | arr (items : List Tree)
  | obj (members : List (Option String × Tree))

/-! ## Numbers -/

/-- The value of a number. An integer literal in the range of the 64-bit integers is an integer, but for
`-0`; all other numbers are binary64 values, and none may be infinite. -/
def Numeral.value? (n : Numeral) : Option Json :=
  let i : Int := if n.value.negative then -Int.ofNat n.value.mantissa else Int.ofNat n.value.mantissa
  if n.isInteger && !(n.value.negative && n.value.mantissa == 0) && Int64.minValue.toInt ≤ i && i < UInt64.size then
    some (.int i)
  else
    let x := n.value.toFloat
    if Decimal.isFinite x then some (.float x) else none

/-- The digits behind a point, if there is one: at least one digit. -/
def fractionPart? : List Char → Option (List Char × List Char)
  | '.' :: cs =>
    let digits := cs.takeWhile Char.isDigit
    if digits.isEmpty then none else some (digits, cs.dropWhile Char.isDigit)
  | cs => some ([], cs)

/-- An exponent, if there is one: `e`, an optional sign, at least one digit. -/
def exponentPart? : List Char → Option (Option Int × List Char)
  | c :: cs =>
    if c = 'e' ∨ c = 'E' then
      let signed := cs.head? = some '+' ∨ cs.head? = some '-'
      let body := if signed then cs.tail else cs
      let digits := body.takeWhile Char.isDigit
      if digits.isEmpty then
        none
      else
        let n : Int := Int.ofNat (Decimal.digitsValue 0 digits)
        some (some (if cs.head? = some '-' then -n else n), body.dropWhile Char.isDigit)
    else
      some (none, c :: cs)
  | [] => some (none, [])

/-- A number without its sign: no leading zero before another digit. -/
def unsignedNumeral? (negative : Bool) (cs : List Char) : Option (Numeral × List Char) := do
  let whole := if cs.head? = some '0' then ['0'] else cs.takeWhile Char.isDigit
  if whole.isEmpty then
    none
  let (fraction, rest) ← fractionPart? (cs.drop whole.length)
  let (exponent, rest) ← exponentPart? rest
  let value : Decimal.Scientific :=
    ⟨negative, Decimal.digitsValue 0 (whole ++ fraction), exponent.getD 0 - fraction.length⟩
  return (⟨fraction.isEmpty && exponent.isNone, value⟩, rest)

/-- A number at the front of a text. -/
def numeral? : List Char → Option (Numeral × List Char)
  | '-' :: cs => unsignedNumeral? true cs
  | cs => unsignedNumeral? false cs

/-! ## Strings -/

/-- The value of a hexadecimal digit in either case. -/
def hexValue? (c : Char) : Option Nat :=
  if c.isDigit then some (c.toNat - '0'.toNat)
  else if 'a' ≤ c ∧ c ≤ 'f' then some (c.toNat - 'a'.toNat + 10)
  else if 'A' ≤ c ∧ c ≤ 'F' then some (c.toNat - 'A'.toNat + 10)
  else none

/-- The character that a one-letter escape stands for. -/
def shortEscape? : Char → Option Char
  | '"' => some '"'
  | '\\' => some '\\'
  | '/' => some '/'
  | 'b' => some '\x08'
  | 'f' => some '\x0c'
  | 'n' => some '\n'
  | 'r' => some '\r'
  | 't' => some '\t'
  | _ => none

/-- The code point of four hexadecimal digits. -/
def hexQuad? (a b c d : Char) : Option Nat := do
  return (← hexValue? a) * 0x1000 + (← hexValue? b) * 0x100 + (← hexValue? c) * 0x10 + (← hexValue? d)

/-- Read a string after its opening quote: the code points that it spells, halves of surrogate pairs
included, and the text behind the closing quote. -/
def codePoints? : List Char → Option (List Nat × List Char)
  | [] => none
  | '"' :: cs => some ([], cs)
  | '\\' :: 'u' :: a :: b :: c :: d :: cs => do
    let n ← hexQuad? a b c d
    let (more, rest) ← codePoints? cs
    return (n :: more, rest)
  | '\\' :: c :: cs => do
    let found ← shortEscape? c
    let (more, rest) ← codePoints? cs
    return (found.toNat :: more, rest)
  | c :: cs =>
    if c.toNat < 0x20 || c == '\\' then
      none
    else do
      let (more, rest) ← codePoints? cs
      return (c.toNat :: more, rest)

/-- Join surrogate pairs; half a pair alone is no character. -/
def joinSurrogates? : List Nat → Option (List Char)
  | [] => some []
  | [n] => if 0xD800 ≤ n ∧ n < 0xE000 then none else some [Char.ofNat n]
  | n :: m :: ns =>
    if 0xD800 ≤ n ∧ n < 0xDC00 then
      if 0xDC00 ≤ m ∧ m < 0xE000 then
        (joinSurrogates? ns).map (Char.ofNat (0x10000 + (n - 0xD800) * 0x400 + (m - 0xDC00)) :: ·)
      else
        none
    else if 0xDC00 ≤ n ∧ n < 0xE000 then
      none
    else
      (joinSurrogates? (m :: ns)).map (Char.ofNat n :: ·)

/-- A string after its opening quote. -/
def stringBody? (cs : List Char) : Option (Option String × List Char) :=
  (codePoints? cs).map fun found => ((joinSurrogates? found.1).map String.ofList, found.2)

/-! ## Texts -/

/-- The white space of JSON. -/
def isSpace (c : Char) : Bool := c == ' ' || c == '\n' || c == '\r' || c == '\t'

/-- A text without its leading white space. -/
def skipSpace (cs : List Char) : List Char := cs.dropWhile isSpace

/-- The text behind an expected word. -/
def afterWord? (word : String) (cs : List Char) : Option (List Char) :=
  if word.toList.isPrefixOf cs then some (cs.drop word.toList.length) else none

mutual

/-- A value at the front of a text. Every step takes at least one character, so the length of the text
is fuel enough. -/
def tree? (fuel : Nat) (cs : List Char) : Option (Tree × List Char) :=
  match fuel with
  | 0 => none
  | fuel + 1 =>
    match skipSpace cs with
    | 'n' :: cs => (afterWord? "ull" cs).map fun rest => (.null, rest)
    | 't' :: cs => (afterWord? "rue" cs).map fun rest => (.bool true, rest)
    | 'f' :: cs => (afterWord? "alse" cs).map fun rest => (.bool false, rest)
    | '"' :: cs => (stringBody? cs).map fun found => (.str found.1, found.2)
    | '[' :: cs =>
      match skipSpace cs with
      | ']' :: rest => some (.arr [], rest)
      | cs => (treeItems? fuel cs).map fun found => (.arr found.1, found.2)
    | '\x7b' :: cs =>
      match skipSpace cs with
      | '\x7d' :: rest => some (.obj [], rest)
      | cs => (treeMembers? fuel cs).map fun found => (.obj found.1, found.2)
    | cs => (numeral? cs).map fun found => (.number found.1, found.2)

/-- The items of an array up to its closing bracket; there is at least one. -/
def treeItems? (fuel : Nat) (cs : List Char) : Option (List Tree × List Char) :=
  match fuel with
  | 0 => none
  | fuel + 1 => do
    let (first, rest) ← tree? fuel cs
    match skipSpace rest with
    | ']' :: rest => return ([first], rest)
    | ',' :: rest =>
      let (more, rest) ← treeItems? fuel rest
      return (first :: more, rest)
    | _ => none

/-- The members of an object up to its closing brace; there is at least one. -/
def treeMembers? (fuel : Nat) (cs : List Char) : Option (List (Option String × Tree) × List Char) :=
  match fuel with
  | 0 => none
  | fuel + 1 =>
    match skipSpace cs with
    | '"' :: cs => do
      let (key, rest) ← stringBody? cs
      let rest ← afterWord? ":" (skipSpace rest)
      let (value, rest) ← tree? fuel rest
      match skipSpace rest with
      | '\x7d' :: rest => return ([(key, value)], rest)
      | ',' :: rest =>
        let (more, rest) ← treeMembers? fuel rest
        return ((key, value) :: more, rest)
      | _ => none
    | _ => none

end

/-- A whole text: one value with white space around it. -/
def Tree.ofText? (text : String) : Option Tree :=
  let cs := text.toList
  match tree? (2 * cs.length + 1) cs with
  | some (tree, rest) => if (skipSpace rest).isEmpty then some tree else none
  | none => none

/-! ## Values -/

/-- How deeply arrays and objects may be nested in a text. -/
def nestingLimit : Nat := 127

mutual

/-- The value of a tree with at most `depth` nested arrays and objects. -/
def Tree.value? (depth : Nat) : Tree → Option Json
  | .null => some .null
  | .bool b => some (.bool b)
  | .number n => n.value?
  | .str text => text.map .str
  | .arr items =>
    match depth with
    | 0 => none
    | depth + 1 => (Tree.values? depth items).map .arr
  | .obj members =>
    match depth with
    | 0 => none
    | depth + 1 => (Tree.members? depth members).map fun found => (Object.ofList found).toJson

/-- The values of the items of an array. -/
def Tree.values? (depth : Nat) : List Tree → Option (List Json)
  | [] => some []
  | t :: ts => do return (← Tree.value? depth t) :: (← Tree.values? depth ts)

/-- The members of an object, in their order. -/
def Tree.members? (depth : Nat) : List (Option String × Tree) → Option (List (String × Json))
  | [] => some []
  | (key, t) :: ts => do return (← key, ← Tree.value? depth t) :: (← Tree.members? depth ts)

end

/-- The value of a whole text. -/
def ofText? (text : String) : Option Json :=
  (Tree.ofText? text).bind fun tree => tree.value? nestingLimit

end EvidenceGraph.Json
