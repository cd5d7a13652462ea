/-
# `EvidenceGraph.Query.Literal` — the values a condition compares with.

A quoted string is a text. A bare word is a boolean, a binary64 value if it has a point, an integer
otherwise; a word that fails to read as the number it looks like stays a text. `Literal.write` is the
canonical spelling, and `Literal.needle` the text that a substring search looks for.
-/
import EvidenceGraph.Text.Caseless
import EvidenceGraph.Text.Quoted
import EvidenceGraph.Decimal.Numeral
import EvidenceGraph.Decimal.Style

namespace EvidenceGraph.Query

open EvidenceGraph.Text

/-- The right-hand side of a condition. -/
inductive Literal where
  | bool (value : Bool)
  | int (value : Int64)
  | float (value : Float)
  | text (value : String)
  /-- The items of an `IN` list, always kept as strings. -/
  | list (items : List String)
deriving BEq, Repr

/-- The literal that a bare word stands for. -/
def Literal.ofBare (word : String) : Literal :=
  if sameWord word "true" then .bool true
  else if sameWord word "false" then .bool false
  else if word.toList.contains '.' then
    match Decimal.readFloat word with
    | some x => .float x
    | none => .text word
  else
    match Decimal.readInt64 word with
    | some i => .int i
    | none => .text word

/-- A truth value in lower case. -/
def writeBool (b : Bool) : List Char := if b then "true".toList else "false".toList

/-- A string in quotes. -/
def writeQuoted (text : String) : List Char := Quoted.encode text.toList

/-- Items separated by a comma and a space. -/
def writeSeparated (items : List (List Char)) : List Char := [',', ' '].intercalate items

/-- The canonical spelling of a literal. -/
def Literal.write : Literal → List Char
  | .bool b => writeBool b
  | .int i => Decimal.writeInt i.toInt
  | .float x => (Decimal.display x).toList
  | .text s => writeQuoted s
  | .list items => '(' :: (writeSeparated (items.map writeQuoted) ++ [')'])

/-- The text that `CONTAINS` looks for: strings verbatim, the items of a list joined. -/
def Literal.needle : Literal → List Char
  | .bool b => writeBool b
  | .int i => Decimal.writeInt i.toInt
  | .float x => (Decimal.display x).toList
  | .text s => s.toList
  | .list items => writeSeparated (items.map String.toList)

end EvidenceGraph.Query
