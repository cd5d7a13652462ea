/-
# `EvidenceGraph.Json.Writer` — JSON text.

Compact text has no white space; indented text puts every member and item on a line of its own. In both,
strings escape the quote, the backslash and the control characters and nothing else, and numbers are
written in the style `Decimal.jsonStyle`, so that a binary64 value never looks like an integer.
-/
import EvidenceGraph.Json.Basic
import EvidenceGraph.Decimal.Numeral
import EvidenceGraph.Decimal.Style

namespace EvidenceGraph.Json

/-- A hexadecimal digit in lower case. -/
def hexDigit (n : Nat) : Char := Nat.digitChar (n % 16)

/-- A character of a string: escaped if it is a quote, a backslash or a control character. -/
def escape (c : Char) : List Char :=
  if c = '"' then ['\\', '"']
  else if c = '\\' then ['\\', '\\']
  else if c = '\x08' then ['\\', 'b']
  else if c = '\x0c' then ['\\', 'f']
  else if c = '\n' then ['\\', 'n']
  else if c = '\r' then ['\\', 'r']
  else if c = '\t' then ['\\', 't']
  else if c.toNat < 0x20 then ['\\', 'u', '0', '0', hexDigit (c.toNat / 16), hexDigit c.toNat]
  else [c]

/-- A string between quotes. -/
def writeString (text : String) : List Char :=
  '"' :: (text.toList.flatMap escape ++ ['"'])

mutual

/-- Text without white space. -/
def write : Json → List Char
  | .null => "null".toList
  | .bool b => if b then "true".toList else "false".toList
  | .int i => Decimal.writeInt i
  | .float x => (Decimal.jsonStyle.write x).toList
  | .str s => writeString s
  | .arr items => '[' :: (writeItems items ++ [']'])
  | .obj members => '\x7b' :: (writeMembers members ++ ['\x7d'])

/-- Items with commas between them. -/
def writeItems : List Json → List Char
  | [] => []
  | [j] => write j
  | j :: more => write j ++ ',' :: writeItems more

/-- Members with commas between them. -/
def writeMembers : List (String × Json) → List Char
  | [] => []
  | [(k, j)] => writeString k ++ ':' :: write j
  | (k, j) :: more => writeString k ++ ':' :: (write j ++ ',' :: writeMembers more)

end

/-- Compact text. -/
def compact (j : Json) : String := String.ofList (write j)

/-- A line break and the indentation of the given depth. -/
def newLine (depth : Nat) : List Char := '\n' :: List.replicate (2 * depth) ' '

mutual

/-- Text with one item or member a line, `depth` levels deep. -/
def writeIndented (depth : Nat) : Json → List Char
  | .arr [] => ['[', ']']
  | .arr items => '[' :: (indentedItems (depth + 1) items ++ newLine depth ++ [']'])
  | .obj [] => ['\x7b', '\x7d']
  | .obj members => '\x7b' :: (indentedMembers (depth + 1) members ++ newLine depth ++ ['\x7d'])
  | j => write j

/-- Items, each on a line of its own. -/
def indentedItems (depth : Nat) : List Json → List Char
  | [] => []
  | [j] => newLine depth ++ writeIndented depth j
  | j :: more => newLine depth ++ writeIndented depth j ++ ',' :: indentedItems depth more

/-- Members, each on a line of its own. -/
def indentedMembers (depth : Nat) : List (String × Json) → List Char
  | [] => []
  | [(k, j)] => newLine depth ++ writeString k ++ ':' :: ' ' :: writeIndented depth j
  | (k, j) :: more =>
    newLine depth ++ writeString k ++ ':' :: ' ' :: (writeIndented depth j ++ ',' :: indentedMembers depth more)

end

/-- Indented text. -/
def indented (j : Json) : String := String.ofList (writeIndented 0 j)

end EvidenceGraph.Json
