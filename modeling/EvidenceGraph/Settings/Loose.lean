/-
# `EvidenceGraph.Settings.Loose` — single settings in the spellings that people use.

Settings from files and variables are read by meaning: a count may be written as a string, a truth value as
a number or as one of the words `yes`, `no`, `on` and `off`, and a string setting takes the text of a
number. An array may go on behind the fields that it stands for.
-/
import EvidenceGraph.Decimal.Style
import EvidenceGraph.Decimal.Numeral
import EvidenceGraph.Settings.Basic
import EvidenceGraph.Text.Caseless

namespace EvidenceGraph.Settings

open EvidenceGraph.Json EvidenceGraph.Text

/-- The words for a truth value, in any case. -/
def truthWords : Bool → List String
  | true => ["true", "on", "yes"]
  | false => ["false", "off", "no"]

/-- Whether a word stands for the given truth value. -/
def meansTruth (value : Bool) (word : String) : Bool := (truthWords value).any fun w => sameWord w word

/-- A value as text. An integer beyond the signed 64-bit range is taken as a binary64 value. -/
def looseString? : Json → Option String
  | .bool b => some (if b then "true" else "false")
  | .int i =>
    match Decimal.int64? i with
    | some _ => some (String.ofList (Decimal.writeInt i))
    | none => some (Decimal.plain (Float.ofInt i))
  | .float x => some (Decimal.plain x)
  | .str s => some s
  | _ => none

/-- A value as a count. Binary64 values are rounded to whole numbers, a half away from zero, and kept
within the unsigned 64-bit range. -/
def looseCount? : Json → Option UInt64
  | .bool b => some (if b then 1 else 0)
  | .int i => if i < 0 then none else Decimal.uint64? i.toNat
  | .float x => some x.round.toUInt64
  | .str s =>
    if meansTruth true s then some 1
    else if meansTruth false s then some 0
    else Decimal.readCount s
  | _ => none

/-- A value as a truth value. -/
def looseBool? : Json → Option Bool
  | .bool b => some b
  | .int i => some (i != 0)
  | .float x => some (x != 0)
  | .str s =>
    if meansTruth true s || s = "1" then some true
    else if meansTruth false s || s = "0" then some false
    else none
  | _ => none

/-- The fields of a section. Items of an array that stand behind the last field are passed over. -/
def looseFields? (names : List String) : Json → Option (Fields Json)
  | .arr items => some ⟨true, names.zip items⟩
  | value => fields? names value

/-- Settings by meaning. -/
def byMeaning : Reading Json := ⟨looseFields?, looseCount?, looseString?, looseBool?⟩

end EvidenceGraph.Settings
