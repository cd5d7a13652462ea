/-
# `EvidenceGraph.Settings.Key` — keys that name a place.

A key at the top of a file of settings, like the name of a variable that overrides a setting, names a place
inside of a value: a name, then names with a point in front and numbers of items in brackets. Names are
taken in small letters. A key of any other form is a name as a whole. What is put into a place is the
subject of `EvidenceGraph.Settings.Overlay`.
-/
import EvidenceGraph.Decimal.Numeral
import EvidenceGraph.Text.Blank
import EvidenceGraph.Text.Caseless

namespace EvidenceGraph.Settings

open EvidenceGraph.Text

/-- A name with its ASCII capitals made small. -/
def smallName (name : String) : String := String.ofList (foldCase name)

/-- A step from a value to a part of it. -/
inductive Step where
  | member (name : String)
  /-- The item of an array with this number; negative numbers count back from the end. -/
  | item (index : Int)
deriving DecidableEq, Repr

namespace Step

/-- The characters of a name in a key. -/
def isNameChar (c : Char) : Bool := c.isAlphanum || c = '_' || c = '-' || c = ' '

/-- Spaces and tabs, which may stand around the number of an item. -/
def isGap (c : Char) : Bool := c = ' ' || c = '\t'

/-- The number of an item: an integer without a plus sign. -/
def index? (text : List Char) : Option Int :=
  let digits := trimEndWhile isGap (text.dropWhile isGap)
  if digits.head? = some '+' then none else (Decimal.readInt64 (String.ofList digits)).map Int64.toInt

/-- The steps behind the first name of a key. -/
def behindName? : List Char → Option (List Step)
  | [] => some []
  | c :: cs =>
    if c = '.' then
      let name := cs.takeWhile isNameChar
      if name.isEmpty then none
      else (behindName? (cs.dropWhile isNameChar)).map (.member (smallName (String.ofList name)) :: ·)
    else if c = '[' then do
      let index ← if cs.contains ']' then index? (cs.takeWhile (· != ']')) else none
      let more ← behindName? (cs.dropWhile (· != ']')).tail
      return .item index :: more
    else
      none
termination_by cs => cs.length
decreasing_by
  · exact Nat.lt_succ_of_le (List.dropWhile_sublist isNameChar).length_le
  · have := (List.dropWhile_sublist (· != ']') (l := cs)).length_le
    simp only [List.length_tail, List.length_cons]
    omega

/-- The steps to the place that a key names. -/
def ofKey (key : String) : List Step :=
  let cs := key.toList
  let name := cs.takeWhile isNameChar
  match if name.isEmpty then none else behindName? (cs.dropWhile isNameChar) with
  | some more => .member (smallName (String.ofList name)) :: more
  | none => [.member (smallName key)]

end Step

end EvidenceGraph.Settings
