/-
# `EvidenceGraph.Pattern.Basic` — patterns of text.

A pattern is a regular expression as far as it matters for whether it can be used: its parts and how they
are nested, the flags that it sets and the characters that stand in it. Which one of the anchors or of the
repetitions stands at a place is not kept, and nothing here matches a text against a pattern.
-/

namespace EvidenceGraph

namespace Pattern

/-! ## Flags -/

/-- What a pattern can switch on and off for a part of itself. -/
inductive Flag where
  | caseless
  | multiLine
  | dotAll
  | swapGreed
  | unicode
  | crlf
  /-- Blanks and comments in the pattern mean nothing. -/
  | spaced
deriving DecidableEq, Repr

/-- The flag that a letter stands for. -/
def Flag.ofLetter? : Char → Option Flag
  | 'i' => some .caseless
  | 'm' => some .multiLine
  | 's' => some .dotAll
  | 'U' => some .swapGreed
  | 'u' => some .unicode
  | 'R' => some .crlf
  | 'x' => some .spaced
  | _ => none

/-- Flags that are switched on and flags that are switched off. -/
structure FlagChanges where
  on : List Flag := []
  off : List Flag := []
deriving DecidableEq, Repr

/-- The state of a flag under changes to the state that it had before. -/
def FlagChanges.state (changes : FlagChanges) (flag : Flag) (before : Bool) : Bool :=
  changes.on.contains flag || !changes.off.contains flag && before

/-- Read changes: letters, and those behind a dash switch off. No sign comes twice and the dash is not the
last one. -/
def FlagChanges.ofText? (text : List Char) : Option FlagChanges := do
  if text.Nodup ∧ text.getLast? ≠ some '-' then
    let on ← (text.takeWhile (· != '-')).mapM Flag.ofLetter?
    let off ← (text.dropWhile (· != '-')).tail.mapM Flag.ofLetter?
    return { on, off }
  else
    none

/-! ## Classes of characters -/

/-- How two classes are put together. -/
inductive Operator where
  | intersection
  | difference
  | symmetricDifference
deriving DecidableEq, Repr

/-- The operator whose sign is a character twice in a row. -/
def Operator.ofSign? : Char → Option Operator
  | '&' => some .intersection
  | '-' => some .difference
  | '~' => some .symmetricDifference
  | _ => none

/-- A class of characters. -/
inductive CharClass where
  | empty
  | char (c : Char)
  | range (low high : Char)
  /-- A class with a name between `[:` and `:]`. -/
  | named (negated : Bool) (name : String)
  /-- Digits, blanks or the characters of words, written as a backslash and a letter. -/
  | shorthand (negated : Bool)
  | bracketed (negated : Bool) (inner : CharClass)
  | union (items : List CharClass)
  | combined (operator : Operator) (left right : CharClass)

namespace CharClass

/-- The class of what is in one of some classes. -/
def ofItems : List CharClass → CharClass
  | [] => .empty
  | [item] => item
  | items => .union items

mutual

/-- How deep a class is nested. -/
def depth : CharClass → Nat
  | .bracketed _ inner => inner.depth + 1
  | .union items => greatestDepth items + 1
  | .combined _ left right => max left.depth right.depth + 1
  | _ => 0

/-- How deep the most nested one of some classes is nested. -/
def greatestDepth : List CharClass → Nat
  | [] => 0
  | item :: more => max item.depth (greatestDepth more)

end

end CharClass

end Pattern

/-! ## Patterns -/

open Pattern in
/-- A pattern. -/
inductive Pattern where
  | empty
  /-- Changes of flags up to the end of the group around it. -/
  | flags (changes : FlagChanges)
  /-- A character; `asByte` tells whether it is written as the value of one byte. -/
  | literal (c : Char) (asByte : Bool)
  | dot
  /-- The start or the end of a line or of the text. -/
  | anchor
  /-- A place by the state of the characters around it: the edges of words and the places off them. -/
  | wordEdge
  | oneOf (chars : CharClass)
  | repeated (part : Pattern)
  | group (changes : FlagChanges) (inner : Pattern)
  | concat (parts : List Pattern)
  | alternation (branches : List Pattern)

namespace Pattern

/-- Parts one after another. -/
def ofParts : List Pattern → Pattern
  | [] => .empty
  | [part] => part
  | parts => .concat parts

/-- Branches of which one has to match. -/
def ofBranches : List Pattern → Pattern
  | [] => .empty
  | [branch] => branch
  | branches => .alternation branches

mutual

/-- How deep a pattern is nested. -/
def depth : Pattern → Nat
  | .oneOf chars => chars.depth
  | .repeated part => part.depth + 1
  | .group _ inner => inner.depth + 1
  | .concat parts => greatestDepth parts + 1
  | .alternation branches => greatestDepth branches + 1
  | _ => 0

/-- How deep the most nested one of some patterns is nested. -/
def greatestDepth : List Pattern → Nat
  | [] => 0
  | part :: more => max part.depth (greatestDepth more)

end

end Pattern

end EvidenceGraph
