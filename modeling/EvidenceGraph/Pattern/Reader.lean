/-
# `EvidenceGraph.Pattern.Reader` — the text of a pattern.

A pattern is read from left to right: branches between bars, parts of branches side by side, and groups in
brackets, which may have a name or set flags. No two groups have one name. A repetition needs a part before
it that is more than flags; repetitions with a count are not read.
-/
import EvidenceGraph.Pattern.Class
import EvidenceGraph.Pattern.Support
import EvidenceGraph.Text.Alphanumeric

namespace EvidenceGraph.Pattern

open EvidenceGraph.Text

/-! ## The start of a group -/

/-- What a bracket starts. -/
inductive Opening where
  /-- Nothing: it holds changes of flags only. -/
  | flags (changes : FlagChanges)
  | group (changes : FlagChanges) (name : Option (List Char))
deriving DecidableEq, Repr

/-- Whether a name of a group may start with a character. -/
def startsName (c : Char) : Bool := c = '_' || isAlphabetic c

/-- The characters of a name of a group behind the first one. -/
def isNameChar (c : Char) : Bool := ['_', '.', '[', ']'].contains c || isAlphanumeric c

/-- Read the name of a group up to its `>`, and what follows it. -/
def groupName? (cs : List Char) : Option (List Char × List Char) :=
  let name := cs.takeWhile (· != '>')
  match cs.dropWhile (· != '>') with
  | [] => none
  | _ :: rest => if name.head?.any startsName && name.tail.all isNameChar then some (name, rest) else none

/-- Read the flags of a group up to `:`, or flags alone up to a closing bracket, and what follows. -/
def flagOpening? (cs : List Char) : Option (Opening × List Char) := do
  let text := cs.takeWhile fun c => c != ':' && c != ')'
  let changes ← FlagChanges.ofText? text
  match cs.drop text.length with
  | [] => none
  | c :: rest =>
    if c = ':' then some (.group changes none, rest)
    else if text.isEmpty then none
    else some (.flags changes, rest)

/-- Read what stands behind an opening bracket, and what follows it. -/
def opening? : List Char → Option (Opening × List Char)
  | '?' :: 'P' :: '<' :: cs => (groupName? cs).map fun (name, rest) => (.group {} (some name), rest)
  | '?' :: '<' :: cs => (groupName? cs).map fun (name, rest) => (.group {} (some name), rest)
  | '?' :: cs => flagOpening? cs
  | cs => some (.group {} none, cs)

/-! ## Parts -/

/-- The part that a character stands for which is no escape and starts no class or group. -/
def ofChar (c : Char) : Pattern :=
  if c = '.' then .dot
  else if c = '^' ∨ c = '$' then .anchor
  else .literal c false

/-- Read a part that holds no other part, and what follows it. A brace starts a count. -/
def part? (spaced : Bool) : List Char → Option (Pattern × List Char)
  | [] => none
  | c :: cs =>
    if c = '[' then (CharClass.read? spaced cs).map fun (chars, rest) => (.oneOf chars, rest)
    else if c = '\\' then escape? spaced cs
    else if c = '\x7b' then none
    else some (ofChar c, cs)

/-- The signs that repeat the part before them. -/
def repetitions : List Char := ['*', '+', '?']

/-- Repeat the last one of some parts, which come the last one first. -/
def repeatLast? : List Pattern → Option (List Pattern)
  | [] => none
  | .flags _ :: _ => none
  | part :: more => some (.repeated part :: more)

/-! ## Whole patterns -/

/-- What is known of a pattern up to a place. -/
structure Progress where
  /-- The names of all groups. -/
  names : List (List Char) := []
  /-- Whether blanks and comments mean nothing. -/
  spaced : Bool := false
  /-- The branches of the group around the place that are complete, the last one first. -/
  branches : List Pattern := []
  /-- The parts of the branch at the place, the last one first. -/
  parts : List Pattern := []

namespace Progress

/-- The group around a place, if it ends there. -/
def pattern (p : Progress) : Pattern := ofBranches (ofParts p.parts.reverse :: p.branches).reverse

/-- Go on behind a part. -/
def add (p : Progress) (part : Pattern) : Progress := { p with parts := part :: p.parts }

/-- Note the name of a group, unless another one has it. -/
def addName? (p : Progress) : Option (List Char) → Option Progress
  | none => some p
  | some name => if p.names.contains name then none else some { p with names := name :: p.names }

/-- Read up to the closing bracket of the group around a place or to the end of the text, and what is left
from there. -/
def read? : Nat → Progress → List Char → Option (Progress × List Char)
  | 0, _, _ => none
  | fuel + 1, p, cs =>
    match behindSpace p.spaced cs with
    | [] => some (p, [])
    | c :: rest =>
      if c = ')' then
        some (p, c :: rest)
      else if c = '|' then
        read? fuel { p with branches := ofParts p.parts.reverse :: p.branches, parts := [] } rest
      else if c = '(' then do
        match ← opening? (behindSpace p.spaced rest) with
        | (.flags changes, rest) =>
          read? fuel { p.add (.flags changes) with spaced := changes.state .spaced p.spaced } rest
        | (.group changes name, rest) =>
          let p ← p.addName? name
          let inside := { names := p.names, spaced := changes.state .spaced p.spaced }
          match ← read? fuel inside rest with
          | (inner, ')' :: rest) =>
            read? fuel { p.add (.group changes inner.pattern) with names := inner.names } rest
          | _ => none
      else if repetitions.contains c then do
        let parts ← repeatLast? p.parts
        -- a question mark right behind belongs to the repetition
        read? fuel { p with parts } (if rest.head? = some '?' then rest.tail else rest)
      else do
        let (part, rest) ← part? p.spaced (c :: rest)
        read? fuel (p.add part) rest

end Progress

/-- The pattern that a text stands for. Every step takes a character, so the fuel lasts to the end. -/
def ofText? (text : List Char) : Option Pattern :=
  match Progress.read? (text.length + 1) {} text with
  | some (p, []) => some p.pattern
  | _ => none

/-- Whether a text stands for a pattern that can be used. -/
def isUsable (text : List Char) : Bool := (ofText? text).any isSupported

end EvidenceGraph.Pattern
