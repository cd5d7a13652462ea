/-
# `EvidenceGraph.Pattern.Support` — which patterns can be used.

Patterns are matched against UTF-8 without any table of Unicode. So nothing is supported that would need
one: with Unicode switched on, which it is at first, no letter classes, edges of words or caseless
characters; with Unicode switched off, nothing that could match a part of a character. The flags in force
are handed on from left to right, and a group gives back those that it found.
-/
import EvidenceGraph.Pattern.Basic

namespace EvidenceGraph.Pattern

/-- The flags in force that decide about support. -/
structure Mode where
  caseless : Bool := false
  unicode : Bool := true
deriving DecidableEq, Repr

/-- The mode under changes of flags. -/
def Mode.change (mode : Mode) (changes : FlagChanges) : Mode where
  caseless := changes.state .caseless mode.caseless
  unicode := changes.state .unicode mode.unicode

/-- Whether a code point takes one byte. -/
def isAscii (c : Char) : Bool := c.toNat < 0x80

/-- Whether a character may stand in a pattern; the value of a byte has to be a whole character. -/
def Mode.takesLiteral (mode : Mode) (c : Char) (asByte : Bool) : Bool :=
  if mode.unicode then !mode.caseless else isAscii c || !asByte

/-- Whether a class with all the characters up to `high` that it names may stand in a pattern. -/
def Mode.takesUpTo (mode : Mode) (high : Char) : Bool :=
  if mode.unicode then !mode.caseless else isAscii high

namespace CharClass

mutual

/-- Whether a class can be used in a mode. -/
def isSupported (mode : Mode) : CharClass → Bool
  | .empty => true
  | .char c => mode.takesUpTo c
  | .range _ high => mode.takesUpTo high
  | .named negated _ => if mode.unicode then !mode.caseless else !negated
  | .shorthand negated => !mode.unicode && !negated
  | .bracketed negated inner => (mode.unicode || !negated) && inner.isSupported mode
  | .union items => areSupported mode items
  | .combined _ left right => left.isSupported mode && right.isSupported mode

/-- Whether some classes all can be used in a mode. -/
def areSupported (mode : Mode) : List CharClass → Bool
  | [] => true
  | item :: more => item.isSupported mode && areSupported mode more

end

end CharClass

mutual

/-- The mode behind a pattern, if the pattern can be used in the mode before it. -/
def modeBehind? (mode : Mode) : Pattern → Option Mode
  | .empty => some mode
  | .flags changes => some (mode.change changes)
  | .literal c asByte => if mode.takesLiteral c asByte then some mode else none
  | .dot => if mode.unicode then some mode else none
  | .anchor => some mode
  | .wordEdge => if mode.unicode then none else some mode
  | .oneOf chars => if chars.isSupported mode then some mode else none
  | .repeated part => part.modeBehind? mode
  | .group changes inner => (inner.modeBehind? (mode.change changes)).map fun _ => mode
  | .concat parts => modeBehindAll? mode parts
  | .alternation branches => modeBehindAll? mode branches

/-- The mode behind patterns of which each one starts in the mode behind the one before it. -/
def modeBehindAll? (mode : Mode) : List Pattern → Option Mode
  | [] => some mode
  | part :: more => (part.modeBehind? mode).bind fun mode => modeBehindAll? mode more

end

/-- How deep a pattern may be nested. -/
def greatestNesting : Nat := 250

/-- Whether a pattern can be used. -/
def isSupported (pattern : Pattern) : Bool :=
  pattern.depth ≤ greatestNesting && (pattern.modeBehind? {}).isSome

end EvidenceGraph.Pattern
