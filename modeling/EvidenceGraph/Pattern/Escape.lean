/-
# `EvidenceGraph.Pattern.Escape` — blanks and escapes in the text of a pattern.

A backslash gives the character behind it a meaning: a letter that stands for a control character, for a
class, for a place or for the code point that follows it in hexadecimal digits, or a sign that stands for
itself. Where a pattern is spaced, blanks and comments between its signs mean nothing.
-/
import EvidenceGraph.Pattern.Basic
import EvidenceGraph.Text.Blank

namespace EvidenceGraph.Pattern

open EvidenceGraph.Text

/-! ## Blanks and comments -/

/-- What is left behind blanks and comments; a comment starts with `#` and ends with its line. -/
def skipSpace (inComment : Bool) : List Char → List Char
  | [] => []
  | c :: cs =>
    if inComment then skipSpace (c != '\n') cs
    else if isBlank c then skipSpace false cs
    else if c = '#' then skipSpace true cs
    else c :: cs

/-- What is left behind blanks and comments if they mean nothing. -/
def behindSpace (spaced : Bool) (cs : List Char) : List Char := if spaced then skipSpace false cs else cs

theorem skipSpace_length_le (inComment : Bool) (cs : List Char) :
    (skipSpace inComment cs).length ≤ cs.length := by
  induction cs generalizing inComment with
  | nil => simp [skipSpace]
  | cons c cs ih =>
    simp only [skipSpace]
    split
    · exact Nat.le_succ_of_le (ih _)
    · split
      · exact Nat.le_succ_of_le (ih _)
      · split
        · exact Nat.le_succ_of_le (ih _)
        · exact Nat.le_refl _

theorem behindSpace_length_le (spaced : Bool) (cs : List Char) :
    (behindSpace spaced cs).length ≤ cs.length := by
  cases spaced
  · exact Nat.le_refl _
  · exact skipSpace_length_le false cs

/-! ## Escapes -/

/-- Letters that stand for a control character behind a backslash. -/
def controls : List (Char × Char) :=
  [('a', '\x07'), ('f', '\x0c'), ('t', '\t'), ('n', '\n'), ('r', '\r'), ('v', '\x0b')]

/-- How many hexadecimal digits follow a letter behind a backslash. -/
def hexDigits : List (Char × Nat) := [('x', 2), ('u', 4), ('U', 8)]

/-- The value of a hexadecimal digit. -/
def hexValue? (c : Char) : Option Nat :=
  if c.isDigit then some (c.toNat - 48)
  else if 'a' ≤ c ∧ c ≤ 'f' then some (c.toNat - 87)
  else if 'A' ≤ c ∧ c ≤ 'F' then some (c.toNat - 55)
  else none

/-- Read as many more hexadecimal digits of a code point as `count` says, and what follows them. -/
def hexCode? (spaced : Bool) : Nat → Nat → List Char → Option (Nat × List Char)
  | 0, code, cs => some (code, behindSpace spaced cs)
  | count + 1, code, cs =>
    match behindSpace spaced cs with
    | [] => none
    | c :: rest => (hexValue? c).bind fun value => hexCode? spaced count (16 * code + value) rest

/-- Whether a sign stands for itself behind a backslash. -/
def isEscapable (c : Char) : Bool := c.toNat < 0x80 && !c.isAlphanum

/-- Read an escape behind its backslash, and what follows it. -/
def escape? (spaced : Bool) : List Char → Option (Pattern × List Char)
  | [] => none
  | c :: cs =>
    match hexDigits.lookup c, controls.lookup c with
    | some count, _ =>
      match hexCode? spaced count 0 cs with
      | none => none
      | some (code, rest) =>
        if code.isValidChar then some (.literal (Char.ofNat code) (c = 'x'), rest) else none
    | none, some control => some (.literal control false, cs)
    | none, none =>
      if ['d', 's', 'w'].contains c then some (.oneOf (.shorthand false), cs)
      else if ['D', 'S', 'W'].contains c then some (.oneOf (.shorthand true), cs)
      else if ['A', 'z'].contains c then some (.anchor, cs)
      else if ['b', 'B', '<', '>'].contains c then some (.wordEdge, cs)
      else if isEscapable c then some (.literal c false, cs)
      else none

end EvidenceGraph.Pattern
