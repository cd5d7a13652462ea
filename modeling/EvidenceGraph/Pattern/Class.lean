/-
# `EvidenceGraph.Pattern.Class` — classes in brackets in the text of a pattern.

A class in brackets holds characters, ranges, shorthands, named classes and other classes in brackets, put
together by operators that bind from left to right and weaker than standing side by side. A caret at the
start negates it. Dashes at the start stand for themselves, and so does a closing bracket that comes first.
-/
import EvidenceGraph.Pattern.Escape

namespace EvidenceGraph.Pattern

open EvidenceGraph.Text

namespace CharClass

/-! ## The start of a class -/

/-- The dashes at the start of a class, and what follows them. -/
def dashes (spaced : Bool) (cs : List Char) : List CharClass × List Char :=
  match _h : behindSpace spaced cs with
  | [] => ([], [])
  | c :: rest =>
    if c = '-' then
      let (items, behind) := dashes spaced rest
      (.char '-' :: items, behind)
    else
      ([], c :: rest)
termination_by cs.length
decreasing_by
  have := behindSpace_length_le spaced cs
  simp only [_h, List.length_cons] at this
  omega

/-- The start of a class behind its bracket: whether it is negated, its first items, and what follows. -/
def start (spaced : Bool) (cs : List Char) : Bool × List CharClass × List Char :=
  let cs := behindSpace spaced cs
  let negated := cs.head? = some '^'
  match dashes spaced (if negated then cs.tail else cs) with
  | ([], ']' :: rest) => (negated, [.char ']'], rest)
  | (items, rest) => (negated, items, rest)

/-! ## Items -/

/-- The names of classes between `[:` and `:]`. -/
def names : List String :=
  ["alnum", "alpha", "ascii", "blank", "cntrl", "digit", "graph", "lower", "print", "punct", "space",
   "upper", "word", "xdigit"]

/-- Read a named class behind its first bracket, and what follows it. -/
def named? : List Char → Option (CharClass × List Char)
  | ':' :: cs =>
    let negated := cs.head? = some '^'
    let cs := if negated then cs.tail else cs
    let name := String.ofList (cs.takeWhile (· != ':'))
    match cs.dropWhile (· != ':') with
    | ':' :: ']' :: rest => if names.contains name then some (.named negated name, rest) else none
    | _ => none
  | _ => none

/-- Read a character or an escape, and what follows it. -/
def single? (spaced : Bool) : List Char → Option (Pattern × List Char)
  | [] => none
  | c :: cs => if c = '\\' then escape? spaced cs else some (.literal c false, cs)

/-- The class that a part of a pattern stands for. -/
def ofPattern? : Pattern → Option CharClass
  | .literal c _ => some (.char c)
  | .oneOf chars => some chars
  | _ => none

/-- The sign behind a dash. Where a class is spaced, blanks before it do not count and neither does one `#`
among them. -/
def behindDash? (spaced : Bool) (cs : List Char) : Option Char :=
  if spaced then
    match cs.dropWhile isBlank with
    | '#' :: rest => (rest.dropWhile isBlank).head?
    | rest => rest.head?
  else
    cs.head?

/-- Read an item or a range of characters, and what follows it. A dash before another dash or before the end
of the class makes no range. -/
def range? (spaced : Bool) (cs : List Char) : Option (CharClass × List Char) := do
  let (first, behind) ← single? spaced cs
  let rest := behindSpace spaced behind
  if rest.head? = some '-' ∧ behindDash? spaced rest.tail ∉ [some ']', some '-'] then
    match first, ← single? spaced (behindSpace spaced rest.tail) with
    | .literal low _, (.literal high _, rest) => if low ≤ high then some (.range low high, rest) else none
    | _, _ => none
  else
    return (← ofPattern? first, rest)

/-! ## Whole classes -/

/-- A class behind the operators before it. -/
def behindOperator (left : Option (CharClass × Operator)) (right : CharClass) : CharClass :=
  match left with
  | none => right
  | some (left, operator) => .combined operator left right

/-- Read the rest of a class, which starts with `items`, the last one first, behind what is left of an
operator: its set, and what follows its closing bracket. -/
def readItems (spaced : Bool) :
    Nat → Option (CharClass × Operator) → List CharClass → List Char → Option (CharClass × List Char)
  | 0, _, _, _ => none
  | fuel + 1, left, items, cs =>
    let soFar := behindOperator left (ofItems items.reverse)
    match behindSpace spaced cs with
    | [] => none
    | ']' :: rest => some (soFar, rest)
    | '[' :: rest =>
      match named? rest with
      | some (item, rest) => readItems spaced fuel left (item :: items) rest
      | none => do
        let (negated, first, rest) := start spaced rest
        let (inner, rest) ← readItems spaced fuel none first.reverse rest
        readItems spaced fuel left (.bracketed negated inner :: items) rest
    | c :: rest =>
      match if rest.head? = some c then Operator.ofSign? c else none with
      | some operator => readItems spaced fuel (some (soFar, operator)) [] rest.tail
      | none => do
        let (item, rest) ← range? spaced (c :: rest)
        readItems spaced fuel left (item :: items) rest

/-- Read a class behind its first bracket, and what follows it. Every step takes a character, so the fuel
lasts to the end. -/
def read? (spaced : Bool) (cs : List Char) : Option (CharClass × List Char) :=
  let (negated, first, rest) := start spaced cs
  (readItems spaced (cs.length + 1) none first.reverse rest).map fun (inner, rest) =>
    (.bracketed negated inner, rest)

end CharClass

end EvidenceGraph.Pattern
