/-
# `EvidenceGraph.Store.Matching` — whether a node meets a condition.

Comparisons are defined between two numbers and between two strings; everything else is neither equal,
less nor greater. An absent field meets `!=` and nothing else.
-/
import EvidenceGraph.Node.Field
import EvidenceGraph.Query.Basic
import EvidenceGraph.Store.Basic

namespace EvidenceGraph

open EvidenceGraph.Query

/-- A number as it takes part in comparisons. -/
inductive Number where
  | int (value : Int64)
  | float (value : Float)

namespace Number

/-- The binary64 value of a number. -/
def toFloat : Number → Float
  | .int i => Float.ofInt i.toInt
  | .float x => x

/-- The order of two binary64 values, both zeros being equal. A NaN has no place in it. -/
def compareFloats (x y : Float) : Option Ordering :=
  if x < y then some .lt
  else if y < x then some .gt
  else if x == y then some .eq
  else none

/-- The order of two numbers: exact between integers, in binary64 as soon as one of them is. -/
def compare : Number → Number → Option Ordering
  | .int a, .int b => some (Ord.compare a.toInt b.toInt)
  | a, b => compareFloats a.toFloat b.toFloat

end Number

/-- The number that a field holds. -/
def FieldValue.number? : FieldValue → Option Number
  | .int i => some (.int i)
  | .float x => some (.float x)
  | _ => none

/-- The number that a literal stands for. -/
def Query.Literal.number? : Literal → Option Number
  | .int i => some (.int i)
  | .float x => some (.float x)
  | _ => none

namespace FieldValue

/-- The order of a field and a literal, if both are numbers or both are strings. -/
def compare (value : FieldValue) (literal : Literal) : Option Ordering :=
  match value.number?, literal.number? with
  | some a, some b => a.compare b
  | _, _ =>
    match value, literal with
    | .text a, .text b => some (Ord.compare a b)
    | _, _ => none

/-- Whether a field equals a literal. -/
def equals (value : FieldValue) (literal : Literal) : Bool :=
  match value, literal with
  | .bool a, .bool b => a == b
  | _, _ => value.compare literal == some .eq

/-- Whether a string field is one of the given strings. -/
def isOneOf (value : FieldValue) (items : List String) : Bool :=
  match value with
  | .text s => items.contains s
  | _ => false

/-- Whether a comparison symbol holds of a field and a literal. -/
def satisfies (value : FieldValue) (symbol : Comparison) (literal : Literal) : Bool :=
  match symbol with
  | .eq => value.equals literal
  | .ne => !value.equals literal
  | .gt => value.compare literal == some .gt
  | .lt => value.compare literal == some .lt
  | .ge => value.compare literal == some .gt || value.compare literal == some .eq
  | .le => value.compare literal == some .lt || value.compare literal == some .eq

end FieldValue

/-- Whether a text occurs inside another one. -/
def occursIn (needle : List Char) : List Char → Bool
  | [] => needle.isEmpty
  | c :: cs => needle.isPrefixOf (c :: cs) || occursIn needle cs

/-- Whether the value of a field, if there is one, meets an operator other than a relation. -/
def FieldValue.meets (value : Option FieldValue) (operator : Operator) (literal : Literal) : Bool :=
  match value with
  | none => operator = .compare .ne
  | some v =>
    match operator, literal with
    | .compare symbol, _ => v.satisfies symbol literal
    | .isIn, .list items => v.isOneOf items
    | .isIn, _ => v.equals literal
    | .contains, _ => occursIn literal.needle v.render
    | .relation _, _ => false

namespace Store

/-- Whether two ids are related. -/
def related (s : Store) : Relation → String → String → Bool
  | .contradicts, a, b => s.hasContradiction a b
  | .supports, a, b => s.hasSupport a b

/-- Whether a node meets a condition. A relation condition compares the node's id with a string and
ignores its own field. -/
def meets (s : Store) (n : Node) (c : Condition) : Bool :=
  match c.operator, c.value with
  | .relation kind, .text id => s.related kind n.id id
  | .relation _, _ => false
  | operator, literal => FieldValue.meets (n.resolve c.field) operator literal

/-- Whether a node meets all of a list of conditions. -/
def meetsAll (s : Store) (n : Node) (conditions : List Condition) : Bool :=
  conditions.all fun c => s.meets n c

end Store

end EvidenceGraph
