/-
# `EvidenceGraph.Query.Basic` — queries and their canonical text.

A query names the fields to show, conditions that all have to hold, an order, and a page of the result.
`Query.write` is its canonical text: keywords in capitals, one space between words, the default page and
order left out.
-/
import EvidenceGraph.Query.Lexeme
import EvidenceGraph.Query.Literal

namespace EvidenceGraph.Query

/-- The relations between nodes that a condition can ask for. -/
inductive Relation where
  | contradicts
  | supports
deriving DecidableEq, Repr

/-- What a condition asks of a field. -/
inductive Operator where
  | compare (symbol : Comparison)
  | isIn
  | contains
  | relation (kind : Relation)
deriving DecidableEq, Repr

/-- The sign of a comparison. -/
def Comparison.symbol : Comparison → String
  | .eq => "="
  | .ne => "!="
  | .gt => ">"
  | .lt => "<"
  | .ge => ">="
  | .le => "<="

/-- The name of a relation. -/
def Relation.name : Relation → String
  | .contradicts => "contradicts"
  | .supports => "supports"

/-- The sign, keyword or name of an operator. -/
def Operator.symbol : Operator → String
  | .compare c => c.symbol
  | .isIn => "IN"
  | .contains => "CONTAINS"
  | .relation r => r.name

/-- Every operator, in the order of their declaration. -/
def Operator.all : List Operator :=
  [.compare .eq, .compare .ne, .compare .gt, .compare .lt, .compare .ge, .compare .le, .isIn, .contains,
   .relation .contradicts, .relation .supports]

/-- The operator with the given sign, keyword or name, exactly spelled. -/
def Operator.ofSymbol? (symbol : String) : Option Operator :=
  Operator.all.find? fun op => op.symbol == symbol

/-- Whether an operator asks for a relation to another node. -/
def Operator.isRelation : Operator → Bool
  | .relation _ => true
  | _ => false

/-- The field that relation conditions speak about. -/
def nodeIdField : String := "node_id"

/-- One condition of a query. -/
structure Condition where
  field : String
  operator : Operator
  value : Literal
deriving BEq, Repr

/-- The condition `contradicts(node_id='id')` or `supports(node_id='id')`. -/
def Condition.ofRelation (kind : Relation) (id : String) : Condition :=
  ⟨nodeIdField, .relation kind, .text id⟩

/-- The canonical text of a condition. -/
def Condition.write (c : Condition) : List Char :=
  if c.operator.isRelation then
    c.operator.symbol.toList ++ '(' :: (nodeIdField.toList ++ '=' :: (c.value.write ++ [')']))
  else
    c.field.toList ++ ' ' :: (c.operator.symbol.toList ++ ' ' :: c.value.write)

/-- The direction of an order. -/
inductive Order where
  | ascending
  | descending
deriving DecidableEq, Repr

/-- The keyword of a direction. -/
def Order.symbol : Order → String
  | .ascending => "ASC"
  | .descending => "DESC"

/-- The direction with the given keyword, exactly spelled. -/
def Order.ofSymbol? (symbol : String) : Option Order :=
  [Order.ascending, Order.descending].find? fun d => d.symbol == symbol

end EvidenceGraph.Query

namespace EvidenceGraph

/-- A query. Without clauses it selects every field of every node. -/
structure Query where
  /-- The fields to show; `*` stands for all of them. -/
  select : List String := ["*"]
  /-- The conditions that all have to hold. -/
  conditions : List Query.Condition := []
  orderBy : Option String := none
  order : Query.Order := .ascending
  limit : Option UInt64 := none
  offset : UInt64 := 0
deriving BEq, Repr

namespace Query

/-- Whether a selection names every field. -/
def selectsAll (fields : List String) : Bool := fields.isEmpty || fields.contains "*"

/-- The conditions with the keyword in front of each: `WHERE` once, `AND` from then on. -/
def writeConditions : List Condition → List Char
  | [] => []
  | c :: cs => " WHERE ".toList ++ c.write ++ cs.flatMap fun c => " AND ".toList ++ c.write

/-- The `ORDER BY` clause, if there is an order. -/
def writeOrder (q : Query) : List Char :=
  match q.orderBy with
  | none => []
  | some field => " ORDER BY ".toList ++ field.toList ++ ' ' :: q.order.symbol.toList

/-- The `LIMIT` clause, if there is a limit. -/
def writeLimit (q : Query) : List Char :=
  match q.limit with
  | none => []
  | some n => " LIMIT ".toList ++ Decimal.writeNat n.toNat

/-- The `OFFSET` clause, if the offset is not zero. -/
def writeOffset (q : Query) : List Char :=
  if q.offset = 0 then [] else " OFFSET ".toList ++ Decimal.writeNat q.offset.toNat

/-- The canonical text of a query. -/
def write (q : Query) : List Char :=
  "SELECT ".toList ++ writeSeparated (q.select.map String.toList) ++ " FROM evidence".toList
    ++ writeConditions q.conditions ++ q.writeOrder ++ q.writeLimit ++ q.writeOffset

/-- The canonical text of a query, as a string. -/
def display (q : Query) : String := String.ofList q.write

/-- The canonical text of a condition, as a string. -/
def Condition.display (c : Condition) : String := String.ofList c.write

end Query

end EvidenceGraph
