/-
# `EvidenceGraph.Query.Encoding` — queries as JSON.

A literal is written as the JSON value it looks like, without a mark of its kind; reading tries truth
value, integer, binary64 value, string and list of strings in this order.
-/
import EvidenceGraph.Json.Document
import EvidenceGraph.Query.Basic

namespace EvidenceGraph.Query

open EvidenceGraph.Json

/-- A literal as JSON. -/
def Literal.toJson : Literal → Json
  | .bool b => .bool b
  | .int i => .int i.toInt
  | .float x => .float x
  | .text s => .str s
  | .list items => .strings items

/-- The literal of a JSON value. An integer beyond the signed 64-bit range becomes the nearest binary64
value. -/
def Literal.ofJson? : Json → Option Literal
  | .bool b => some (.bool b)
  | .int i =>
    match Decimal.int64? i with
    | some n => some (.int n)
    | none => some (.float (Float.ofInt i))
  | .float x => some (.float x)
  | .str s => some (.text s)
  | .arr items => (items.mapM fun j : Json => Json.string? j).map .list
  | _ => none

/-- Read a literal. -/
def Literal.decode? {δ : Type} [Document δ] (d : δ) : Option Literal :=
  (Document.value? d).bind Literal.ofJson?

/-- A condition as JSON. -/
def Condition.toJson (c : Condition) : Json :=
  .obj [("field", .str c.field), ("operator", .str c.operator.symbol), ("value", c.value.toJson)]

/-- Read a condition. -/
def Condition.decode? {δ : Type} [Document δ] (d : δ) : Option Condition := do
  let fields ← fields? ["field", "operator", "value"] d
  let field ← fields.required "field" Json.string?
  let operator ← fields.required "operator" (name? Operator.ofSymbol?)
  let value ← fields.required "value" Literal.decode?
  return { field, operator, value }

/-- A query as JSON. -/
def toJson (q : Query) : Json :=
  .obj
    [("select_fields", .strings q.select),
     ("conditions", .arr (q.conditions.map Condition.toJson)),
     ("order_by", (q.orderBy.map .str).getD .null),
     ("order_direction", .str q.order.symbol),
     ("limit", (q.limit.map fun n => .int n.toNat).getD .null),
     ("offset", .int q.offset.toNat)]

/-- Read a query. -/
def decode? {δ : Type} [Document δ] (d : δ) : Option Query := do
  let fields ← fields? ["select_fields", "conditions", "order_by", "order_direction", "limit", "offset"] d
  let select ← fields.required "select_fields" (list? Json.string?)
  let conditions ← fields.required "conditions" (list? Condition.decode?)
  let orderBy ← fields.optional "order_by" Json.string?
  let order ← fields.required "order_direction" (name? Order.ofSymbol?)
  let limit ← fields.optional "limit" Json.count?
  let offset ← fields.required "offset" Json.count?
  return { select, conditions, orderBy, order, limit, offset }

end EvidenceGraph.Query
