/-
# `EvidenceGraph.Node.Field` — the fields of a node by name.

Nine names stand for attributes of a node; any other name is looked up in its content, where null counts
as absent. The value of a field has a text, in which substrings are searched and by which values that are
not scalar are sorted, and a JSON form for projections.
-/
import EvidenceGraph.Json.Writer
import EvidenceGraph.Node.Basic

namespace EvidenceGraph

/-- The value of a field. -/
inductive FieldValue where
  | bool (value : Bool)
  | int (value : Int64)
  | float (value : Float)
  | text (value : String)
  /-- A list of ids, in its order. -/
  | ids (items : List String)
  | tags (items : Tags)
  /-- An array or object of the content. -/
  | json (value : Json)

namespace FieldValue

/-- The value of a member of the content. An integer beyond the signed 64-bit range becomes the nearest
binary64 value; null is no value. -/
def ofJson? : Json → Option FieldValue
  | .null => none
  | .bool b => some (.bool b)
  | .int i =>
    match Decimal.int64? i with
    | some n => some (.int n)
    | none => some (.float (Float.ofInt i))
  | .float x => some (.float x)
  | .str s => some (.text s)
  | .arr items => some (.json (.arr items))
  | .obj members => some (.json (.obj members))

/-- The kind of a value. -/
def kind : FieldValue → String
  | .bool _ => "bool"
  | .int _ => "int"
  | .float _ => "float"
  | .text _ => "text"
  | .ids _ => "list"
  | .tags _ => "tags"
  | .json _ => "json"

/-- The JSON form of a value. -/
def toJson : FieldValue → Json
  | .bool b => .bool b
  | .int i => .int i.toInt
  | .float x => .float x
  | .text s => .str s
  | .ids items => .strings items
  | .tags items => .strings items.items
  | .json j => j

/-- The text of a value: strings verbatim, numbers as in a query, collections as compact JSON. -/
def render : FieldValue → List Char
  | .bool b => if b then "true".toList else "false".toList
  | .int i => Decimal.writeInt i.toInt
  | .float x => (Decimal.display x).toList
  | .text s => s.toList
  | .ids items => (Json.strings items).write
  | .tags items => (Json.strings items.items).write
  | .json j => j.write

end FieldValue

namespace Node

/-- The attributes of a node that have names in queries. -/
def attributes : List (String × (Node → FieldValue)) :=
  [("node_id", fun n => .text n.id),
   ("claim_type", fun n => .text n.claimType),
   ("source", fun n => .text n.source),
   ("confidence", fun n => .float n.confidence),
   ("timestamp", fun n => .text n.timestamp),
   ("merkle_hash", fun n => .text n.merkleHash),
   ("parent_ids", fun n => .ids n.parents),
   ("child_ids", fun n => .ids n.children),
   ("tags", fun n => .tags n.tags)]

/-- The value of a field: an attribute, or else a member of the content. -/
def resolve (n : Node) (name : String) : Option FieldValue :=
  match attributes.lookup name with
  | some read => some (read n)
  | none => (n.content.get? name).bind FieldValue.ofJson?

end Node

end EvidenceGraph
