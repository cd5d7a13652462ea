/-
# `EvidenceGraph.Store.Projection` — the selected fields of the nodes of an answer.
-/
import EvidenceGraph.Node.Encoding
import EvidenceGraph.Store.Selection

namespace EvidenceGraph

/-- The selected fields of a node; an absent one is null. -/
def Node.project (n : Node) (fields : List String) : Json :=
  (Json.Object.ofList (fields.map fun f => (f, ((n.resolve f).map FieldValue.toJson).getD .null))).toJson

namespace Answer

/-- One row for each node: the selected fields, or the whole node if all are selected. -/
def rows (a : Answer) : List Json :=
  a.nodes.map fun n => if Query.selectsAll a.select then n.toJson else n.project a.select

/-- Diagnostics as JSON. -/
def diagnosticsJson (a : Answer) : Json :=
  .arr (a.diagnostics.map fun d => .obj [("fragment", .str d.fragment), ("reason", .str d.fault.message)])

/-- An answer with whole nodes as JSON; diagnostics are left out if there are none. -/
def toJson (a : Answer) : Json :=
  .obj
    ([("nodes", .arr (a.nodes.map Node.toJson)),
      ("total_count", .int a.total),
      ("query", .str a.query),
      ("select_fields", .strings a.select)]
      ++ if a.diagnostics.isEmpty then [] else [("diagnostics", a.diagnosticsJson)])

/-- An answer with rows as JSON. -/
def projectedJson (a : Answer) : Json :=
  .obj
    [("diagnostics", a.diagnosticsJson),
     ("query", .str a.query),
     ("rows", .arr a.rows),
     ("total_count", .int a.total)]

end Answer

end EvidenceGraph
