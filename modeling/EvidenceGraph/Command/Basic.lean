/-
# `EvidenceGraph.Command.Basic` — what can be asked of the program.
-/
import EvidenceGraph.Causal.Direction

namespace EvidenceGraph

/-- A question about the evidence. -/
inductive Command where
  /-- The answer to a query: whole nodes, or only the selected fields if `project` is set. -/
  | query (text : String) (strict project : Bool)
  /-- What can be reached from a node; depth and direction have defaults. -/
  | traverse (root : String) (depth : Option UInt64) (direction : Option Causal.Direction)
  | contradictions (id : String)
  | supporting (id : String)
deriving DecidableEq, Repr

/-- A question with the places where settings and evidence are found. -/
structure Request where
  settings : Option String := none
  snapshot : Option String := none
  command : Command
deriving DecidableEq, Repr

end EvidenceGraph
