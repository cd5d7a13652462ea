/-
# `EvidenceGraph.Command.Metrics` — what is counted while a command runs.

A query counts itself, its matches, the nodes that it returned and the fragments that were left out of its
text. A walk counts itself by direction, its nodes and its edges; a walk without a root counts nothing.
-/
import EvidenceGraph.Causal.Walk
import EvidenceGraph.Store.Selection

namespace EvidenceGraph

/-- A number under a name, with labels in braces behind some names. -/
structure Metric where
  name : String
  value : Nat
deriving DecidableEq, Repr

namespace Metric

/-- A metric as a line. -/
def line (m : Metric) : String := m.name ++ " " ++ String.ofList (Decimal.writeNat m.value)

/-- What a query counts, in the order of the names. -/
def ofAnswer (a : Answer) : List Metric :=
  (if a.diagnostics.isEmpty then [] else [⟨"nexus_dropped_fragments_total", a.diagnostics.length⟩])
    ++ [⟨"nexus_queries_total", 1⟩,
        ⟨"nexus_query_matches", a.total⟩,
        ⟨"nexus_query_results_total", a.nodes.length⟩]

/-- What a walk counts, in the order of the names. -/
def ofGraph (direction : Causal.Direction) (g : Causal.Graph) : List Metric :=
  if g.isEmpty then []
  else
    [⟨"nexus_traversal_edges_total", g.edges.size⟩,
     ⟨"nexus_traversal_nodes", g.nodes.size⟩,
     ⟨"nexus_traversals_total\x7bdirection=\"" ++ direction.name ++ "\"\x7d", 1⟩]

end Metric

end EvidenceGraph
