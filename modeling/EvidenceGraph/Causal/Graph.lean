/-
# `EvidenceGraph.Causal.Graph` — the part of the causal graph around a node.

A graph holds the visited nodes by id and the edges in the order of their discovery. An edge is dangling
if its target was not visited: it is missing from the store or lies beyond the depth of the walk.
-/
import Std.Data.TreeMap
import EvidenceGraph.Causal.Direction
import EvidenceGraph.Node.Encoding

namespace EvidenceGraph.Causal

/-- A link that was followed. -/
structure Edge where
  source : String
  target : String
  relationship : Relationship
deriving DecidableEq, Repr

/-- An edge as JSON; all edges weigh the same. -/
def Edge.toJson (e : Edge) : Json :=
  .obj
    [("from_id", .str e.source),
     ("to_id", .str e.target),
     ("relationship_type", .str e.relationship.name),
     ("weight", .float 1)]

/-- What a walk found. -/
structure Graph where
  /-- The node it started from, if there is one. -/
  root : Option Node := none
  /-- The visited nodes by id. -/
  nodes : Std.TreeMap String Node := {}
  /-- The followed links, in the order of their discovery. -/
  edges : Array Edge := #[]

namespace Graph

/-- Whether the node of an id was visited. -/
def contains (g : Graph) (id : String) : Bool := g.nodes.contains id

/-- The ids of the visited nodes, in increasing order. -/
def ids (g : Graph) : List String := g.nodes.keys

/-- The edges to nodes that were not visited. -/
def dangling (g : Graph) : List Edge := g.edges.toList.filter fun e => !g.contains e.target

/-- Whether the walk had nowhere to start. -/
def isEmpty (g : Graph) : Bool := g.root.isNone

/-- A graph as JSON. -/
def toJson (g : Graph) : Json :=
  .obj
    [("root_node", (g.root.map Node.toJson).getD .null),
     ("nodes", .obj (g.nodes.toList.map fun entry => (entry.1, entry.2.toJson))),
     ("edges", .arr (g.edges.toList.map Edge.toJson))]

end Graph

end EvidenceGraph.Causal
