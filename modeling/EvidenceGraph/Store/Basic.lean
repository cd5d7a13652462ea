/-
# `EvidenceGraph.Store.Basic` — a store of nodes and of relations between them.

Nodes are kept in the order of their arrival, the first one of each id, with an index from ids to
positions. Contradictions hold both ways, supports one way; both may name ids without a node.
-/
import Std.Data.HashMap
import Std.Data.HashSet
import EvidenceGraph.Node.Basic

namespace EvidenceGraph

/-- Nodes and relations. -/
structure Store where
  /-- The nodes in the order of their arrival. -/
  nodes : Array Node := #[]
  /-- The position of each id in `nodes`. -/
  index : Std.HashMap String Nat := {}
  /-- Contradicting pairs, both ways. -/
  contradictions : Std.HashSet (String × String) := {}
  /-- Pairs of a supporting and a supported id. -/
  supports : Std.HashSet (String × String) := {}

namespace Store

/-- No nodes and no relations. -/
def empty : Store := {}

instance : Inhabited Store := ⟨empty⟩

/-- Whether there is a node of the given id. -/
def contains (s : Store) (id : String) : Bool := s.index.contains id

/-- The node of the given id. -/
def get? (s : Store) (id : String) : Option Node := s.index[id]?.bind fun i => s.nodes[i]?

/-- The nodes in the order of their arrival. -/
def toList (s : Store) : List Node := s.nodes.toList

/-- The number of nodes. -/
def size (s : Store) : Nat := s.nodes.size

/-- Add a node. The answer tells whether its id was new; if not, the store stays as it is. -/
def add (s : Store) (n : Node) : Store × Bool :=
  if s.contains n.id then
    (s, false)
  else
    let position := s.nodes.size
    ({ s with nodes := s.nodes.push n, index := s.index.insert n.id position }, true)

/-- The store of a list of nodes. -/
def ofNodes (nodes : List Node) : Store := nodes.foldl (fun s n => (s.add n).1) empty

/-- Let two ids contradict each other. The answer tells whether that is new. -/
def addContradiction (s : Store) (a b : String) : Store × Bool :=
  ({ s with contradictions := (s.contradictions.insert (a, b)).insert (b, a) },
   !s.contradictions.contains (a, b))

/-- Let one id support another. The answer tells whether that is new. -/
def addSupport (s : Store) (supporter supported : String) : Store × Bool :=
  ({ s with supports := s.supports.insert (supporter, supported) },
   !s.supports.contains (supporter, supported))

/-- Whether two ids contradict each other. -/
def hasContradiction (s : Store) (a b : String) : Bool := s.contradictions.contains (a, b)

/-- Whether the first id supports the second. -/
def hasSupport (s : Store) (a b : String) : Bool := s.supports.contains (a, b)

end Store

end EvidenceGraph
