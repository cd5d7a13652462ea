/-
# `EvidenceGraph.Snapshot` — stores in written form.

A snapshot lists nodes and pairs of related ids. It becomes a store if all its nodes are valid and its
relations name only nodes that it lists. Nodes are checked first, then contradictions, then supports,
each in their order.
-/
import EvidenceGraph.Node.Encoding
import EvidenceGraph.Store.Basic

namespace EvidenceGraph

/-- A store in written form. -/
structure Snapshot where
  nodes : List Node := []
  /-- Pairs of ids that contradict each other. -/
  contradictions : List (String × String) := []
  /-- Pairs of a supporting and a supported id. -/
  supports : List (String × String) := []

namespace Snapshot

open EvidenceGraph.Json

/-- Read a snapshot. -/
def decode? {δ : Type} [Document δ] (d : δ) : Option Snapshot := do
  let fields ← fields? ["nodes", "contradictions", "supports"] d
  let nodes ← fields.withDefault "nodes" (list? Node.decode?) []
  let contradictions ← fields.withDefault "contradictions" (list? pair?) []
  let supports ← fields.withDefault "supports" (list? pair?) []
  return { nodes, contradictions, supports }

/-- Read the text of a snapshot. -/
def ofText (text : String) : Except Error Snapshot :=
  match decodeText? decode? text with
  | some snapshot => .ok snapshot
  | none => .error (.serialization "not a snapshot")

/-- Read the snapshot at a path, of which the text or the reason why there is none is given. -/
def ofFile (path : String) (text : Except String String) : Except Error Snapshot :=
  match text with
  | .ok text => ofText text
  | .error reason => .error (.io (path ++ ": " ++ reason))

/-- Add valid nodes to a store; a second node of an id is passed over. -/
def addNodes (s : Store) : List Node → Except Error Store
  | [] => .ok s
  | n :: more => do
    n.validate
    addNodes (s.add n).1 more

/-- Fails unless the store has a node of the given id. -/
def require (s : Store) (id : String) : Except Error Unit :=
  if s.contains id then .ok () else .error (.nodeNotFound id)

/-- Add pairs of known ids to a relation. -/
def addPairs (add : Store → String → String → Store) (s : Store) :
    List (String × String) → Except Error Store
  | [] => .ok s
  | (a, b) :: more => do
    require s a
    require s b
    addPairs add (add s a b) more

/-- The store that a snapshot describes. -/
def toStore (snapshot : Snapshot) : Except Error Store := do
  let s ← addNodes .empty snapshot.nodes
  let s ← addPairs (fun s a b => (s.addContradiction a b).1) s snapshot.contradictions
  addPairs (fun s a b => (s.addSupport a b).1) s snapshot.supports

end Snapshot

end EvidenceGraph
