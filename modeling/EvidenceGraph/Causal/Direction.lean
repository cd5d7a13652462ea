/-
# `EvidenceGraph.Causal.Direction` — which causal links are followed.

A node lists the claims it was caused by (its parents) and the claims it causes (its children). A walk
follows one kind of link or both, and names its edges accordingly.
-/
import EvidenceGraph.Error
import EvidenceGraph.Text.Blank
import EvidenceGraph.Text.Caseless

namespace EvidenceGraph.Causal

open EvidenceGraph.Text

/-- The links that a walk follows. -/
inductive Direction where
  /-- From causes to effects. -/
  | downstream
  /-- From effects to causes. -/
  | upstream
  /-- Both, effects first. -/
  | both
deriving DecidableEq, Repr, Inhabited

/-- How the ends of an edge are related. -/
inductive Relationship where
  | causes
  | causedBy
  | relatedTo
deriving DecidableEq, Repr

/-- The written form of a relationship. -/
def Relationship.name : Relationship → String
  | .causes => "causes"
  | .causedBy => "caused_by"
  | .relatedTo => "related_to"

namespace Direction

/-- The name of a direction. -/
def name : Direction → String
  | .downstream => "downstream"
  | .upstream => "upstream"
  | .both => "both"

/-- The relationship on the edges of a walk. -/
def relationship : Direction → Relationship
  | .downstream => .causes
  | .upstream => .causedBy
  | .both => .relatedTo

/-- The direction with the given name, in any case and with blanks around it. -/
def ofName (value : String) : Except Error Direction :=
  let word := String.ofList (trim value.toList)
  match [Direction.downstream, .upstream, .both].find? fun d => sameWord word d.name with
  | some d => .ok d
  | none => .error (.invalidDirection value)

end Direction

end EvidenceGraph.Causal
