/-
# `EvidenceGraph.Node.Basic` — evidence nodes.

A node is one claim: what kind it is, its payload, where it comes from and how far it is trusted, with
links to the claims that caused it and that it causes. A valid node has an id, a kind, and a confidence
that is not out of the range from zero to one.
-/
import EvidenceGraph.Error
import EvidenceGraph.Json.Basic
import EvidenceGraph.Node.Tags
import EvidenceGraph.Violation

namespace EvidenceGraph

/-- A claim with its evidence. -/
structure Node where
  id : String
  claimType : String
  content : Json.Object := .empty
  source : String := ""
  confidence : Float
  timestamp : String := ""
  /-- The claims that caused this one. -/
  parents : List String := []
  /-- The claims that this one causes. -/
  children : List String := []
  merkleHash : String := ""
  tags : Tags := .empty

namespace Node

/-- Whether a confidence is neither above one nor below zero; what is not a number is neither. -/
def isConfidence (x : Float) : Bool := !(1 < x) && !(x < 0)

/-- The fields of a node that are not valid, and why. -/
def violations (n : Node) : List (String × Violation) :=
  (if n.id.isEmpty then [("node_id", Violation.length)] else [])
    ++ (if n.claimType.isEmpty then [("claim_type", Violation.length)] else [])
    ++ (if isConfidence n.confidence then [] else [("confidence", Violation.range)])

/-- Fails on a node that is not valid. -/
def validate (n : Node) : Except Error Unit :=
  match n.violations with
  | [] => .ok ()
  | found => .error (.validation (Violation.describe found))

/-- Whether a node has a tag. -/
def hasTag (n : Node) (tag : String) : Bool := n.tags.contains tag

end Node

end EvidenceGraph
