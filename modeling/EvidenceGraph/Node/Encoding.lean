/-
# `EvidenceGraph.Node.Encoding` — nodes as JSON.

A node is written with all its fields in a fixed order. Reading wants an id, a kind and a confidence, and
takes the defaults for everything else; it does not validate.
-/
import EvidenceGraph.Json.Document
import EvidenceGraph.Node.Basic

namespace EvidenceGraph.Node

open EvidenceGraph.Json

/-- A node as JSON. -/
def toJson (n : Node) : Json :=
  .obj
    [("node_id", .str n.id),
     ("claim_type", .str n.claimType),
     ("content", n.content.toJson),
     ("source", .str n.source),
     ("confidence", .float n.confidence),
     ("timestamp", .str n.timestamp),
     ("parent_ids", .strings n.parents),
     ("child_ids", .strings n.children),
     ("merkle_hash", .str n.merkleHash),
     ("tags", .strings n.tags.items)]

/-- The names of the fields, in the order in which they are written. -/
def fieldNames : List String :=
  ["node_id", "claim_type", "content", "source", "confidence", "timestamp", "parent_ids", "child_ids",
   "merkle_hash", "tags"]

/-- Read a node. -/
def decode? {δ : Type} [Document δ] (d : δ) : Option Node := do
  let fields ← fields? fieldNames d
  let id ← fields.required "node_id" string?
  let claimType ← fields.required "claim_type" string?
  let content ← fields.withDefault "content" object? .empty
  let source ← fields.withDefault "source" string? ""
  let confidence ← fields.required "confidence" float?
  let timestamp ← fields.withDefault "timestamp" string? ""
  let parents ← fields.withDefault "parent_ids" (list? string?) []
  let children ← fields.withDefault "child_ids" (list? string?) []
  let merkleHash ← fields.withDefault "merkle_hash" string? ""
  let tags ← fields.withDefault "tags" (list? string?) []
  return { id, claimType, content, source, confidence, timestamp, parents, children, merkleHash,
           tags := .ofList tags }

end EvidenceGraph.Node
