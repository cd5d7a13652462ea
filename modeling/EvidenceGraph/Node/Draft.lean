/-
# `EvidenceGraph.Node.Draft` — building nodes and deriving their identity.

A draft collects the parts of a node in any order. Building it fills in what was left open: the time, the
id, which is the start of a digest of kind, content, source and time, and the Merkle hash, which digests
that digest with the ids of the parents in increasing order.
-/
import EvidenceGraph.Digest.Sha256
import EvidenceGraph.Json.Writer
import EvidenceGraph.Node.Basic

namespace EvidenceGraph.Node

/-- A node in the making. -/
structure Draft where
  claimType : String
  source : String
  id : Option String := none
  content : Json.Object := .empty
  confidence : Float := 1
  timestamp : Option String := none
  parents : List String := []
  children : List String := []
  tags : Tags := .empty
  merkleHash : Option String := none

namespace Draft

/-- Use a given id in place of the derived one. -/
def withId (d : Draft) (id : String) : Draft := { d with id := some id }

/-- Replace the content. -/
def withContent (d : Draft) (content : Json.Object) : Draft := { d with content }

/-- Set one member of the content. -/
def withField (d : Draft) (key : String) (value : Json) : Draft :=
  { d with content := d.content.insert key value }

def withConfidence (d : Draft) (confidence : Float) : Draft := { d with confidence }

def withTimestamp (d : Draft) (timestamp : String) : Draft := { d with timestamp := some timestamp }

/-- Add a parent behind the others. -/
def withParent (d : Draft) (id : String) : Draft := { d with parents := d.parents ++ [id] }

/-- Add a child behind the others. -/
def withChild (d : Draft) (id : String) : Draft := { d with children := d.children ++ [id] }

def withTag (d : Draft) (tag : String) : Draft := { d with tags := d.tags.insert tag }

/-- Use a given Merkle hash in place of the derived one. -/
def withMerkleHash (d : Draft) (hash : String) : Draft := { d with merkleHash := some hash }

end Draft

/-- The UTF-8 bytes of a string. -/
def utf8 (s : String) : List UInt8 := s.toUTF8.toList

/-- The bytes whose digest identifies the content of a node: kind, content, source and time, with a zero
byte between them. -/
def contentBytes (claimType : String) (content : Json.Object) (source timestamp : String) : List UInt8 :=
  utf8 claimType ++ 0 :: (utf8 content.toJson.compact ++ 0 :: (utf8 source ++ 0 :: utf8 timestamp))

/-- The bytes that the Merkle hash adds to the content digest: every parent in increasing order, each
with a zero byte behind it. -/
def parentBytes (parents : List String) : List UInt8 :=
  (parents.mergeSort fun a b => decide (a ≤ b)).flatMap fun id => utf8 id ++ [0]

/-- The number of hexadecimal digits in a derived id. -/
def derivedIdLength : Nat := 16

namespace Draft

/-- The digest that identifies the content of a draft at the given time. -/
def contentDigest (d : Draft) (timestamp : String) : List UInt8 :=
  Digest.sha256 (contentBytes d.claimType d.content d.source timestamp)

/-- The node of a draft; `now` is the time of a draft that has none. -/
def complete (d : Draft) (now : String) : Node :=
  let timestamp := d.timestamp.getD now
  let digest := d.contentDigest timestamp
  { id := d.id.getD (String.ofList ((Digest.hex digest).toList.take derivedIdLength))
    claimType := d.claimType
    content := d.content
    source := d.source
    confidence := d.confidence
    timestamp
    parents := d.parents
    children := d.children
    merkleHash := d.merkleHash.getD (Digest.hex (Digest.sha256 (digest ++ parentBytes d.parents)))
    tags := d.tags }

/-- Build and validate a node. -/
def build (d : Draft) (now : String) : Except Error Node := do
  let n := d.complete now
  n.validate
  return n

end Draft

end EvidenceGraph.Node
