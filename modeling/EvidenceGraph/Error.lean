/-
# `EvidenceGraph.Error` — what can go wrong.

Every failure has a cause, a stable code with a number, and a wording. Numbers below 9000 blame the
caller's input, the others the surroundings.
-/

namespace EvidenceGraph

/-- The failures of the library. -/
inductive Error where
  | validation (problem : String)
  | parse (problem fragment : String)
  | invalidDirection (value : String)
  | nodeNotFound (id : String)
  | internal (problem : String)
  | configuration (problem : String)
  | serialization (problem : String)
  | io (problem : String)
deriving DecidableEq, Repr

namespace Error

/-- The stable name of a failure. -/
def code : Error → String
  | .validation _ => "VALIDATION_ERROR"
  | .parse _ _ => "PARSE_ERROR"
  | .invalidDirection _ => "INVALID_DIRECTION"
  | .nodeNotFound _ => "NODE_NOT_FOUND"
  | .internal _ => "INTERNAL_ERROR"
  | .configuration _ => "CONFIGURATION_ERROR"
  | .serialization _ => "SERIALIZATION_ERROR"
  | .io _ => "IO_ERROR"

/-- The number of a failure. -/
def number : Error → Nat
  | .validation _ => 1001
  | .parse _ _ => 1002
  | .invalidDirection _ => 1003
  | .nodeNotFound _ => 4001
  | .internal _ => 9001
  | .configuration _ => 9002
  | .serialization _ => 9003
  | .io _ => 9004

/-- Whether the caller's input is to blame. -/
def isClient (e : Error) : Bool := e.number < 9000

/-- The wording of a failure. -/
def message : Error → String
  | .validation problem => "Validation failed: " ++ problem
  | .parse problem fragment => "Query parse error: " ++ problem ++ " (at `" ++ fragment ++ "`)"
  | .invalidDirection value =>
    "Invalid traversal direction: " ++ value ++ " (expected downstream, upstream or both)"
  | .nodeNotFound id => "Evidence node not found: " ++ id
  | .internal problem => "Internal error: " ++ problem
  | .configuration problem => "Configuration error: " ++ problem
  | .serialization problem => "Serialization error: " ++ problem
  | .io problem => "I/O error: " ++ problem

end Error

end EvidenceGraph
