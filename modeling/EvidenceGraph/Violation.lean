/-
# `EvidenceGraph.Violation` — why a field is not valid.
-/

namespace EvidenceGraph

/-- Why a field is not valid. -/
inductive Violation where
  /-- Empty where there has to be a text. -/
  | length
  /-- Outside the range of the field. -/
  | range
deriving DecidableEq, Repr

/-- The code of a violation. -/
def Violation.code : Violation → String
  | .length => "length"
  | .range => "range"

/-- Violations by field, in one line. -/
def Violation.describe (found : List (String × Violation)) : String :=
  ", ".intercalate (found.map fun v => v.1 ++ ": " ++ v.2.code)

end EvidenceGraph
