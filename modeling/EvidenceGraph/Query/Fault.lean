/-
# `EvidenceGraph.Query.Fault` — what can be wrong with a query.

A diagnostic is a fault together with the text it concerns.
-/
import EvidenceGraph.Error
import EvidenceGraph.Query.Keyword

namespace EvidenceGraph.Query

/-- The ways in which a text fails to be a query. -/
inductive Fault where
  | unterminatedQuote
  | emptyQuery
  | missingKeyword (keyword : Keyword)
  | missingSelectField
  | missingSource
  | unknownSource
  | missingCondition
  | textAfterCondition
  | missingConditionField
  | missingOperator
  | missingValue
  | missingString
  | missingNodeId
  | missingLeftParen
  | missingEquals
  | missingRightParen
  | unclosedList
  | missingOrderField
  | missingCount (keyword : Keyword)
  | unexpectedText
  | clauseOutOfOrder
  /-- A lenient reading failed as a whole, which none is meant to. -/
  | failed (error : Error)
deriving DecidableEq, Repr

/-- The wording of a fault. -/
def Fault.message : Fault → String
  | .unterminatedQuote => "unterminated quoted string"
  | .emptyQuery => "empty query"
  | .missingKeyword k => "expected " ++ k.spelling
  | .missingSelectField => "expected a field name or `*`"
  | .missingSource => "expected a source after FROM"
  | .unknownSource => "unknown source, expected `evidence`"
  | .missingCondition => "expected a condition"
  | .textAfterCondition => "unexpected text after condition"
  | .missingConditionField => "expected a field name"
  | .missingOperator => "expected an operator, IN or CONTAINS"
  | .missingValue => "expected a value"
  | .missingString => "expected a string"
  | .missingNodeId => "expected `node_id` inside relation"
  | .missingLeftParen => "expected `(`"
  | .missingEquals => "expected `=` after node_id"
  | .missingRightParen => "expected `)`"
  | .unclosedList => "expected `)` to close IN list"
  | .missingOrderField => "expected a field after ORDER BY"
  | .missingCount k => k.spelling ++ " expects a non-negative integer"
  | .unexpectedText => "unexpected text"
  | .clauseOutOfOrder => "clause repeated or out of order"
  | .failed error => error.message

/-- A fault and the part of the query it concerns. -/
structure Diagnostic where
  fragment : String
  fault : Fault
deriving DecidableEq, Repr

/-- The failure that a diagnostic stands for. -/
def Diagnostic.error (d : Diagnostic) : Error := .parse d.fault.message d.fragment

end EvidenceGraph.Query
