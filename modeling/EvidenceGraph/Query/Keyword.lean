/-
# `EvidenceGraph.Query.Keyword` — the reserved words of the query language.

A keyword is a bare word in any ASCII case; a quoted string is never one.
-/
import EvidenceGraph.Query.Lexeme

namespace EvidenceGraph.Query

open EvidenceGraph.Text

/-- The reserved words. -/
inductive Keyword where
  | select | source | filter | and | order | by | asc | desc | limit | offset | isIn | contains
deriving DecidableEq, Repr

/-- How a keyword is written. -/
def Keyword.spelling : Keyword → String
  | .select => "SELECT"
  | .source => "FROM"
  | .filter => "WHERE"
  | .and => "AND"
  | .order => "ORDER"
  | .by => "BY"
  | .asc => "ASC"
  | .desc => "DESC"
  | .limit => "LIMIT"
  | .offset => "OFFSET"
  | .isIn => "IN"
  | .contains => "CONTAINS"

/-- The keywords that structure a query; a field to order by is none of them. -/
def Keyword.structural : List Keyword :=
  [.select, .source, .filter, .and, .order, .by, .asc, .desc, .limit, .offset]

/-- Whether a word spells the keyword `k`. -/
def Keyword.isSpelled (k : Keyword) (word : String) : Bool := sameWord word k.spelling

/-- Whether a word spells a structural keyword. -/
def isStructural (word : String) : Bool := Keyword.structural.any fun k => k.isSpelled word

/-- Whether a token is the keyword `k`. -/
def Token.isKeyword (k : Keyword) : Token → Bool
  | .word text => k.isSpelled text
  | _ => false

/-- Whether the next lexeme is the keyword `k`. -/
def atKeyword (k : Keyword) : List Lexeme → Bool
  | [] => false
  | t :: _ => t.token.isKeyword k

end EvidenceGraph.Query
