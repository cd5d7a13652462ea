/-
# `EvidenceGraph.Query.Parse` — from text to query.

The text is trimmed of blanks, of semicolons behind it and of the blanks before those. `Query.parse`
reads it leniently and always has an answer; `Query.parseStrict` returns the first fault instead.
-/
import EvidenceGraph.Query.Recovery

namespace EvidenceGraph.Query

open EvidenceGraph.Text

/-- A query and the reports on what was left out of its text. -/
structure Parsed where
  query : Query
  diagnostics : List Diagnostic
deriving BEq, Repr

/-- The part of a text that is read as a query. -/
def trimmed (source : String) : List Char :=
  trimEndWhile isBlank (trimEndWhile (fun c => c == ';') (trim source.toList))

/-- A condition that nothing but `AND`, a clause or the end follows. -/
def boundedCondition : Reader Condition := do
  let found ← condition
  let ts ← Reader.ahead
  if ts.isEmpty || atKeyword .and ts || atTailClause ts then
    return found
  else
    Reader.miss .textAfterCondition

theorem forward_boundedCondition : boundedCondition.Forward :=
  Reader.forward_bind forward_condition fun _ => Reader.forward_bind Reader.forward_ahead fun _ =>
    Reader.forward_ite (Reader.forward_pure _) (Reader.forward_miss _)

/-- What follows the first lexeme behind a settled condition is shorter than the text from its start. -/
theorem length_behind_condition {mode : Mode} {text : List Char} {ts rest : List Lexeme} {t : Lexeme}
    {settled : Settled (Option Condition)}
    (h : settle mode text [.and] boundedCondition ts = .ok settled) (hrest : settled.rest = t :: rest) :
    rest.length < ts.length := by
  have hlen := (settle_rest_suffix forward_boundedCondition h).length_le
  rw [hrest] at hlen
  simpa [Nat.succ_le_iff] using hlen

/-- The conditions of a query, joined by `AND`. -/
def conditionList (mode : Mode) (text : List Char) (ts : List Lexeme) :
    Except Diagnostic (Settled (List Condition)) :=
  if ts.isEmpty || atTailClause ts then
    -- behind `WHERE` or `AND` there has to be a condition
    (reportHere mode text .missingCondition ts).map fun reports => ⟨[], reports, ts⟩
  else
    match h : settle mode text [.and] boundedCondition ts with
    | .error found => .error found
    | .ok found =>
      match hrest : found.rest with
      | [] => .ok ⟨found.value.toList, found.reports, []⟩
      | t :: rest =>
        if t.token.isKeyword .and then
          have _shorter := length_behind_condition h hrest
          (conditionList mode text rest).map fun later =>
            ⟨found.value.toList ++ later.value, found.reports ++ later.reports, later.rest⟩
        else
          .ok ⟨found.value.toList, found.reports, t :: rest⟩
termination_by ts.length

/-- A query with one clause taken over; a later clause replaces an earlier one of its kind. -/
def apply (q : Query) : TailClause → Query
  | .order field direction => { q with orderBy := some field, order := direction }
  | .limit n => { q with limit := some n }
  | .offset n => { q with offset := n }

/-- A clause behind the conditions. A strict reading wants ranks to rise: no clause comes twice or
before one that it should follow. -/
def rankedClause (mode : Mode) (lastRank rank : Nat) : Reader TailClause :=
  if rank ≠ 0 ∧ rank ≤ lastRank ∧ mode = .strict then Reader.miss .clauseOutOfOrder
  else tailClause rank

/-- The clauses behind the conditions, taken over into the query `q`. At least one lexeme is passed at
each step. -/
def tailClauses (mode : Mode) (text : List Char) (lastRank : Nat) (q : Query) (ts : List Lexeme) :
    Except Diagnostic Parsed :=
  match ts with
  | [] => .ok ⟨q, []⟩
  | t :: more =>
    let rank := clauseRank (t :: more)
    match settle mode text [] (rankedClause mode lastRank rank) (t :: more) with
    | .error found => .error found
    | .ok found =>
      -- a clause word that starts no clause is a stop for skipping, so it has to be passed here
      let next := if found.rest.length < (t :: more).length then found.rest else more
      (tailClauses mode text (max lastRank rank) (found.value.elim q q.apply) next).map fun later =>
        ⟨later.query, found.reports ++ later.diagnostics⟩
termination_by ts.length
decreasing_by
  split <;> simp_all

/-- The conditions behind `WHERE`, if there is one. -/
def filterClause (mode : Mode) (text : List Char) (ts : List Lexeme) :
    Except Diagnostic (Settled (List Condition)) :=
  if atKeyword .filter ts then conditionList mode text ts.tail else .ok ⟨[], [], ts⟩

/-- The clauses of a query that has at least one lexeme. -/
def clauses (mode : Mode) (text : List Char) (ts : List Lexeme) : Except Diagnostic Parsed := do
  let selected ← settle mode text [.source, .filter] selectClause ts
  let source ← settle mode text [.filter] (sourceClause mode) selected.rest
  let filter ← filterClause mode text source.rest
  let start : Query := { select := selected.value.getD ["*"], conditions := filter.value }
  let later ← tailClauses mode text 0 start filter.rest
  return ⟨later.query, selected.reports ++ source.reports ++ filter.reports ++ later.diagnostics⟩

/-- The report on a quoted string that is never closed. -/
def openQuoteReports (text : List Char) (lexed : Lexed) : List Diagnostic :=
  lexed.openQuote.toList.map fun start => ⟨slice text start text.length, .unterminatedQuote⟩

/-- Read a query in the given mode. -/
def parseIn (mode : Mode) (source : String) : Except Diagnostic Parsed :=
  let text := trimmed source
  let lexed := lex text
  let quotes := openQuoteReports text lexed
  match mode, quotes with
  | .strict, found :: _ => .error found
  | _, _ =>
    if lexed.lexemes.isEmpty then
      (reportHere mode text .emptyQuery []).map fun reports => ⟨{}, quotes ++ reports⟩
    else
      (clauses mode text lexed.lexemes).map fun parsed =>
        ⟨parsed.query, quotes ++ parsed.diagnostics⟩

/-- Read a query leniently. -/
def parse (source : String) : Parsed :=
  match parseIn .lenient source with
  | .ok parsed => parsed
  -- lenient readings never fail, but there would be an answer even so
  | .error found => ⟨{}, [⟨source, .failed found.error⟩]⟩

/-- Read a query strictly. -/
def parseStrict (source : String) : Except Diagnostic Query :=
  (parseIn .strict source).map Parsed.query

end EvidenceGraph.Query
