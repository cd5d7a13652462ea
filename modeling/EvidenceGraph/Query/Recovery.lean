/-
# `EvidenceGraph.Query.Recovery` — what happens at a fault.

A strict reading ends with the fault and the text up to the lexeme where it was met. A lenient reading
skips to the next point where it can go on, treating what stands in parentheses as one piece, and reports
the text it skipped.
-/
import EvidenceGraph.Query.Clause

namespace EvidenceGraph.Query

/-- The text shown when there is no lexeme to show. -/
def endOfQuery : String := "<end of query>"

/-- The text from the first lexeme of `start` up to the first one of `rest`, which is a suffix of
`start`; at least the first lexeme is shown, if there is one. -/
def fragment (text : List Char) (start rest : List Lexeme) : String :=
  match start with
  | [] => endOfQuery
  | first :: more =>
    -- the lexeme before `rest`, or the first one if nothing was read
    let last := (more.take (start.length - rest.length - 1)).getLast?.getD first
    slice text first.start last.stop

/-- Where skipping may stop: at one of the given keywords or at a clause behind the conditions. -/
def atStop (stops : List Keyword) (ts : List Lexeme) : Bool :=
  stops.any (fun k => atKeyword k ts) || atTailClause ts

/-- The nesting of parentheses behind a token. -/
def Token.nesting (depth : Nat) : Token → Nat
  | .leftParen => depth + 1
  | .rightParen => depth - 1
  | _ => depth

/-- Skip to the next stop outside parentheses. -/
def skip (stops : List Keyword) (depth : Nat) : List Lexeme → List Lexeme
  | [] => []
  | t :: ts =>
    if depth = 0 && atStop stops (t :: ts) then t :: ts
    else skip stops (t.token.nesting depth) ts

theorem skip_suffix (stops : List Keyword) (depth : Nat) (ts : List Lexeme) :
    skip stops depth ts <:+ ts := by
  induction ts generalizing depth with
  | nil => exact List.suffix_rfl
  | cons t ts ih =>
    unfold skip
    split
    · exact List.suffix_rfl
    · exact (ih _).trans (List.suffix_cons t ts)

/-- What came of reading a part of a query: its value if it could be read, reports on what was skipped,
and the lexemes to come. -/
structure Settled (α : Type) where
  value : α
  reports : List Diagnostic
  rest : List Lexeme

/-- Read a part of a query and deal with its fault. -/
def settle {α : Type} (mode : Mode) (text : List Char) (stops : List Keyword) (reader : Reader α)
    (start : List Lexeme) : Except Diagnostic (Settled (Option α)) :=
  match reader start with
  | .ok (value, rest) => .ok ⟨some value, [], rest⟩
  | .error found =>
    match mode with
    | .strict => .error ⟨fragment text start found.rest.tail, found.fault⟩
    | .lenient =>
      let rest := skip stops 0 found.rest
      .ok ⟨none, [⟨fragment text start rest, found.fault⟩], rest⟩

theorem settle_rest_suffix {α : Type} {mode : Mode} {text : List Char} {stops : List Keyword}
    {reader : Reader α} {start : List Lexeme} {settled : Settled (Option α)}
    (hreader : reader.Forward) (h : settle mode text stops reader start = .ok settled) :
    settled.rest <:+ start := by
  have hf := hreader start
  unfold settle at h
  split at h
  · next hr =>
    rw [hr] at hf
    cases h
    exact hf
  · next hr =>
    rw [hr] at hf
    split at h
    · cases h
    · cases h
      exact (skip_suffix ..).trans hf

/-- Report a fault at the next lexeme without skipping anything. -/
def reportHere (mode : Mode) (text : List Char) (fault : Fault) (ts : List Lexeme) :
    Except Diagnostic (List Diagnostic) :=
  let found : Diagnostic := ⟨fragment text ts ts.tail, fault⟩
  match mode with
  | .strict => .error found
  | .lenient => .ok [found]

end EvidenceGraph.Query
