/-
# `EvidenceGraph.Proofs.Query.Silence` — nothing is dropped without a report.

A lenient reading that reports nothing has put every token to use. What it takes silently is the grammar of
queries, widened in two points: any word will do for the source, and the clauses behind the conditions come
in any order and as often as they like, the last one of each kind counting (`ofClauses`). `Loose` is this
grammar, again over tokens and without a look ahead. Main statement: `parse_silent_iff`.
-/
import Mathlib.Data.List.Induction
import EvidenceGraph.Proofs.Query.Acceptance

namespace EvidenceGraph.Query

open EvidenceGraph.Text Grammar

/-! ## The last clause of each kind -/

namespace TailClause

/-- The order that a clause asks for, with its direction. -/
def order? : TailClause → Option (String × Order)
  | .order field direction => some (field, direction)
  | _ => none

/-- The limit that a clause sets. -/
def limit? : TailClause → Option UInt64
  | .limit n => some n
  | _ => none

/-- The offset that a clause sets. -/
def offset? : TailClause → Option UInt64
  | .offset n => some n
  | _ => none

end TailClause

/-- The last value that some clauses give. -/
def lastOf {α : Type} (value? : TailClause → Option α) (cs : List TailClause) : Option α :=
  (cs.filterMap value?).getLast?

/-- The query with the given selection and conditions whose order, limit and offset are those of the last
clause of each kind. Without such a clause there is no order and no limit, and nothing is skipped. -/
def ofClauses (fields : List String) (conditions : List Condition) (cs : List TailClause) : Query where
  select := fields
  conditions := conditions
  orderBy := (lastOf TailClause.order? cs).map Prod.fst
  order := ((lastOf TailClause.order? cs).map Prod.snd).getD .ascending
  limit := lastOf TailClause.limit? cs
  offset := (lastOf TailClause.offset? cs).getD 0

/-- A further clause has the last word, if it has one at all. -/
theorem lastOf_concat {α : Type} (value? : TailClause → Option α) (cs : List TailClause) (c : TailClause) :
    lastOf value? (cs ++ [c]) = (value? c).or (lastOf value? cs) := by
  unfold lastOf
  rw [List.filterMap_append]
  cases h : value? c with
  | none => simp [h]
  | some a => simp [h]

/-- Clauses that are taken over one after the other leave the last one of each kind. -/
theorem foldl_apply (fields : List String) (conditions : List Condition) (cs : List TailClause) :
    cs.foldl apply { select := fields, conditions } = ofClauses fields conditions cs := by
  -- from the end, as the last clause is taken over last
  induction cs using List.reverseRecOn with
  | nil => rfl
  | append_singleton cs c ih =>
    rw [List.foldl_append, ih]
    cases c <;>
      simp [ofClauses, apply, lastOf_concat, TailClause.order?, TailClause.limit?, TailClause.offset?]

/-! ## The wider grammar -/

namespace Grammar

/-- Clauses in any order and any number. -/
inductive Clauses : List Token → List TailClause → Prop
  | nil : Clauses [] []
  | cons {ts us : List Token} {c : TailClause} {cs : List TailClause} :
      Clause ts c → Clauses us cs → Clauses (ts ++ us) (c :: cs)

/-- A whole query, with any word for its source and any clauses behind its conditions. -/
inductive Loose : List Token → Query → Prop
  | mk {s f e : Token} {source : String} {names filter later : List Token} {fields : List String}
      {conditions : List Query.Condition} {cs : List TailClause} :
      s.isKeyword .select → Separated (Name [.source]) names fields →
      f.isKeyword .source → Name [] e source → Filter filter conditions → Clauses later cs →
      Loose (s :: (names ++ f :: e :: (filter ++ later))) (ofClauses fields conditions cs)

end Grammar

theorem clauses_of_tail {mode : Mode} {last : Nat} {ts : List Token} {cs : List TailClause}
    (h : Tail mode last ts cs) : Clauses ts cs := by
  induction h with
  | nil => exact .nil
  | cons hclause _ _ ih => exact .cons hclause ih

/-- To lenient readings the ranks of clauses are nothing. -/
theorem tail_lenient_iff {last : Nat} {ts : List Token} {cs : List TailClause} :
    Tail .lenient last ts cs ↔ Clauses ts cs := by
  constructor
  · exact clauses_of_tail
  · intro h
    induction h generalizing last with
    | nil => exact .nil
    | cons hclause _ ih => exact .cons hclause nofun ih

theorem phrases_lenient_iff {ts : List Token} {q : Query} : Phrases .lenient ts q ↔ Loose ts q := by
  constructor
  · rintro ⟨hs, hnames, hf, -, hfilter, hlater⟩
    rw [foldl_apply]
    exact .mk hs hnames hf (.word nofun) hfilter (tail_lenient_iff.1 hlater)
  · rintro ⟨hs, hnames, hf, ⟨-⟩, hfilter, hlater⟩
    rw [← foldl_apply]
    exact .mk hs hnames hf nofun hfilter (tail_lenient_iff.2 hlater)

/-! ## Texts without reports -/

/-- A lenient reading has the result that its last resort is not needed for. -/
theorem parse_eq_iff {source : String} {p : Parsed} : parse source = p ↔ parseIn .lenient source = .ok p := by
  obtain ⟨found, hfound⟩ := (parseIn_agrees source).lenient_ok
  rw [parse, hfound, Except.ok.injEq]

/-- A text whose quotes are closed, and whose clauses are read. -/
theorem parse_of_clauses {source : String} {ls : List Lexeme} {parsed : Parsed}
    (hlex : lex (trimmed source) = ⟨ls, none⟩) (hne : ls ≠ [])
    (h : clauses .lenient (trimmed source) ls = .ok parsed) : parse source = parsed := by
  have hread : parseIn .lenient source = _ := parseIn_eq nofun
  have hquotes : openQuoteReports (trimmed source) ⟨ls, none⟩ = [] := openQuoteReports_eq_nil.2 rfl
  rw [hlex, hquotes, parseLexemes, if_neg (by simpa using hne), h] at hread
  rw [parse, hread]
  rfl

/-- A lenient reading is silent on a text exactly if its quotes are closed and its tokens are a query of the
wider grammar, and then this is the query that it is read as. So no token is passed over without a report. -/
theorem parse_silent_iff (source : String) :
    ((parse source).diagnostics = [] ↔
        (lex (trimmed source)).openQuote = none ∧ ∃ q, Loose (tokens (lex (trimmed source)).lexemes) q) ∧
      ∀ q, parse source = ⟨q, []⟩ ↔
        (lex (trimmed source)).openQuote = none ∧ Loose (tokens (lex (trimmed source)).lexemes) q := by
  have hread (q : Query) : parse source = ⟨q, []⟩ ↔
      (lex (trimmed source)).openQuote = none ∧ Loose (tokens (lex (trimmed source)).lexemes) q := by
    rw [parse_eq_iff, parseIn_eq_clean, phrases_lenient_iff]
  refine ⟨?_, hread⟩
  constructor
  · intro hsilent
    have hparsed : parse source = ⟨(parse source).query, []⟩ := by rw [← hsilent]
    obtain ⟨hclosed, hloose⟩ := (hread _).1 hparsed
    exact ⟨hclosed, _, hloose⟩
  · rintro ⟨hclosed, q, hloose⟩
    rw [(hread q).2 ⟨hclosed, hloose⟩]

/-- Another source, and two limits around an order. -/
example : (parse "select a from papers limit 1 order by b limit 2").diagnostics = [] := by decide +kernel

end EvidenceGraph.Query
