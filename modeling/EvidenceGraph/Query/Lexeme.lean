/-
# `EvidenceGraph.Query.Lexeme` — the words of a query and where they stand.

A query is cut into bare words, quoted strings, comparison symbols and punctuation. Every lexeme keeps
the half-open range of characters it covers, so that a reader of the query can quote exactly the text it
leaves out. Only blanks lie between lexemes. A quoted string without a closing quote is still a lexeme
(it runs to the end of the text) and is reported beside the list.
-/
import EvidenceGraph.Text.Blank
import EvidenceGraph.Text.Caseless
import EvidenceGraph.Text.Quoted

namespace EvidenceGraph.Query

open EvidenceGraph.Text

/-- The six comparison symbols. -/
inductive Comparison where
  | eq | ne | gt | lt | ge | le
deriving DecidableEq, Repr

/-- A word, string or sign of a query. -/
inductive Token where
  /-- A bare word: keyword, field name, number, `*`. -/
  | word (text : String)
  /-- A quoted string, without its quotes and with doubled quotes read back. -/
  | quoted (text : String)
  | comparison (symbol : Comparison)
  | leftParen
  | rightParen
  | comma
deriving DecidableEq, Repr

/-- A token and the characters `start ≤ i < stop` that it covers. -/
structure Lexeme where
  token : Token
  start : Nat
  stop : Nat
deriving DecidableEq, Repr

/-- The characters that stand for themselves in a query, whatever is around them. -/
def isSign (c : Char) : Bool :=
  c == '\'' || c == '"' || c == '(' || c == ')' || c == ',' || c == '=' || c == '!' || c == '<' || c == '>'

/-- The characters a bare word is made of. -/
def isWordChar (c : Char) : Bool := !isBlank c && !isSign c

/-- One token at the front of a text: the token, the text behind it, and whether it is complete (only a
quoted string can lack its end). -/
structure Scan where
  token : Token
  rest : List Char
  closed : Bool

/-- Read the token that starts with the character `c`, which is not a blank. A `!` without `=` is a
word of its own. -/
def scan (c : Char) (cs : List Char) : Scan :=
  if c = '(' then ⟨.leftParen, cs, true⟩
  else if c = ')' then ⟨.rightParen, cs, true⟩
  else if c = ',' then ⟨.comma, cs, true⟩
  else if c = '\'' ∨ c = '"' then
    let body := Quoted.read c cs
    ⟨.quoted (String.ofList body.text), body.rest, body.closed⟩
  else if c = '=' then ⟨.comparison .eq, cs, true⟩
  else if c = '!' then
    if cs.head? = some '=' then ⟨.comparison .ne, cs.tail, true⟩ else ⟨.word "!", cs, true⟩
  else if c = '<' then
    if cs.head? = some '=' then ⟨.comparison .le, cs.tail, true⟩ else ⟨.comparison .lt, cs, true⟩
  else if c = '>' then
    if cs.head? = some '=' then ⟨.comparison .ge, cs.tail, true⟩ else ⟨.comparison .gt, cs, true⟩
  else ⟨.word (String.ofList (c :: cs.takeWhile isWordChar)), cs.dropWhile isWordChar, true⟩

theorem scan_rest_length (c : Char) (cs : List Char) : (scan c cs).rest.length ≤ cs.length := by
  have hq := Quoted.read_rest_length c cs
  have hd := (List.dropWhile_suffix isWordChar (l := cs)).length_le
  unfold scan
  repeat' split
  all_goals simp_all

/-- The lexemes of a text, and the start of a quoted string that is never closed. -/
structure Lexed where
  lexemes : List Lexeme
  openQuote : Option Nat
deriving DecidableEq

/-- Cut a text into lexemes, its first character standing at position `start`. -/
def lexFrom (start : Nat) : List Char → Lexed
  | [] => ⟨[], none⟩
  | c :: cs =>
    if isBlank c then
      lexFrom (start + 1) cs
    else
      let found := scan c cs
      let stop := start + (cs.length + 1 - found.rest.length)
      let later := lexFrom stop found.rest
      ⟨⟨found.token, start, stop⟩ :: later.lexemes, if found.closed then later.openQuote else some start⟩
termination_by cs => cs.length
decreasing_by
  · simp
  · have := scan_rest_length c cs
    simp only [List.length_cons]
    omega

/-- Cut a text into lexemes. -/
def lex (text : List Char) : Lexed := lexFrom 0 text

/-- The characters `start ≤ i < stop` of a text. -/
def slice (text : List Char) (start stop : Nat) : String :=
  String.ofList ((text.drop start).take (stop - start))

end EvidenceGraph.Query
