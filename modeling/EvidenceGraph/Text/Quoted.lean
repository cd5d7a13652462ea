/-
# `EvidenceGraph.Text.Quoted` — quoted strings of the query language.

A string is written between two quotes of one kind, and the quote itself is doubled inside. `encode`
picks the quote (single, unless only single quotes occur in the text) and `read` takes a body back,
also one whose closing quote is missing. Main statement: `read_double` — reading undoes doubling.
-/

namespace EvidenceGraph.Text.Quoted

/-- The quote that `encode` writes around `text`. -/
def quoteFor (text : List Char) : Char :=
  if text.contains '\'' && !text.contains '"' then '"' else '\''

/-- Write every `quote` inside a text twice. -/
def double (quote : Char) : List Char → List Char
  | [] => []
  | c :: cs => if c = quote then quote :: quote :: double quote cs else c :: double quote cs

/-- The quoted form of a text. -/
def encode (text : List Char) : List Char :=
  quoteFor text :: (double (quoteFor text) text ++ [quoteFor text])

/-- A quoted string's text, what follows it, and whether its closing quote was found. -/
structure Body where
  text : List Char
  rest : List Char
  closed : Bool
deriving DecidableEq

/-- Put a character in front of the text read so far. -/
def Body.cons (c : Char) (body : Body) : Body := { body with text := c :: body.text }

/-- Read a quoted string after its opening `quote`. A string without a closing quote runs to the end. -/
def read (quote : Char) : List Char → Body
  | [] => ⟨[], [], false⟩
  | [c] => if c = quote then ⟨[], [], true⟩ else ⟨[c], [], false⟩
  | c :: d :: cs =>
    if c = quote then
      if d = quote then (read quote cs).cons quote else ⟨[], d :: cs, true⟩
    else
      (read quote (d :: cs)).cons c

theorem read_rest_length (quote : Char) (cs : List Char) :
    (read quote cs).rest.length ≤ cs.length := by
  fun_induction read quote cs <;> simp_all [Body.cons] <;> omega

/-- Reading undoes doubling, whatever follows the closing quote, as long as it is not another one. -/
theorem read_double (quote : Char) (text rest : List Char) (h : rest.head? ≠ some quote) :
    read quote (double quote text ++ quote :: rest) = ⟨text, rest, true⟩ := by
  induction text with
  | nil =>
    cases rest with
    | nil => simp [double, read]
    | cons d ds => simp_all [double, read]
  | cons c cs ih =>
    by_cases hc : c = quote
    · subst hc
      simp [double, read, ih, Body.cons]
    · cases hd : double quote cs ++ quote :: rest with
      | nil => simp at hd
      | cons d ds =>
        rw [hd] at ih
        simp [double, hc, hd, read, ih, Body.cons]

end EvidenceGraph.Text.Quoted
