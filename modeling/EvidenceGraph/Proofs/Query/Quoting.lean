/-
# `EvidenceGraph.Proofs.Query.Quoting` — quoted strings in front of a text.

A string in quotes is cut off as one lexeme that covers just the quotes and what is between them, and the text behind
it is cut as it is alone, only further on: the lexemes and the open quote of a text move with it (`lexFrom_add`). There
is one text that cannot stand there, and it is the only one: a text that starts with the quote that was chosen goes
on with the string. Main statement: `lex_writeQuoted_append_iff`.
-/
import EvidenceGraph.Proofs.Query.Pieces

namespace EvidenceGraph

open EvidenceGraph.Text

/-! ## Doubled quotes -/

namespace Text.Quoted

/-- The quote around a text is one of two characters. -/
theorem quoteFor_eq (text : List Char) : quoteFor text = '\'' ∨ quoteFor text = '"' := by
  unfold quoteFor
  split
  · exact .inr rfl
  · exact .inl rfl

theorem read_cons_of_ne {quote c : Char} (h : c ≠ quote) (cs : List Char) :
    read quote (c :: cs) = (read quote cs).cons c := by
  cases cs with
  | nil => simp [read, h, Body.cons]
  | cons d ds => rw [read, if_neg h]

/-- A text with doubled quotes is taken back as a whole, and reading goes on behind it. -/
theorem read_double_append (quote : Char) (text rest : List Char) :
    read quote (double quote text ++ rest) =
      ⟨text ++ (read quote rest).text, (read quote rest).rest, (read quote rest).closed⟩ := by
  induction text with
  | nil => rfl
  | cons c cs ih =>
    by_cases hc : c = quote
    · subst hc
      rw [double, if_pos rfl, List.cons_append, List.cons_append, read, if_pos rfl, if_pos rfl, ih]
      rfl
    · rw [double, if_neg hc, List.cons_append, read_cons_of_ne hc, ih]
      rfl

/-- Two quotes stand for one, and reading goes on behind them. -/
theorem read_quote_quote (quote : Char) (cs : List Char) :
    read quote (quote :: quote :: cs) = (read quote cs).cons quote := by
  rw [read, if_pos rfl, if_pos rfl]

/-- What a string is read from: its text with doubled quotes, and the quote that ends it if there is one. -/
theorem double_read (quote : Char) (cs : List Char) :
    cs = double quote (read quote cs).text ++
      if (read quote cs).closed then quote :: (read quote cs).rest else [] := by
  fun_induction read quote cs with
  | case1 => rfl
  | case2 => rfl
  | case3 c hc => simp [double, hc]
  | case4 cs ih =>
    rw [Body.cons, double, if_pos rfl, List.cons_append, List.cons_append]
    exact congrArg _ (congrArg _ ih)
  | case5 => simp [double]
  | case6 c d cs hc ih =>
    rw [Body.cons, double, if_neg hc, List.cons_append]
    exact congrArg _ ih

end Text.Quoted

namespace Query

/-! ## Texts that stand further on -/

/-- A lexeme that stands `n` characters further on. -/
def Lexeme.shift (n : Nat) (l : Lexeme) : Lexeme := ⟨l.token, l.start + n, l.stop + n⟩

/-- The lexemes and the open quote of a text that stands `n` characters further on. -/
def Lexed.shift (n : Nat) (found : Lexed) : Lexed :=
  ⟨found.lexemes.map (Lexeme.shift n), found.openQuote.map (· + n)⟩

/-- The lexemes of a text with another one in front of them. -/
def Lexed.behind (found : Lexed) (first : Lexeme) : Lexed := ⟨first :: found.lexemes, found.openQuote⟩

/-- Where a text stands makes no difference to its lexemes, but for their places. -/
theorem lexFrom_add (n start : Nat) (cs : List Char) : lexFrom (start + n) cs = (lexFrom start cs).shift n := by
  fun_induction lexFrom start cs with
  | case1 start =>
    rw [lexFrom]
    rfl
  | case2 start c cs hblank ih => rw [lexFrom, if_pos hblank, Nat.add_right_comm, ih]
  | case3 start c cs hblank found stop later ih =>
    -- the lexeme is as long as before, so it ends `n` characters further on too
    have hstop : start + n + (cs.length + 1 - found.rest.length) = stop + n :=
      Nat.add_right_comm start n _
    rw [lexFrom, if_neg hblank]
    dsimp only
    rw [hstop, ih]
    cases hclosed : found.closed <;> rfl

/-! ## Strings in front of a text -/

theorem writeQuoted_append (s : String) (rest : List Char) :
    writeQuoted s ++ rest = Quoted.quoteFor s.toList ::
      (Quoted.double (Quoted.quoteFor s.toList) s.toList ++ Quoted.quoteFor s.toList :: rest) := by
  simp [writeQuoted, Quoted.encode]

theorem length_writeQuoted (s : String) :
    (writeQuoted s).length = (Quoted.double (Quoted.quoteFor s.toList) s.toList).length + 2 := by
  simp [writeQuoted, Quoted.encode]

theorem isBlank_quoteFor (text : List Char) : isBlank (Quoted.quoteFor text) = false := by
  rcases Quoted.quoteFor_eq text with hquote | hquote <;> rw [hquote] <;> decide

/-- A string in quotes is one lexeme, and what follows is cut by itself. -/
theorem lex_writeQuoted_append {s : String} {rest : List Char}
    (h : rest.head? ≠ some (Quoted.quoteFor s.toList)) :
    lex (writeQuoted s ++ rest) =
      ((lex rest).shift (writeQuoted s).length).behind ⟨.quoted s, 0, (writeQuoted s).length⟩ := by
  have hread := Quoted.read_double (Quoted.quoteFor s.toList) s.toList rest h
  have hscan : scan (Quoted.quoteFor s.toList)
      (Quoted.double (Quoted.quoteFor s.toList) s.toList ++ Quoted.quoteFor s.toList :: rest) =
        ⟨.quoted s, rest, true⟩ := by
    rw [scan_quote (Quoted.quoteFor_eq _), hread, String.ofList_toList]
  have hstop : 0 + ((Quoted.double (Quoted.quoteFor s.toList) s.toList ++
      Quoted.quoteFor s.toList :: rest).length + 1 - rest.length) = 0 + (writeQuoted s).length := by
    rw [length_writeQuoted, List.length_append, List.length_cons]
    omega
  rw [lex, writeQuoted_append, lexFrom, if_neg (by simp [isBlank_quoteFor]), hscan]
  dsimp only
  rw [hstop, lexFrom_add, Nat.zero_add]
  rfl

/-- A quote that follows takes the lexeme further than the string in quotes. -/
theorem lex_writeQuoted_quote (s : String) (more : List Char) :
    ∃ first ∈ (lex (writeQuoted s ++ Quoted.quoteFor s.toList :: more)).lexemes.head?,
      (writeQuoted s).length < first.stop := by
  have hrest : (scan (Quoted.quoteFor s.toList) (Quoted.double (Quoted.quoteFor s.toList) s.toList ++
      Quoted.quoteFor s.toList :: Quoted.quoteFor s.toList :: more)).rest.length ≤ more.length := by
    rw [scan_quote (Quoted.quoteFor_eq _), Quoted.read_double_append, Quoted.read_quote_quote]
    exact Quoted.read_rest_length _ more
  rw [lex, writeQuoted_append, lexFrom, if_neg (by simp [isBlank_quoteFor])]
  refine ⟨_, rfl, ?_⟩
  rw [length_writeQuoted, List.length_append, List.length_cons, List.length_cons]
  dsimp only
  omega

/-- A string in quotes is one lexeme, which covers the quotes and what is between them, and the text behind it has the
lexemes and the open quote that it has alone, only further on: this is so for all texts that do not start with the
quote around the string, and for no others. -/
theorem lex_writeQuoted_append_iff (s : String) (rest : List Char) :
    lex (writeQuoted s ++ rest) =
        ((lex rest).shift (writeQuoted s).length).behind ⟨.quoted s, 0, (writeQuoted s).length⟩ ↔
      rest.head? ≠ some (Quoted.quoteFor s.toList) := by
  constructor
  · intro hlex hhead
    obtain ⟨more, rfl⟩ := List.head?_eq_some_iff.1 hhead
    obtain ⟨first, hfirst, hstop⟩ := lex_writeQuoted_quote s more
    rw [hlex] at hfirst
    cases hfirst
    exact Nat.lt_irrefl _ hstop
  · exact lex_writeQuoted_append

end Query

end EvidenceGraph
