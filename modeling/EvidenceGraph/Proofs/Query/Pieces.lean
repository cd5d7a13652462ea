/-
# `EvidenceGraph.Proofs.Query.Pieces` — the lexemes of a text from those of its pieces.

A blank ends a word, a sign or a quoted string that is closed, so a text may be cut into lexemes piece by piece
at its blanks (`lexFrom_append`). The tokens of a piece do not depend on where it stands; its lexemes reach from
its first character to its last one if neither is a blank (`exists_ends`), so that the text of a piece is what
lies between the start of its first lexeme and the stop of its last one.
-/
import EvidenceGraph.Proofs.Query.Spelling

namespace EvidenceGraph

open EvidenceGraph.Text

/-! ## Quoted strings -/

namespace Text.Quoted

theorem read_rest_suffix (quote : Char) (cs : List Char) : (read quote cs).rest <:+ cs := by
  fun_induction read quote cs with
  | case1 => exact List.suffix_rfl
  | case2 => exact List.suffix_cons _ _
  | case3 c hc => exact List.suffix_cons _ _
  | case4 cs ih => exact ih.trans ((List.suffix_cons quote cs).trans (List.suffix_cons quote _))
  | case5 d cs hd => exact List.suffix_cons _ _
  | case6 c d cs hc ih => exact ih.trans (List.suffix_cons c _)

/-- A closed string does not go on, unless another quote follows. -/
theorem read_append {quote : Char} {cs rest : List Char} (h : (read quote cs).closed)
    (hrest : rest.head? ≠ some quote) :
    read quote (cs ++ rest) = ⟨(read quote cs).text, (read quote cs).rest ++ rest, true⟩ := by
  fun_induction read quote cs with
  | case1 => cases h
  | case2 =>
    cases rest with
    | nil => simp [read]
    | cons d ds =>
      have hd : d ≠ quote := fun heq => hrest (congrArg some heq)
      simp [read, hd]
  | case3 c hc => cases h
  | case4 cs ih =>
    have hmore := ih h
    simp only [List.cons_append, read, if_true, hmore]
    rfl
  | case5 d cs hd => simp [read, hd]
  | case6 c d cs hc ih =>
    have hmore := ih h
    rw [List.cons_append] at hmore
    simp only [List.cons_append, read, hc, if_false, hmore]
    rfl

end Text.Quoted

namespace Query

/-! ## Cutting before a blank -/

/-- Nothing, or a blank and what follows it. -/
def BlankFirst (cs : List Char) : Prop := ∀ c ∈ cs.head?, isBlank c

theorem BlankFirst.head_ne {cs : List Char} (h : BlankFirst cs) {d : Char} (hd : isBlank d = false) :
    cs.head? ≠ some d := by
  intro heq
  rw [h d heq] at hd
  cases hd

theorem scan_rest_suffix (c : Char) (cs : List Char) : (scan c cs).rest <:+ cs := by
  have hquoted := Quoted.read_rest_suffix c cs
  have hword := List.dropWhile_suffix isWordChar (l := cs)
  have htail := List.tail_suffix cs
  unfold scan
  repeat' split
  all_goals first | exact List.suffix_rfl | assumption

/-- A word ends before a blank. -/
theorem BlankFirst.split {rest : List Char} (hrest : BlankFirst rest) (cs : List Char) :
    (cs ++ rest).takeWhile isWordChar = cs.takeWhile isWordChar ∧
      (cs ++ rest).dropWhile isWordChar = cs.dropWhile isWordChar ++ rest := by
  have hstop : rest.takeWhile isWordChar = [] ∧ rest.dropWhile isWordChar = rest := by
    cases rest with
    | nil => exact ⟨rfl, rfl⟩
    | cons c cs =>
      have hc : isWordChar c = false := by simp [isWordChar, hrest c rfl]
      simp [hc]
  induction cs with
  | nil => exact hstop
  | cons c cs ih =>
    cases hc : isWordChar c with
    | true => simp [hc, ih]
    | false => simp [hc]

/-- A sign of one or two characters, according to what follows the first one. -/
def scanSecond (double single : Token) (cs : List Char) : Scan :=
  if cs.head? = some '=' then ⟨double, cs.tail, true⟩ else ⟨single, cs, true⟩

theorem scanSecond_append {double single : Token} {cs rest : List Char} (hrest : BlankFirst rest) :
    scanSecond double single (cs ++ rest) =
      ⟨(scanSecond double single cs).token, (scanSecond double single cs).rest ++ rest, true⟩ := by
  cases cs with
  | nil =>
    have hequals : rest.head? ≠ some '=' := hrest.head_ne (by decide)
    simp [scanSecond, hequals]
  | cons d ds =>
    by_cases hd : d = '='
    · simp [scanSecond, hd]
    · simp [scanSecond, hd]

theorem scan_quote {quote : Char} (h : quote = '\'' ∨ quote = '"') (cs : List Char) :
    scan quote cs =
      ⟨.quoted (String.ofList (Quoted.read quote cs).text), (Quoted.read quote cs).rest,
        (Quoted.read quote cs).closed⟩ := by
  rcases h with rfl | rfl <;> rfl

theorem scan_quote_append {quote : Char} {cs rest : List Char} (hquote : quote = '\'' ∨ quote = '"')
    (h : (scan quote cs).closed) (hrest : BlankFirst rest) :
    scan quote (cs ++ rest) = ⟨(scan quote cs).token, (scan quote cs).rest ++ rest, true⟩ := by
  have hhead : rest.head? ≠ some quote := by
    rcases hquote with rfl | rfl <;> exact hrest.head_ne (by decide)
  rw [scan_quote hquote] at h
  rw [scan_quote hquote, scan_quote hquote, Quoted.read_append h hhead]

/-- A token that is complete stays as it is before a blank. -/
theorem scan_append {c : Char} {cs rest : List Char} (h : (scan c cs).closed) (hrest : BlankFirst rest) :
    scan c (cs ++ rest) = ⟨(scan c cs).token, (scan c cs).rest ++ rest, true⟩ := by
  by_cases hsign : isSign c
  · simp only [isSign, Bool.or_eq_true, beq_iff_eq] at hsign
    rcases hsign with (((((((hc | hc) | hc) | hc) | hc) | hc) | hc) | hc) | hc
    · exact scan_quote_append (.inl hc) h hrest
    · exact scan_quote_append (.inr hc) h hrest
    · subst hc; rfl
    · subst hc; rfl
    · subst hc; rfl
    · subst hc; rfl
    · subst hc; exact scanSecond_append hrest
    · subst hc; exact scanSecond_append hrest
    · subst hc; exact scanSecond_append hrest
  · have hword : isSign c = false := by simpa using hsign
    obtain ⟨htake, hdrop⟩ := hrest.split cs
    rw [scan_word hword, scan_word hword, htake, hdrop]

/-! ## Pieces of a text -/

theorem lexed_eq {found : Lexed} {ls : List Lexeme} (hlexemes : found.lexemes = ls)
    (hclosed : found.openQuote = none) : found = ⟨ls, none⟩ := by
  rw [← hlexemes, ← hclosed]

/-- Blanks before a piece only move it. -/
theorem lexFrom_blanks {bs : List Char} (h : ∀ c ∈ bs, isBlank c) (start : Nat) (cs : List Char) :
    lexFrom start (bs ++ cs) = lexFrom (start + bs.length) cs := by
  induction bs generalizing start with
  | nil => rfl
  | cons b bs ih =>
    have hmore := ih (fun c hc => h c (List.mem_cons_of_mem b hc)) (start + 1)
    rw [List.cons_append, lexFrom, if_pos (h b List.mem_cons_self), hmore, List.length_cons]
    congr 1
    omega

/-- No open quote is reported if the first token is complete and there is none behind it. -/
theorem closed_of_no_quote {closed : Bool} {later : Option Nat} {start : Nat}
    (h : (if closed then later else some start) = none) : closed ∧ later = none := by
  cases closed with
  | true => exact ⟨rfl, h⟩
  | false => cases h

/-- The lexemes of a closed piece, and those of what follows it behind a blank. -/
theorem lexFrom_append {start : Nat} {cs rest : List Char} (h : (lexFrom start cs).openQuote = none)
    (hrest : BlankFirst rest) :
    lexFrom start (cs ++ rest) =
      ⟨(lexFrom start cs).lexemes ++ (lexFrom (start + cs.length) rest).lexemes,
        (lexFrom (start + cs.length) rest).openQuote⟩ := by
  fun_induction lexFrom start cs with
  | case1 start => rfl
  | case2 start c cs hblank ih =>
    have hmore := ih h
    have hplace : start + 1 + cs.length = start + (c :: cs).length := by
      rw [List.length_cons]
      omega
    rw [List.cons_append, lexFrom, if_pos hblank, hmore, hplace]
  | case3 start c cs hblank found stop later ih =>
    obtain ⟨hclosed, hlater⟩ := closed_of_no_quote h
    have hmore := ih hlater
    have hshorter : found.rest.length ≤ cs.length := scan_rest_length c cs
    have hstop : start + ((cs ++ rest).length + 1 - (found.rest ++ rest).length) = stop := by
      show _ = start + (cs.length + 1 - found.rest.length)
      rw [List.length_append, List.length_append]
      omega
    have hplace : stop + found.rest.length = start + (c :: cs).length := by
      show start + (cs.length + 1 - found.rest.length) + found.rest.length = _
      rw [List.length_cons]
      omega
    rw [List.cons_append, lexFrom, if_neg hblank, scan_append hclosed hrest]
    dsimp only
    rw [hstop, hmore, hplace]
    rfl

/-- The tokens of a piece are the same wherever it stands, and so is whether its quotes are closed. -/
theorem spells_lexFrom {start : Nat} {cs : List Char} (h : (lexFrom start cs).openQuote = none) :
    Spells cs (tokens (lexFrom start cs).lexemes) := by
  intro other
  fun_induction lexFrom start cs generalizing other with
  | case1 start => exact spells_nil other
  | case2 start c cs hblank ih =>
    rw [lexFrom, if_pos hblank]
    exact ih h (other + 1)
  | case3 start c cs hblank found stop later ih =>
    obtain ⟨hclosed, hnone⟩ := closed_of_no_quote h
    obtain ⟨hlater, htokens⟩ := ih hnone (other + (cs.length + 1 - found.rest.length))
    rw [lexFrom, if_neg hblank]
    dsimp only
    rw [if_pos hclosed, tokens_cons, tokens_cons]
    exact ⟨hlater, congrArg _ htokens⟩

theorem spells_lex {cs : List Char} (h : (lex cs).openQuote = none) : Spells cs (tokens (lex cs).lexemes) :=
  spells_lexFrom h

/-- Two pieces, the second one behind a blank. -/
theorem Spells.append {cs ds : List Char} {ts us : List Token} (h : Spells cs ts) (hds : BlankFirst ds)
    (hnext : Spells ds us) : Spells (cs ++ ds) (ts ++ us) := by
  intro start
  obtain ⟨hclosed, htokens⟩ := h start
  obtain ⟨hclosed', htokens'⟩ := hnext (start + cs.length)
  rw [lexFrom_append hclosed hds]
  exact ⟨hclosed', by rw [tokens_append, htokens, htokens']⟩

/-- Blanks before a piece have no tokens. -/
theorem Spells.behind_blanks {bs cs : List Char} {ts : List Token} (h : Spells (bs ++ cs) ts)
    (hbs : ∀ c ∈ bs, isBlank c) : Spells cs ts := by
  obtain ⟨hclosed, htokens⟩ := h 0
  rw [lexFrom_blanks hbs] at hclosed htokens
  rw [← htokens]
  exact spells_lexFrom hclosed

/-! ## The ends of a piece -/

/-- The first lexeme starts with the first character if that is no blank. -/
theorem exists_first (start : Nat) {c : Char} (hc : isBlank c = false) (cs : List Char) :
    ∃ first more, (lexFrom start (c :: cs)).lexemes = first :: more ∧ first.start = start := by
  rw [lexFrom, if_neg (by simp [hc])]
  exact ⟨_, _, rfl, rfl⟩

/-- The last lexeme stops behind the last character if that is no blank. -/
theorem exists_last (start : Nat) {cs : List Char} {d : Char} (h : cs.getLast? = some d)
    (hd : isBlank d = false) :
    ∃ before last, (lexFrom start cs).lexemes = before ++ [last] ∧ last.stop = start + cs.length := by
  fun_induction lexFrom start cs with
  | case1 => cases h
  | case2 start c cs hblank ih =>
    have hne : cs ≠ [] := by
      rintro rfl
      obtain rfl : c = d := Option.some.inj h
      rw [hd] at hblank
      cases hblank
    rw [List.getLast?_cons_of_ne_nil hne] at h
    obtain ⟨before, last, hlexemes, hstop⟩ := ih h
    refine ⟨before, last, hlexemes, ?_⟩
    rw [hstop, List.length_cons]
    omega
  | case3 start c cs hblank found stop later ih =>
    by_cases hrest : found.rest = []
    · refine ⟨[], ⟨found.token, start, stop⟩, ?_, ?_⟩
      · show _ :: (lexFrom stop found.rest).lexemes = _
        rw [hrest, lexFrom]
        rfl
      · show start + (cs.length + 1 - found.rest.length) = _
        rw [hrest]
        rfl
    · -- what is left over ends as the piece does
      obtain ⟨used, hused⟩ : found.rest <:+ cs := scan_rest_suffix c cs
      have hlast : found.rest.getLast? = some d := by
        have hend := List.getLast?_eq_some_getLast hrest
        rw [← hused, ← List.cons_append, List.getLast?_append, hend, Option.some_or] at h
        rw [hend, h]
      obtain ⟨before, last, hlexemes, hstop⟩ := ih hlast
      refine ⟨⟨found.token, start, stop⟩ :: before, last, ?_, ?_⟩
      · show _ :: (lexFrom stop found.rest).lexemes = _
        rw [hlexemes]
        rfl
      · have hshorter : found.rest.length ≤ cs.length := scan_rest_length c cs
        rw [hstop]
        show start + (cs.length + 1 - found.rest.length) + found.rest.length = _
        rw [List.length_cons]
        omega

/-- The lexemes of a piece without blanks at its ends reach from its first character to its last one. -/
theorem exists_ends (start : Nat) {cs : List Char} (hne : cs ≠ []) (hfirst : ∀ c ∈ cs.head?, isBlank c = false)
    (hlast : ∀ c ∈ cs.getLast?, isBlank c = false) :
    ∃ first more, (lexFrom start cs).lexemes = first :: more ∧ first.start = start ∧
      (more.getLast?.getD first).stop = start + cs.length := by
  obtain ⟨c, ds, rfl⟩ := List.exists_cons_of_ne_nil hne
  obtain ⟨first, more, hlexemes, hstart⟩ := exists_first start (hfirst c rfl) ds
  have hend := List.getLast?_eq_some_getLast hne
  obtain ⟨before, last, hagain, hstop⟩ := exists_last start hend (hlast _ hend)
  refine ⟨first, more, hlexemes, hstart, ?_⟩
  have hsame : some (more.getLast?.getD first) = some last := by
    rw [← List.getLast?_cons, ← hlexemes, hagain, List.getLast?_concat]
  rw [Option.some.inj hsame, hstop]

/-- A piece of a text is what stands between its places. -/
theorem slice_piece (before cs behind : List Char) :
    slice (before ++ (cs ++ behind)) before.length (before.length + cs.length) = String.ofList cs := by
  simp [slice]

/-! ## Blanks at the ends -/

theorem first_dropWhile (p : Char → Bool) (cs : List Char) : ∀ c ∈ (cs.dropWhile p).head?, p c = false := by
  intro c hc
  have hnot := List.head?_dropWhile_not p cs
  rw [Option.mem_def.1 hc] at hnot
  exact hnot

theorem exists_behind_trim (cs : List Char) :
    ∃ post, cs.dropWhile isBlank = trim cs ++ post ∧ ∀ c ∈ post, isBlank c := by
  refine ⟨((cs.dropWhile isBlank).reverse.takeWhile isBlank).reverse, ?_, ?_⟩
  · rw [trim, trimEndWhile, ← List.reverse_append, List.takeWhile_append_dropWhile, List.reverse_reverse]
  · intro c hc
    exact List.all_eq_true.1 List.all_takeWhile c (List.mem_reverse.1 hc)

/-- A text is what trimming leaves of it, with blanks on both sides. -/
theorem exists_padding (cs : List Char) :
    ∃ pre post, cs = pre ++ (trim cs ++ post) ∧ (∀ c ∈ pre, isBlank c) ∧ ∀ c ∈ post, isBlank c := by
  obtain ⟨post, hdrop, hpost⟩ := exists_behind_trim cs
  refine ⟨cs.takeWhile isBlank, post, ?_, List.all_eq_true.1 List.all_takeWhile, hpost⟩
  rw [← hdrop, List.takeWhile_append_dropWhile]

theorem first_trim (cs : List Char) : ∀ c ∈ (trim cs).head?, isBlank c = false := by
  intro c hc
  obtain ⟨post, hdrop, -⟩ := exists_behind_trim cs
  apply first_dropWhile isBlank cs
  rw [hdrop, List.head?_append, Option.mem_def.1 hc]
  rfl

theorem last_trim (cs : List Char) : ∀ c ∈ (trim cs).getLast?, isBlank c = false := by
  intro c hc
  rw [trim, trimEndWhile, List.getLast?_reverse] at hc
  exact first_dropWhile isBlank _ c hc

end Query

end EvidenceGraph
