/-
# `EvidenceGraph.Proofs.Query.Tiling` — a text as lexemes and blanks.

A text is a row of tokens and blanks, each token written as its kind asks for; only the last one may be a string
without its closing quote. `Tiles` says this of a text and what it is cut into, without the scanner. As each token
is found again in its own text alone, and a blank keeps it apart from the next one, the texts of the lexemes with
single blanks between them are cut into the same tokens (`Tiles.lex_spaced`). Main statement: `lexemes_tile`.
-/
import EvidenceGraph.Proofs.Query.Quoting
import EvidenceGraph.Proofs.Query.Spans
import EvidenceGraph.Text.Bytes
import Mathlib.Data.List.TakeWhile

namespace EvidenceGraph.Query

open EvidenceGraph.Text

/-! ## Tokens as they are written -/

/-- A complete token and its text. -/
inductive Written : Token → List Char → Prop
  | word {w : String} : IsWord w → Written (.word w) w.toList
  | quoted {quote : Char} (text : List Char) : quote = '\'' ∨ quote = '"' →
      Written (.quoted (String.ofList text)) (quote :: (Quoted.double quote text ++ [quote]))
  | comparison (c : Comparison) : Written (.comparison c) c.symbol.toList
  | leftParen : Written .leftParen ['(']
  | rightParen : Written .rightParen [')']
  | comma : Written .comma [',']

/-- A quoted string and its text, in which the closing quote is missing: every quote behind the first one is
doubled. -/
def Unclosed (t : Token) (cs : List Char) : Prop :=
  ∃ quote text, (quote = '\'' ∨ quote = '"') ∧ t = .quoted (String.ofList text) ∧
    cs = quote :: Quoted.double quote text

/-- A token at the front of a text, which is complete or takes all of the text. -/
def Cuts (cs : List Char) (found : Scan) : Prop :=
  (∃ used, cs = used ++ found.rest ∧ Written found.token used ∧ found.closed) ∨
    Unclosed found.token cs ∧ found.rest = [] ∧ found.closed = false

theorem cuts_quote {quote : Char} (hquote : quote = '\'' ∨ quote = '"') (cs : List Char) :
    Cuts (quote :: cs) (scan quote cs) := by
  have hread := Quoted.double_read quote cs
  rw [scan_quote hquote]
  cases hclosed : (Quoted.read quote cs).closed with
  | true =>
    rw [hclosed, if_pos rfl] at hread
    refine .inl ⟨_, ?_, .quoted _ hquote, rfl⟩
    rw [List.cons_append, List.append_assoc, List.singleton_append, ← hread]
  | false =>
    rw [hclosed, if_neg (by decide), List.append_nil] at hread
    exact .inr ⟨⟨quote, _, hquote, rfl, congrArg _ hread⟩, rest_of_open hclosed, rfl⟩

theorem cuts_scanSecond {c : Char} {double single : Token} (hdouble : Written double [c, '='])
    (hsingle : Written single [c]) (cs : List Char) : Cuts (c :: cs) (scanSecond double single cs) := by
  cases cs with
  | nil => exact .inl ⟨[c], rfl, hsingle, rfl⟩
  | cons d ds =>
    by_cases hd : d = '='
    · subst hd
      exact .inl ⟨[c, '='], rfl, hdouble, rfl⟩
    · have hscan : scanSecond double single (d :: ds) = ⟨single, d :: ds, true⟩ := by simp [scanSecond, hd]
      rw [hscan]
      exact .inl ⟨[c], rfl, hsingle, rfl⟩

/-- Whatever is scanned is written in the text. -/
theorem cuts_scan {c : Char} (hblank : isBlank c = false) (cs : List Char) : Cuts (c :: cs) (scan c cs) := by
  by_cases hsign : isSign c
  · simp only [isSign, Bool.or_eq_true, beq_iff_eq] at hsign
    rcases hsign with (((((((hc | hc) | hc) | hc) | hc) | hc) | hc) | hc) | hc
    · exact cuts_quote (.inl hc) cs
    · exact cuts_quote (.inr hc) cs
    · subst hc; exact .inl ⟨['('], rfl, .leftParen, rfl⟩
    · subst hc; exact .inl ⟨[')'], rfl, .rightParen, rfl⟩
    · subst hc; exact .inl ⟨[','], rfl, .comma, rfl⟩
    · subst hc; exact .inl ⟨['='], rfl, .comparison .eq, rfl⟩
    · subst hc; exact cuts_scanSecond (.comparison .ne) (.word (.inl rfl)) cs
    · subst hc; exact cuts_scanSecond (.comparison .le) (.comparison .lt) cs
    · subst hc; exact cuts_scanSecond (.comparison .ge) (.comparison .gt) cs
  · have hsign : isSign c = false := by simpa using hsign
    have hword : IsWord (String.ofList (c :: cs.takeWhile isWordChar)) :=
      isWord_of_scan hblank (congrArg Scan.token (scan_word hsign cs))
    have hwritten := Written.word hword
    rw [String.toList_ofList] at hwritten
    rw [scan_word hsign]
    refine .inl ⟨_, ?_, hwritten, rfl⟩
    rw [List.cons_append, List.takeWhile_append_dropWhile]

variable {t : Token} {used : List Char}

/-- A token is found again in its own text. -/
theorem Written.scan (h : Written t used) :
    ∃ c cs, used = c :: cs ∧ isBlank c = false ∧ Query.scan c cs = ⟨t, [], true⟩ := by
  cases h with
  | @word w hw =>
    rcases hw with rfl | ⟨hne, hall⟩
    · exact ⟨'!', [], rfl, by decide, rfl⟩
    · obtain ⟨c, cs, hcs⟩ := List.exists_cons_of_ne_nil hne
      rw [hcs, List.all_cons, Bool.and_eq_true] at hall
      have hmore : ∀ d ∈ cs, isWordChar d := List.all_eq_true.1 hall.2
      refine ⟨c, cs, hcs, isWordChar_not_blank hall.1, ?_⟩
      rw [scan_word (isWordChar_not_sign hall.1), List.takeWhile_eq_self_iff.2 hmore,
        List.dropWhile_eq_nil_iff.2 hmore, ← hcs, String.ofList_toList]
  | @quoted quote text hquote =>
    have hread := Quoted.read_double quote text [] nofun
    refine ⟨quote, _, rfl, ?_, ?_⟩
    · rcases hquote with rfl | rfl <;> decide
    · rw [scan_quote hquote, hread]
  | comparison c => cases c <;> exact ⟨_, _, rfl, by decide, rfl⟩
  | leftParen => exact ⟨_, _, rfl, by decide, rfl⟩
  | rightParen => exact ⟨_, _, rfl, by decide, rfl⟩
  | comma => exact ⟨_, _, rfl, by decide, rfl⟩

/-- A string without its end is found again in its own text, and still has none. -/
theorem Unclosed.scan (h : Unclosed t used) :
    ∃ c cs, used = c :: cs ∧ isBlank c = false ∧ Query.scan c cs = ⟨t, [], false⟩ := by
  obtain ⟨quote, text, hquote, rfl, rfl⟩ := h
  have hread := Quoted.read_double_append quote text []
  rw [List.append_nil] at hread
  refine ⟨quote, _, rfl, ?_, ?_⟩
  · rcases hquote with rfl | rfl <;> decide
  · rw [scan_quote hquote, hread]
    simp [Quoted.read]

/-- A string has its closing quote or has not. -/
theorem Written.not_unclosed (h : Written t used) : ¬ Unclosed t used := by
  intro hopen
  obtain ⟨c, cs, rfl, -, hscan⟩ := h.scan
  obtain ⟨d, ds, heq, -, hscan'⟩ := hopen.scan
  obtain ⟨rfl, rfl⟩ := List.cons.inj heq
  rw [hscan] at hscan'
  cases hscan'

/-! ## Rows of tokens and blanks -/

/-- A text from the place `start` on, and what it is cut into. -/
inductive Tiles : Nat → List Char → Lexed → Prop
  | done {start : Nat} : Tiles start [] ⟨[], none⟩
  | blank {start : Nat} {c : Char} {cs : List Char} {found : Lexed} :
      isBlank c → Tiles (start + 1) cs found → Tiles start (c :: cs) found
  | token {start : Nat} {t : Token} {used rest : List Char} {later : Lexed} :
      Written t used → Tiles (start + used.length) rest later →
      Tiles start (used ++ rest) (later.behind ⟨t, start, start + used.length⟩)
  | unclosed {start : Nat} {t : Token} {used : List Char} :
      Unclosed t used → Tiles start used ⟨[⟨t, start, start + used.length⟩], some start⟩

theorem tiles_lexFrom (start : Nat) (cs : List Char) : Tiles start cs (lexFrom start cs) := by
  fun_induction lexFrom start cs with
  | case1 => exact .done
  | case2 start c cs hblank ih => exact .blank hblank ih
  | case3 start c cs hblank found stop later ih =>
    rcases cuts_scan (by simpa using hblank) cs with ⟨used, hcs, hwritten, hclosed⟩ | ⟨hopen, hrest, hclosed⟩
    · have hlength := congrArg List.length hcs
      rw [List.length_append, List.length_cons] at hlength
      have hstop : stop = start + used.length := by
        show start + (cs.length + 1 - found.rest.length) = _
        show start + (cs.length + 1 - (scan c cs).rest.length) = _
        omega
      have htiles := Tiles.token hwritten (hstop ▸ ih)
      rw [← hcs, ← hstop] at htiles
      rw [if_pos hclosed]
      exact htiles
    · have hstop : stop = start + (c :: cs).length := by
        show start + (cs.length + 1 - (scan c cs).rest.length) = _
        rw [hrest]
        rfl
      have hlater : later.lexemes = [] := by
        show (lexFrom stop (scan c cs).rest).lexemes = []
        rw [hrest, lexFrom]
      have htiles : Tiles start (c :: cs) _ := .unclosed hopen
      rw [← hstop] at htiles
      rw [hlater, show found.closed = false from hclosed]
      exact htiles

/-- A character that no lexeme covers is a blank. -/
theorem Tiles.isBlank {start : Nat} {cs : List Char} {found : Lexed} (h : Tiles start cs found) {i : Nat} {c : Char}
    (hc : cs[i]? = some c) (hout : ∀ l ∈ found.lexemes, start + i < l.start ∨ l.stop ≤ start + i) : isBlank c := by
  induction h generalizing i with
  | done => cases hc
  | blank hblank _ ih =>
    cases i with
    | zero =>
      cases hc
      exact hblank
    | succ i =>
      refine ih hc fun l hl => ?_
      have := hout l hl
      omega
  | @token start t used rest later hwritten _ ih =>
    -- the character is not in the token, so it stands behind it
    obtain ⟨hfirst, hlater⟩ := List.forall_mem_cons.1 hout
    have hbehind : used.length ≤ i := by
      dsimp only at hfirst
      omega
    rw [List.getElem?_append_right hbehind] at hc
    refine ih hc fun l hl => ?_
    have := hlater l hl
    omega
  | @unclosed start t used hopen =>
    have hfirst := hout _ List.mem_cons_self
    have hinside : i < used.length := (List.getElem?_eq_some_iff.1 hc).1
    dsimp only at hfirst
    omega

/-! ## The texts of lexemes -/

/-- The characters of a text that a lexeme covers. -/
def Lexeme.chars (text : List Char) (l : Lexeme) : List Char := (slice text l.start l.stop).toList

theorem chars_piece {text before rest : List Char} (htext : text = before ++ (used ++ rest)) (t : Token) :
    Lexeme.chars text ⟨t, before.length, before.length + used.length⟩ = used := by
  rw [Lexeme.chars, htext, slice_piece, String.toList_ofList]

theorem chars_end {text before : List Char} (htext : text = before ++ used) (t : Token) :
    Lexeme.chars text ⟨t, before.length, before.length + used.length⟩ = used := by
  have hpiece : text = before ++ (used ++ []) := by rw [htext, List.append_nil]
  exact chars_piece hpiece t

/-- An open quote is reported where the last lexeme is a string without its closing quote. -/
theorem Tiles.openQuote_iff {text before cs : List Char} {start place : Nat} {found : Lexed} (h : Tiles start cs found)
    (hstart : before.length = start) (htext : text = before ++ cs) :
    found.openQuote = some place ↔
      ∃ last, found.lexemes.getLast? = some last ∧ last.start = place ∧ Unclosed last.token (last.chars text) := by
  induction h generalizing before with
  | done => simp
  | @blank start c cs found hblank _ ih =>
    exact ih (show (before ++ [c]).length = start + 1 by simp [hstart]) (by simp [htext])
  | @token start t used rest later hwritten _ ih =>
    have hlater := ih (show (before ++ used).length = start + used.length by simp [hstart]) (by simp [htext])
    subst hstart
    show later.openQuote = some place ↔ _
    rw [hlater, Lexed.behind]
    -- a complete token is not an open string, and counts only if it is the last one
    cases hnone : later.lexemes with
    | nil =>
      have hchars := chars_piece htext t
      have hnot : ¬ Unclosed t used := hwritten.not_unclosed
      simp [hchars, hnot]
    | cons l ls => rw [List.getLast?_cons_cons]
  | @unclosed start t used hopen =>
    subst hstart
    have hchars := chars_end htext t
    simp [hchars, hopen]

/-- Texts with single spaces between them. -/
def spaced (texts : List (List Char)) : List Char := [' '].intercalate texts

/-- What comes behind the first of several texts: a space and the others, if there are any. -/
def spacedBehind : List (List Char) → List Char
  | [] => []
  | next :: more => ' ' :: spaced (next :: more)

theorem spaced_cons (cs : List Char) (texts : List (List Char)) :
    spaced (cs :: texts) = cs ++ spacedBehind texts := by
  cases texts with
  | nil => simp [spaced, spacedBehind]
  | cons next more => simp [spaced, spacedBehind]

theorem blankFirst_spacedBehind (texts : List (List Char)) : BlankFirst (spacedBehind texts) := by
  intro c hc
  cases texts with
  | nil => cases hc
  | cons next more =>
    cases hc
    decide

/-- The space in front makes no difference. -/
theorem lexFrom_spacedBehind (start : Nat) (texts : List (List Char)) :
    ∃ place, lexFrom start (spacedBehind texts) = lexFrom place (spaced texts) := by
  cases texts with
  | nil => exact ⟨start, rfl⟩
  | cons next more =>
    refine ⟨start + 1, ?_⟩
    rw [spacedBehind, lexFrom, if_pos (by decide)]

/-- A token is found again in front of a blank. -/
theorem Written.lexFrom_append (h : Written t used) {rest : List Char} (hrest : BlankFirst rest) (start : Nat) :
    lexFrom start (used ++ rest) =
      (lexFrom (start + used.length) rest).behind ⟨t, start, start + used.length⟩ := by
  obtain ⟨c, cs, rfl, hblank, hscan⟩ := h.scan
  have hclosed : (Query.scan c cs).closed := by rw [hscan]
  have hagain := scan_append hclosed hrest
  rw [hscan, List.nil_append] at hagain
  have hstop : start + ((cs ++ rest).length + 1 - rest.length) = start + (c :: cs).length := by
    rw [List.length_append, List.length_cons]
    omega
  rw [List.cons_append, lexFrom, if_neg (by simp [hblank]), hagain]
  dsimp only
  rw [hstop]
  rfl

/-- Two texts with the same tokens, of which both or none end in an open quote. -/
def SameTokens (found other : Lexed) : Prop :=
  tokens found.lexemes = tokens other.lexemes ∧ found.openQuote.isSome = other.openQuote.isSome

/-- The texts of the lexemes, with single spaces between them, are cut into the same tokens wherever they stand. -/
theorem Tiles.lex_spaced {text before cs : List Char} {start : Nat} {found : Lexed} (h : Tiles start cs found)
    (hstart : before.length = start) (htext : text = before ++ cs) (place : Nat) :
    SameTokens (lexFrom place (spaced (found.lexemes.map (Lexeme.chars text)))) found := by
  -- blanks are dropped or become one, so the two texts are followed from places of their own
  induction h generalizing before place with
  | done =>
    rw [List.map_nil, spaced, List.intercalate_nil, lexFrom]
    exact ⟨rfl, rfl⟩
  | @blank start c cs found hblank _ ih =>
    exact ih (show (before ++ [c]).length = start + 1 by simp [hstart]) (by simp [htext]) place
  | @token start t used rest later hwritten _ ih =>
    have hlater := ih (show (before ++ used).length = start + used.length by simp [hstart]) (by simp [htext])
    subst hstart
    rw [Lexed.behind, List.map_cons, spaced_cons, chars_piece htext,
      hwritten.lexFrom_append (blankFirst_spacedBehind _)]
    obtain ⟨place', hmore⟩ := lexFrom_spacedBehind (place + used.length) (later.lexemes.map (Lexeme.chars text))
    obtain ⟨htokens, hopen⟩ := hlater place'
    rw [hmore]
    exact ⟨congrArg (t :: ·) htokens, hopen⟩
  | @unclosed start t used hopen =>
    subst hstart
    have hchars := chars_end htext t
    rw [List.map_cons, List.map_nil, hchars, spaced, List.intercalate_singleton]
    obtain ⟨c, cs, rfl, hblank, hscan⟩ := hopen.scan
    rw [lexFrom, if_neg (by simp [hblank]), hscan]
    dsimp only
    rw [lexFrom]
    exact ⟨rfl, rfl⟩

/-! ## The lexemes of a text -/

/-- The lexemes of a text tile it. None is empty, all lie in the text, from one character to another also if places are
counted in bytes, and one behind the other; what they do not cover is blank. An open quote is reported exactly if the
last lexeme is a string without its closing quote, which then runs to the end of the text, and what is reported is
where it starts. The texts of the lexemes with single spaces between them are cut into the same tokens, and end in an
open quote if the text does. -/
theorem lexemes_tile (text : List Char) :
    (∀ l ∈ (lex text).lexemes, l.start < l.stop ∧ l.stop ≤ text.length ∧
      between? (width (text.take l.start)) (width (text.take l.stop)) text = some (l.chars text)) ∧
    ((lex text).lexemes.Pairwise fun l m => l.stop ≤ m.start) ∧
    (∀ i c, text[i]? = some c → (∀ l ∈ (lex text).lexemes, i < l.start ∨ l.stop ≤ i) → isBlank c) ∧
    (∀ place, (lex text).openQuote = some place ↔ ∃ last, (lex text).lexemes.getLast? = some last ∧
      last.start = place ∧ Unclosed last.token (last.chars text)) ∧
    (∀ last, (lex text).lexemes.getLast? = some last → Unclosed last.token (last.chars text) →
      last.stop = text.length) ∧
    tokens (lex (spaced ((lex text).lexemes.map (Lexeme.chars text)))).lexemes = tokens (lex text).lexemes ∧
    (lex (spaced ((lex text).lexemes.map (Lexeme.chars text)))).openQuote.isSome = (lex text).openQuote.isSome := by
  have htiles := tiles_lexFrom 0 text
  have hlaid := laid_lex text
  have hnone : ([] : List Char).length = 0 := rfl
  have hopen (place : Nat) : (lexFrom 0 text).openQuote = some place ↔ _ := htiles.openQuote_iff hnone rfl
  refine ⟨fun l hl => ?_, hlaid.pairwise, fun i c hc hout => ?_, hopen, fun last hlast hunclosed => ?_,
    htiles.lex_spaced hnone rfl 0⟩
  · obtain ⟨-, hne, hstop⟩ := hlaid.range hl
    refine ⟨hne, hstop, ?_⟩
    rw [between?_width_take (Nat.le_of_lt hne), Lexeme.chars, slice, String.toList_ofList]
  · refine htiles.isBlank hc fun l hl => ?_
    rw [Nat.zero_add]
    exact hout l hl
  · have hreported : (lexFrom 0 text).openQuote = some last.start := (hopen _).2 ⟨last, hlast, rfl, hunclosed⟩
    obtain ⟨before, last', hlexemes, -, hstop⟩ := last_of_openQuote hreported
    rw [lex, hlexemes, List.getLast?_concat] at hlast
    rw [← Option.some.inj hlast, hstop, Nat.zero_add]

end EvidenceGraph.Query
