/-
# `EvidenceGraph.Proofs.Query.Spelling` — texts that are cut into given tokens.

A word ends where a character comes that no word has, and a quoted string where its quote comes once; so a
piece of text has its tokens by itself only if what follows keeps apart from it. `Chunk` says that a piece
has certain tokens whatever follows, if that is a blank, a comma or a parenthesis; chunks may be put
together. Main statements: the chunks of words, strings and signs, and `bareWord_iff`, which texts are cut
into one word.
-/
import EvidenceGraph.Proofs.Query.Reading

namespace EvidenceGraph.Query

open EvidenceGraph.Text

/-! ## Texts and their tokens -/

/-- A text with closed quotes that is cut into the tokens `ts`, wherever it starts. -/
def Spells (cs : List Char) (ts : List Token) : Prop :=
  ∀ start, (lexFrom start cs).openQuote = none ∧ tokens (lexFrom start cs).lexemes = ts

theorem spells_nil : Spells [] [] := by
  intro start
  rw [lexFrom]
  exact ⟨rfl, rfl⟩

/-- Blanks between tokens are passed over. -/
theorem spells_blank {c : Char} {cs : List Char} {ts : List Token} (hc : isBlank c)
    (h : Spells cs ts) : Spells (c :: cs) ts := by
  intro start
  rw [lexFrom, if_pos hc]
  exact h (start + 1)

/-- A token at the front, and the tokens behind it. -/
theorem spells_scan {c : Char} {cs rest : List Char} {t : Token} {ts : List Token}
    (hc : isBlank c = false) (hscan : scan c cs = ⟨t, rest, true⟩) (h : Spells rest ts) :
    Spells (c :: cs) (t :: ts) := by
  intro start
  obtain ⟨hclosed, htokens⟩ := h (start + (cs.length + 1 - rest.length))
  rw [lexFrom, if_neg (by simp [hc])]
  simp only [hscan, if_true]
  exact ⟨hclosed, by rw [tokens_cons, htokens]⟩

/-! ## Words -/

/-- A word that is cut into itself. -/
def BareWord (w : String) : Prop := tokens (lex w.toList).lexemes = [.word w]

/-- The words that a text can have: a single `!`, or characters that words are made of. -/
def IsWord (w : String) : Prop := w = "!" ∨ w.toList ≠ [] ∧ w.toList.all isWordChar

theorem isWordChar_not_blank {c : Char} (h : isWordChar c) : isBlank c = false := by
  simp only [isWordChar, Bool.and_eq_true, Bool.not_eq_true'] at h
  exact h.1

theorem isWordChar_not_sign {c : Char} (h : isWordChar c) : isSign c = false := by
  simp only [isWordChar, Bool.and_eq_true, Bool.not_eq_true'] at h
  exact h.2

/-- A character that is no sign starts a word. -/
theorem scan_word {c : Char} (h : isSign c = false) (cs : List Char) :
    scan c cs = ⟨.word (String.ofList (c :: cs.takeWhile isWordChar)), cs.dropWhile isWordChar, true⟩ := by
  simp only [isSign, Bool.or_eq_false_iff, beq_eq_false_iff_ne] at h
  obtain ⟨⟨⟨⟨⟨⟨⟨⟨hsingle, hdouble⟩, hleft⟩, hright⟩, hcomma⟩, heq⟩, hbang⟩, hless⟩, hgreater⟩ := h
  simp only [scan, if_neg hleft, if_neg hright, if_neg hcomma, if_neg (not_or.2 ⟨hsingle, hdouble⟩),
    if_neg heq, if_neg hbang, if_neg hless, if_neg hgreater]

/-- Whatever is scanned as a word is one. -/
theorem isWord_of_scan {c : Char} {cs : List Char} {w : String} (hblank : isBlank c = false)
    (h : (scan c cs).token = .word w) : IsWord w := by
  by_cases hsign : isSign c
  · left
    -- of all signs only `!` can be a word
    unfold scan at h
    repeat' split at h
    all_goals simp_all [isSign]
  · right
    have hsign : isSign c = false := by simpa using hsign
    rw [scan_word hsign] at h
    cases h
    rw [String.toList_ofList]
    refine ⟨List.cons_ne_nil _ _, List.all_eq_true.2 fun d hd => ?_⟩
    rcases List.mem_cons.1 hd with rfl | hd
    · simp [isWordChar, hblank, hsign]
    · exact List.all_eq_true.1 List.all_takeWhile d hd

theorem isWord_of_lexFrom {start : Nat} {cs : List Char} {w : String}
    (h : .word w ∈ tokens (lexFrom start cs).lexemes) : IsWord w := by
  fun_induction lexFrom start cs with
  | case1 => cases h
  | case2 start c cs hblank ih => exact ih h
  | case3 start c cs hblank found stop later ih =>
    rcases List.mem_cons.1 h with hfirst | hlater
    · exact isWord_of_scan (by simpa using hblank) hfirst.symm
    · exact ih hlater

/-! ## Pieces of text -/

/-- Nothing, or a character that ends any word, sign or string before it. -/
def Apart (cs : List Char) : Prop := ∀ c ∈ cs.head?, c = ' ' ∨ c = ',' ∨ c = '(' ∨ c = ')'

theorem Apart.nil : Apart [] := nofun

theorem Apart.cons {c : Char} (h : c = ' ' ∨ c = ',' ∨ c = '(' ∨ c = ')') (cs : List Char) :
    Apart (c :: cs) := by
  intro d hd
  cases hd
  exact h

theorem Apart.blank (cs : List Char) : Apart (' ' :: cs) := .cons (.inl rfl) cs

theorem Apart.comma (cs : List Char) : Apart (',' :: cs) := .cons (.inr (.inl rfl)) cs

theorem Apart.leftParen (cs : List Char) : Apart ('(' :: cs) := .cons (.inr (.inr (.inl rfl))) cs

theorem Apart.rightParen (cs : List Char) : Apart (')' :: cs) := .cons (.inr (.inr (.inr rfl))) cs

theorem Apart.append {cs rest : List Char} (h : Apart cs) (hrest : Apart rest) : Apart (cs ++ rest) := by
  cases cs with
  | nil => exact hrest
  | cons c cs => exact h

theorem Apart.head_ne {cs : List Char} (h : Apart cs) {d : Char}
    (hd : ¬ (d = ' ' ∨ d = ',' ∨ d = '(' ∨ d = ')')) : cs.head? ≠ some d :=
  fun heq => hd (h d heq)

/-- No word goes on there. -/
theorem Apart.not_isWordChar {cs : List Char} (h : Apart cs) : ∀ c ∈ cs.head?, isWordChar c = false := by
  intro c hc
  rcases h c hc with rfl | rfl | rfl | rfl <;> decide

/-- A piece of text that has the tokens `ts`, and takes none away from what follows. -/
def Chunk (cs : List Char) (ts : List Token) : Prop :=
  ∀ rest us, Apart rest → Spells rest us → Spells (cs ++ rest) (ts ++ us)

theorem Chunk.nil : Chunk [] [] := fun _ _ _ h => h

theorem Chunk.append {cs ds : List Char} {ts us : List Token} (h : Chunk cs ts) (hnext : Chunk ds us)
    (happart : Apart ds) : Chunk (cs ++ ds) (ts ++ us) := by
  intro rest vs hrest hvs
  rw [List.append_assoc, List.append_assoc]
  exact h _ _ (happart.append hrest) (hnext rest vs hrest hvs)

theorem Chunk.spells {cs : List Char} {ts : List Token} (h : Chunk cs ts) : Spells cs ts := by
  have hwhole := h [] [] .nil spells_nil
  rwa [List.append_nil, List.append_nil] at hwhole

theorem Chunk.blank {cs : List Char} {ts : List Token} (h : Chunk cs ts) : Chunk (' ' :: cs) ts :=
  fun rest us hrest hus => spells_blank (by decide) (h rest us hrest hus)

theorem Chunk.comma {cs : List Char} {ts : List Token} (h : Chunk cs ts) :
    Chunk (',' :: cs) (.comma :: ts) :=
  fun rest us hrest hus => spells_scan (by decide) rfl (h rest us hrest hus)

theorem Chunk.leftParen {cs : List Char} {ts : List Token} (h : Chunk cs ts) :
    Chunk ('(' :: cs) (.leftParen :: ts) :=
  fun rest us hrest hus => spells_scan (by decide) rfl (h rest us hrest hus)

theorem Chunk.rightParen {cs : List Char} {ts : List Token} (h : Chunk cs ts) :
    Chunk (')' :: cs) (.rightParen :: ts) :=
  fun rest us hrest hus => spells_scan (by decide) rfl (h rest us hrest hus)

/-- Two pieces with a blank between them. -/
theorem Chunk.append_blank {cs ds : List Char} {ts us : List Token} (h : Chunk cs ts)
    (hnext : Chunk ds us) : Chunk (cs ++ ' ' :: ds) (ts ++ us) :=
  h.append hnext.blank (.blank ds)

/-- A piece before a closing parenthesis. -/
theorem Chunk.closed {cs : List Char} {ts : List Token} (h : Chunk cs ts) :
    Chunk (cs ++ [')']) (ts ++ [.rightParen]) :=
  h.append Chunk.nil.rightParen (.rightParen [])

/-- A word ends where a character comes that no word has. -/
theorem spells_word {w : String} (hne : w.toList ≠ []) (hw : w.toList.all isWordChar)
    {rest : List Char} {ts : List Token} (hrest : ∀ c ∈ rest.head?, isWordChar c = false)
    (h : Spells rest ts) : Spells (w.toList ++ rest) (.word w :: ts) := by
  obtain ⟨c, cs, hcs⟩ := List.exists_cons_of_ne_nil hne
  rw [hcs, List.all_cons, Bool.and_eq_true] at hw
  have hfirst : isWordChar c := hw.1
  have hmore : ∀ d ∈ cs, isWordChar d := List.all_eq_true.1 hw.2
  have hstop : rest.takeWhile isWordChar = [] ∧ rest.dropWhile isWordChar = rest := by
    cases rest with
    | nil => exact ⟨rfl, rfl⟩
    | cons d ds => simp [hrest d rfl]
  have hscan : scan c (cs ++ rest) = ⟨.word w, rest, true⟩ := by
    rw [scan_word (isWordChar_not_sign hfirst), List.takeWhile_append_of_pos hmore,
      List.dropWhile_append_of_pos hmore, hstop.1, hstop.2, List.append_nil, ← hcs, String.ofList_toList]
  rw [hcs]
  exact spells_scan (isWordChar_not_blank hfirst) hscan h

theorem chunk_word {w : String} (hw : IsWord w) : Chunk w.toList [.word w] := by
  intro rest us hrest hus
  rcases hw with rfl | ⟨hne, hw⟩
  · -- before an equality sign it would be part of a symbol
    have hequals : rest.head? ≠ some '=' := hrest.head_ne (by decide)
    have hscan : scan '!' rest = ⟨.word "!", rest, true⟩ := by simp [scan, hequals]
    exact spells_scan (by decide) hscan hus
  · exact spells_word hne hw hrest.not_isWordChar hus

theorem chunk_ofList {cs : List Char} (hw : IsWord (String.ofList cs)) :
    Chunk cs [.word (String.ofList cs)] := by
  have hchunk := chunk_word hw
  rwa [String.toList_ofList] at hchunk

/-- The words that a text can have are those that are cut into themselves. -/
theorem bareWord_iff {w : String} : BareWord w ↔ IsWord w := by
  constructor
  · intro h
    have hmem : .word w ∈ tokens (lex w.toList).lexemes := by
      rw [h]
      exact List.mem_cons_self
    exact isWord_of_lexFrom hmem
  · intro h
    exact ((chunk_word h).spells 0).2

/-- Every string in quotes is read back. -/
theorem chunk_quoted (s : String) : Chunk (writeQuoted s) [.quoted s] := by
  intro rest us hrest hus
  have hquote : Quoted.quoteFor s.toList = '\'' ∨ Quoted.quoteFor s.toList = '"' := by
    unfold Quoted.quoteFor
    split
    · exact .inr rfl
    · exact .inl rfl
  have hshape : writeQuoted s ++ rest = Quoted.quoteFor s.toList ::
      (Quoted.double (Quoted.quoteFor s.toList) s.toList ++ Quoted.quoteFor s.toList :: rest) := by
    simp [writeQuoted, Quoted.encode]
  rw [hshape]
  -- from here on it does not matter which of the quotes was chosen
  generalize Quoted.quoteFor s.toList = quote at hquote
  have hend : rest.head? ≠ some quote := by
    rcases hquote with rfl | rfl <;> exact hrest.head_ne (by decide)
  have hread := Quoted.read_double quote s.toList rest hend
  have hscan : scan quote (Quoted.double quote s.toList ++ quote :: rest) = ⟨.quoted s, rest, true⟩ := by
    rcases hquote with rfl | rfl <;> simp [scan, hread]
  refine spells_scan ?_ hscan hus
  rcases hquote with rfl | rfl <;> decide

theorem chunk_comparison (c : Comparison) : Chunk c.symbol.toList [.comparison c] := by
  intro rest us hrest hus
  have hequals : rest.head? ≠ some '=' := hrest.head_ne (by decide)
  cases c with
  | eq | ne | ge | le => exact spells_scan (by decide) rfl hus
  | gt =>
    have hscan : scan '>' rest = ⟨.comparison .gt, rest, true⟩ := by simp [scan, hequals]
    exact spells_scan (by decide) hscan hus
  | lt =>
    have hscan : scan '<' rest = ⟨.comparison .lt, rest, true⟩ := by simp [scan, hequals]
    exact spells_scan (by decide) hscan hus

end EvidenceGraph.Query
