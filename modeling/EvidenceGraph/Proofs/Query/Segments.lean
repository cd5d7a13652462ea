/-
# `EvidenceGraph.Proofs.Query.Segments` — bad conditions in a text are dropped alone.

A segment is the canonical text of a condition, or closed text that is no condition, with any blanks around it.
What stands between two segments is ` AND `, and its blanks keep the lexemes of both apart from the keyword; so by
induction on the segments a text has their lexemes one after the other (`areParts_joined`), and each segment is
one of the parts that recovery keeps or drops (`Segment.isPart`). Trimming takes only blanks behind the last one.
-/
import EvidenceGraph.Proofs.Query.Pieces
import EvidenceGraph.Proofs.Query.Recovery
import EvidenceGraph.Proofs.Query.RoundTrip
import EvidenceGraph.Proofs.Query.Silence

namespace EvidenceGraph.Query

open EvidenceGraph.Text Grammar

/-! ## Segments of a text -/

/-- A text that is, blanks around it apart, the canonical text of a condition, or tokens with closed quotes that
are no condition. -/
inductive Segment : String → Option Condition → Prop
  | kept {text : String} {c : Condition} : trim text.toList = c.write → c.WellFormed → Segment text (some c)
  | damaged {text : String} : (lex (trim text.toList)).openQuote = none →
      Damaged (tokens (lex (trim text.toList)).lexemes) → Segment text none

/-- The text that selects everything under some conditions. -/
def conjunctionText (texts : List String) : String :=
  "SELECT * FROM evidence WHERE " ++ " AND ".intercalate texts

/-- The parts that the segments of a text become. -/
def partsOf (segments : List (String × Option Condition)) : List (String × Option Condition) :=
  segments.map fun segment => (String.ofList (trim segment.1.toList), segment.2)

theorem Segment.trim_ne_nil {text : String} {c : Option Condition} (h : Segment text c) :
    trim text.toList ≠ [] := by
  cases h with
  | kept htext hc =>
    obtain ⟨before, d, hwrite, -⟩ := solid_condition (Condition.wellFormed_iff.1 hc).1
    rw [htext, hwrite]
    exact List.append_ne_nil_of_right_ne_nil before (List.cons_ne_nil d [])
  | damaged _ hdamaged =>
    intro hnil
    rw [hnil] at hdamaged
    apply hdamaged.ne_nil
    rw [lex, lexFrom]
    rfl

/-- A piece of text has the lexemes of a part, wherever it stands and whatever follows. -/
def IsPart (cs : List Char) (c : Option Condition) (piece : String) : Prop :=
  ∀ before behind, ∃ ls, lexFrom before.length cs = ⟨ls, none⟩ ∧ Part (before ++ (cs ++ behind)) ls c piece

/-- What trimming leaves of a segment is a part. -/
theorem Segment.isPart {text : String} {c : Option Condition} (h : Segment text c) :
    IsPart (trim text.toList) c (String.ofList (trim text.toList)) := by
  intro before behind
  have hne := h.trim_ne_nil
  cases h with
  | kept htext hc =>
    obtain ⟨hshaped, hreread⟩ := Condition.wellFormed_iff.1 hc
    obtain ⟨ts, hchunk, hprinted⟩ := chunk_condition hshaped
    have hcondition := hprinted.condition
    rw [hreread] at hcondition
    obtain ⟨hclosed, htokens⟩ := hchunk.spells before.length
    rw [← htext] at hclosed htokens
    rw [← htokens] at hcondition
    exact ⟨_, lexed_eq rfl hclosed, .kept hcondition⟩
  | damaged hquotes hdamaged =>
    obtain ⟨hclosed, htokens⟩ := spells_lex hquotes before.length
    obtain ⟨first, more, hlexemes, hstart, hstop⟩ :=
      exists_ends before.length hne (first_trim text.toList) (last_trim text.toList)
    rw [hlexemes] at htokens
    rw [← htokens] at hdamaged
    have hpiece := slice_piece before (trim text.toList) behind
    rw [← hstop, ← hstart] at hpiece
    rw [← hpiece]
    exact ⟨_, lexed_eq hlexemes hclosed, .damaged hdamaged⟩

/-! ## Segments in sequence -/

/-- A word is one lexeme, and what follows it behind a blank has lexemes of its own. -/
theorem lexFrom_word {w : String} (hw : IsWord w) (start : Nat) {rest : List Char} (hrest : BlankFirst rest) :
    ∃ t, t.token = .word w ∧
      lexFrom start (w.toList ++ rest) =
        ⟨t :: (lexFrom (start + w.toList.length) rest).lexemes,
          (lexFrom (start + w.toList.length) rest).openQuote⟩ := by
  obtain ⟨hclosed, htokens⟩ := (chunk_word hw).spells start
  obtain ⟨t, hlexemes, ht⟩ := tokens_eq_singleton.1 htokens
  refine ⟨t, ht, ?_⟩
  rw [lexFrom_append hclosed hrest, hlexemes]
  rfl

theorem isBlank_space : ∀ c ∈ [' '], isBlank c := by
  intro c hc
  obtain rfl := List.mem_singleton.1 hc
  decide

theorem lexFrom_and (start : Nat) (cs : List Char) :
    ∃ a, a.token.isKeyword .and ∧
      lexFrom start (" AND ".toList ++ cs) =
        ⟨a :: (lexFrom (start + 5) cs).lexemes, (lexFrom (start + 5) cs).openQuote⟩ := by
  have hbehind : BlankFirst ([' '] ++ cs) := by
    rintro c ⟨⟩
    decide
  obtain ⟨a, ha, hword⟩ := lexFrom_word (w := "AND") (.inr ⟨by decide, by decide⟩) (start + 1) hbehind
  refine ⟨a, by rw [ha]; decide, ?_⟩
  have hshape : " AND ".toList ++ cs = [' '] ++ ("AND".toList ++ ([' '] ++ cs)) := rfl
  rw [hshape, lexFrom_blanks isBlank_space, List.length_singleton, hword, lexFrom_blanks isBlank_space]
  rfl

/-- The end of a text has the lexemes of some parts, wherever it starts. -/
def AreParts (cs : List Char) (parts : List (String × Option Condition)) : Prop :=
  ∀ before, ∃ ls, lexFrom before.length cs = ⟨ls, none⟩ ∧ Parts (before ++ cs) ls parts

section Sequence

variable {pre post cs later : List Char} {c : Option Condition} {piece : String}
  {parts : List (String × Option Condition)}

theorem IsPart.last (h : IsPart cs c piece) (hpre : ∀ d ∈ pre, isBlank d) :
    AreParts (pre ++ cs) [(piece, c)] := by
  intro before
  obtain ⟨ls, hlexemes, hpart⟩ := h (before ++ pre) []
  rw [List.append_nil, List.append_assoc] at hpart
  refine ⟨ls, ?_, .last hpart⟩
  rw [lexFrom_blanks hpre, ← List.length_append]
  exact hlexemes

/-- The blanks around a part and the `AND` behind it take nothing from it or from the parts behind. -/
theorem IsPart.more (h : IsPart cs c piece) (hpre : ∀ d ∈ pre, isBlank d) (hpost : ∀ d ∈ post, isBlank d)
    (hlater : AreParts later parts) :
    AreParts (pre ++ (cs ++ (post ++ (" AND ".toList ++ later)))) ((piece, c) :: parts) := by
  intro before
  obtain ⟨ls, hlexemes, hpart⟩ := h (before ++ pre) (post ++ (" AND ".toList ++ later))
  obtain ⟨a, ha, hand⟩ := lexFrom_and (before.length + pre.length + cs.length + post.length) later
  obtain ⟨more, hmore, hparts⟩ := hlater (before ++ (pre ++ (cs ++ (post ++ " AND ".toList))))
  have hbehind : BlankFirst (post ++ (" AND ".toList ++ later)) := by
    cases post with
    | nil =>
      rintro d ⟨⟩
      decide
    | cons d ds =>
      rintro e ⟨⟩
      exact hpost d List.mem_cons_self
  have hplace : (before ++ (pre ++ (cs ++ (post ++ " AND ".toList)))).length =
      before.length + pre.length + cs.length + post.length + 5 := by
    simp only [List.length_append, Nat.add_assoc]
    rfl
  rw [hplace] at hmore
  rw [List.length_append] at hlexemes
  refine ⟨ls ++ a :: more, ?_, ?_⟩
  -- the part ends at the first blank behind it, be it in `post` or before `AND`
  · have hclosed : (lexFrom (before.length + pre.length) cs).openQuote = none := by rw [hlexemes]
    rw [lexFrom_blanks hpre, lexFrom_append hclosed hbehind, hlexemes, lexFrom_blanks hpost, hand, hmore]
  · simp only [List.append_assoc] at hpart hparts
    exact .more hpart ha hparts

end Sequence

/-- The characters of segments with `AND` between them. -/
def joined (segments : List (String × Option Condition)) : List Char :=
  " AND ".toList.intercalate (segments.map fun segment => segment.1.toList)

theorem exists_solid_end (pre : List Char) {cs : List Char} (hne : cs ≠ [])
    (h : ∀ d ∈ cs.getLast?, isBlank d = false) : ∃ before d, pre ++ cs = before ++ [d] ∧ isBlank d = false := by
  refine ⟨pre ++ cs.dropLast, cs.getLast hne, ?_, h _ (List.getLast?_eq_some_getLast hne)⟩
  rw [List.append_assoc, List.dropLast_concat_getLast]

/-- Segments are cut into their parts, wherever the text that they make up stands; only the blanks behind the
last one are left away. -/
theorem areParts_joined {segments : List (String × Option Condition)} (hne : segments ≠ [])
    (h : ∀ segment ∈ segments, Segment segment.1 segment.2) :
    ∃ cs post, joined segments = cs ++ post ∧ (∀ c ∈ post, isBlank c) ∧
      (∃ before d, cs = before ++ [d] ∧ isBlank d = false) ∧ AreParts cs (partsOf segments) := by
  -- from the last segment on, as only its blanks stay outside `cs`
  induction segments with
  | nil => exact absurd rfl hne
  | cons segment later ih =>
    have hsegment := h segment List.mem_cons_self
    obtain ⟨pre, post, htext, hpre, hpost⟩ := exists_padding segment.1.toList
    have hpart := hsegment.isPart
    cases later with
    | nil =>
      refine ⟨pre ++ trim segment.1.toList, post, ?_, hpost, ?_, hpart.last hpre⟩
      · rw [List.append_assoc, ← htext]
        exact List.intercalate_singleton
      · exact exists_solid_end pre hsegment.trim_ne_nil (last_trim segment.1.toList)
    | cons next later =>
      obtain ⟨cs, post', hjoined, hpost', ⟨before, d, rfl, hd⟩, hlater⟩ :=
        ih nofun fun other hother => h other (List.mem_cons_of_mem segment hother)
      refine ⟨_, post', ?_, hpost', ⟨pre ++ (trim segment.1.toList ++ (post ++ (" AND ".toList ++ before))), d, ?_, hd⟩,
        hpart.more hpre hpost hlater⟩
      · have hfirst : joined (segment :: next :: later) =
            segment.1.toList ++ (" AND ".toList ++ joined (next :: later)) := by
          rw [← List.append_assoc]
          exact List.intercalate_cons_cons
        rw [hfirst, hjoined]
        conv => lhs; rw [htext]
        simp only [List.append_assoc]
      · simp only [List.append_assoc]

/-! ## The whole text -/

theorem trimEndWhile_padded {p : Char → Bool} {before post : List Char} {d : Char} (hd : p d = false)
    (hpost : ∀ c ∈ post, p c) : trimEndWhile p (before ++ [d] ++ post) = before ++ [d] := by
  have hreverse : ∀ c ∈ post.reverse, p c := fun c hc => hpost c (List.mem_reverse.1 hc)
  rw [trimEndWhile, List.reverse_append, List.dropWhile_append_of_pos hreverse]
  exact trimEndWhile_of_last hd

/-- The clause with the conditions, behind what selects everything. -/
theorem clauses_parts {text : List Char} {head ls : List Lexeme} {parts : List (String × Option Condition)}
    (hhead : tokens head = everything ++ [.word "WHERE"]) (h : Parts text ls parts) :
    ∃ reports, clauses .lenient text (head ++ ls) = .ok ⟨{ conditions := keptConditions parts }, reports⟩ ∧
      reports.map Diagnostic.fragment = damagedPieces parts := by
  obtain ⟨reports, hreports, hpieces⟩ := conditionList_parts h
  refine ⟨reports ++ [], ?_, by rw [List.append_nil, hpieces]⟩
  rw [clauses_opening hhead, hreports]
  show Except.map _ (tailClauses .lenient text 0 _ []) = _
  rw [tailClauses]
  rfl

/-- Only the blanks behind a text are left away if it does not end in a semicolon. -/
theorem trimmed_padded {source : String} {c d : Char} {before post : List Char}
    (hsource : source.toList = c :: before ++ [d] ++ post) (hc : isBlank c = false) (hd : isBlank d = false)
    (hpost : ∀ e ∈ post, isBlank e) (hend : (trim source.toList).getLast? ≠ some ';') :
    trimmed source = c :: before ++ [d] := by
  have htrim : trim source.toList = c :: before ++ [d] := by
    have hstart : source.toList.dropWhile isBlank = source.toList := by
      rw [hsource]
      simp [hc]
    rw [trim, hstart, hsource, trimEndWhile_padded hd hpost]
  rw [htrim, List.getLast?_concat] at hend
  have hsolid : Solid (trim source.toList) := by
    rw [htrim]
    exact solid_of_last hd fun heq => hend (congrArg some heq)
  rw [trimmed_of_trim hsolid, htrim]

/-- What stands before the first segment. -/
def opening : List Char := "SELECT * FROM evidence WHERE".toList

theorem lex_opening :
    (lex opening).openQuote = none ∧
      tokens (lex opening).lexemes = everything ++ [.word "WHERE"] := by
  decide +kernel

theorem toList_conjunctionText (segments : List (String × Option Condition)) :
    (conjunctionText (segments.map Prod.fst)).toList = opening ++ ([' '] ++ joined segments) := by
  have hopening : "SELECT * FROM evidence WHERE ".toList = opening ++ [' '] := by decide +kernel
  have hjoined : (" AND ".intercalate (segments.map Prod.fst)).toList = joined segments := by
    rw [String.toList_intercalate, List.map_map, joined]
    rfl
  calc (conjunctionText (segments.map Prod.fst)).toList
      = "SELECT * FROM evidence WHERE ".toList ++ (" AND ".intercalate (segments.map Prod.fst)).toList :=
        String.toList_append
    _ = (opening ++ [' ']) ++ joined segments := congrArg₂ (· ++ ·) hopening hjoined
    _ = opening ++ ([' '] ++ joined segments) := List.append_assoc ..

/-- The text of segments is trimmed only behind the last one. -/
theorem trimmed_conjunctionText {source : String} {before post : List Char} {d : Char}
    (hsource : source.toList = opening ++ ([' '] ++ (before ++ [d] ++ post))) (hd : isBlank d = false)
    (hpost : ∀ c ∈ post, isBlank c) (hend : (trim source.toList).getLast? ≠ some ';') :
    trimmed source = opening ++ ([' '] ++ (before ++ [d])) := by
  obtain ⟨more, hmore⟩ : ∃ more, opening = 'S' :: more := ⟨_, String.toList_ofList⟩
  have hpadded : source.toList = 'S' :: (more ++ ([' '] ++ before)) ++ [d] ++ post := by
    simp only [hsource, hmore, List.append_assoc, List.cons_append]
  rw [trimmed_padded hpadded (by decide) hd hpost hend]
  simp only [hmore, List.append_assoc, List.cons_append]

/-- Behind the opening and a blank stand the lexemes of the segments. -/
theorem lex_behind_opening {cs : List Char} {ls : List Lexeme}
    (h : lexFrom (opening ++ [' ']).length cs = ⟨ls, none⟩) :
    lex (opening ++ ([' '] ++ cs)) = ⟨(lex opening).lexemes ++ ls, none⟩ := by
  have hbehind : BlankFirst ([' '] ++ cs) := by
    rintro c ⟨⟩
    decide
  have hplace : 0 + opening.length + [' '].length = (opening ++ [' ']).length := by
    rw [List.length_append, Nat.zero_add]
  rw [lex, lexFrom_append lex_opening.1 hbehind, lexFrom_blanks isBlank_space, hplace, h]
  rfl

theorem keptConditions_partsOf (segments : List (String × Option Condition)) :
    keptConditions (partsOf segments) = segments.filterMap Prod.snd := by
  rw [keptConditions, partsOf, List.filterMap_map]
  rfl

theorem damagedPieces_partsOf (segments : List (String × Option Condition)) :
    damagedPieces (partsOf segments) =
      (segments.filter fun segment => segment.2.isNone).map fun segment =>
        String.ofList (trim segment.1.toList) := by
  rw [damagedPieces, partsOf, List.filter_map, List.map_map]
  rfl

/-- In a text that selects everything under one or more segments joined by `AND`, each of which is a condition or
is damaged, and that does not end in a semicolon, every condition is kept and every damaged segment is dropped
alone: the query has the conditions of the segments in their order and nothing else, and of each damaged segment
the text from its first token to its last one is reported, in their order, once. -/
theorem damaged_conditions_dropped (segments : List (String × Option Condition)) (hne : segments ≠ [])
    (h : ∀ segment ∈ segments, Segment segment.1 segment.2)
    (hend : (trim (conjunctionText (segments.map Prod.fst)).toList).getLast? ≠ some ';') :
    let parsed := parse (conjunctionText (segments.map Prod.fst))
    parsed.query = { conditions := segments.filterMap Prod.snd } ∧
      parsed.diagnostics.map Diagnostic.fragment =
        (segments.filter fun segment => segment.2.isNone).map fun segment =>
          String.ofList (trim segment.1.toList) := by
  intro parsed
  obtain ⟨cs, post, hjoined, hpost, ⟨before, d, rfl, hd⟩, hparts⟩ := areParts_joined hne h
  have htext := toList_conjunctionText segments
  rw [hjoined] at htext
  have htrimmed := trimmed_conjunctionText htext hd hpost hend
  obtain ⟨ls, hlexemes, hls⟩ := hparts (opening ++ [' '])
  have hlex := lex_behind_opening hlexemes
  rw [List.append_assoc] at hls
  rw [← htrimmed] at hlex hls
  obtain ⟨reports, hreports, hpieces⟩ := clauses_parts lex_opening.2 hls
  have hsome : (lex opening).lexemes ++ ls ≠ [] := by
    intro hnil
    have htokens := lex_opening.2
    rw [(List.append_eq_nil_iff.1 hnil).1] at htokens
    cases htokens
  have hparsed : parsed = ⟨{ conditions := keptConditions (partsOf segments) }, reports⟩ :=
    parse_of_clauses hlex hsome hreports
  rw [hparsed]
  dsimp only
  exact ⟨by rw [keptConditions_partsOf], by rw [hpieces, damagedPieces_partsOf]⟩

/-- Two conditions, one with `AND` in a string; a segment that is bad at its second token, and one that is bad
behind a condition, with blanks around it. -/
theorem damaged_conditions_dropped_mixed :
    let parsed := parse (conjunctionText ["a = 1", "b 2", " c = 'x' 4  ", "note CONTAINS 'x AND y'"])
    parsed.query = { conditions := [⟨"a", .compare .eq, .int 1⟩, ⟨"note", .contains, .text "x AND y"⟩] } ∧
      parsed.diagnostics.map Diagnostic.fragment = ["b 2", "c = 'x' 4"] := by
  have hword {w : String} (h : w.toList ≠ [] ∧ w.toList.all isWordChar) : BareWord w :=
    bareWord_iff.2 (.inr h)
  let segments : List (String × Option Condition) :=
    [("a = 1", some ⟨"a", .compare .eq, .int 1⟩), ("b 2", none), (" c = 'x' 4  ", none),
      ("note CONTAINS 'x AND y'", some ⟨"note", .contains, .text "x AND y"⟩)]
  have hsegments : ∀ segment ∈ segments, Segment segment.1 segment.2 := by
    intro segment hsegment
    simp only [segments, List.mem_cons, List.not_mem_nil, or_false] at hsegment
    rcases hsegment with rfl | rfl | rfl | rfl
    · exact .kept (by decide +kernel) (.comparison .eq (hword (by decide)) (by decide) (.int 1))
    · have htokens : tokens (lex (trim "b 2".toList)).lexemes = [.word "b", .word "2"] := by decide +kernel
      refine .damaged (by decide +kernel) ?_
      rw [htokens]
      exact ⟨nofun, by decide, nofun⟩
    · have htokens : tokens (lex (trim " c = 'x' 4  ".toList)).lexemes =
          [.word "c", .comparison .eq, .quoted "x", .word "4"] := by decide +kernel
      refine .damaged (by decide +kernel) ?_
      rw [htokens]
      exact ⟨nofun, by decide, nofun⟩
    · exact .kept (by decide +kernel) (.contains _ (hword (by decide)) (by decide))
  obtain ⟨hquery, hfragments⟩ := damaged_conditions_dropped segments nofun hsegments (by decide +kernel)
  exact ⟨hquery, hfragments.trans (by decide +kernel)⟩

end EvidenceGraph.Query
