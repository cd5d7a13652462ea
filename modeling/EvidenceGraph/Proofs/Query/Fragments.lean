/-
# `EvidenceGraph.Proofs.Query.Fragments` — what reports quote.

A report shows a part of the text, cut out from the start of one lexeme to the stop of another one. Here that
is done with every index and every place checked (`quote?`, `slice?`), and `Quotes` says that a fragment passes
the checks. Wherever a reader stands it stands at a lexeme or behind the last one, so whatever is shown from
there passes (`quotes_fragment`). `Ensures` carries this along a reading, through what it settles, whether the
reading ends with a query or with its first fault. Main statement: `parse_within_text`.
-/
import EvidenceGraph.Proofs.Query.Shape
import EvidenceGraph.Proofs.Query.Spans

namespace EvidenceGraph.Query

open EvidenceGraph.Text

/-! ## Quoting with checks -/

/-- The characters `start ≤ i < stop` of a text, if it has a range between these places. -/
def slice? (text : List Char) (start stop : Nat) : Option String :=
  if start ≤ stop ∧ stop ≤ text.length then some (slice text start stop) else none

/-- The text from the lexeme at index `i` to the one at index `j`, if there are both of them and their places
are a range of the text. -/
def quote? (text : List Char) (ls : List Lexeme) (i j : Nat) : Option String := do
  let first ← ls[i]?
  let last ← ls[j]?
  slice? text first.start last.stop

/-- A fragment quotes the text from a lexeme to the same or a later one, or says that there is none left. -/
def Quotes (text : List Char) (ls : List Lexeme) (fragment : String) : Prop :=
  fragment = endOfQuery ∨ ∃ i j, i ≤ j ∧ quote? text ls i j = some fragment

variable {text : List Char} {all : List Lexeme}

theorem quote?_eq_some {i j : Nat} (h : Laid text.length 0 all) (hij : i ≤ j) {first last : Lexeme}
    (hfirst : all[i]? = some first) (hlast : all[j]? = some last) :
    quote? text all i j = some (slice text first.start last.stop) := by
  obtain ⟨hlt, hle⟩ := h.between hij hfirst hlast
  have hslice : slice? text first.start last.stop = some (slice text first.start last.stop) :=
    if_pos ⟨Nat.le_of_lt hlt, hle⟩
  rw [quote?, hfirst, hlast]
  exact hslice

/-- The index of the lexeme at which some lexemes at the end of a list start. -/
def place (all rest : List Lexeme) : Nat := all.length - rest.length

/-- The last one of some lexemes at the front of a list. -/
theorem getElem?_last_shown (first : Lexeme) {more : List Lexeme} {n : Nat} (h : n ≤ more.length) :
    (first :: more)[n]? = some ((more.take n).getLast?.getD first) := by
  cases n with
  | zero => rfl
  | succ n =>
    have hlt : n < more.length := h
    rw [List.getElem?_cons_succ, List.getLast?_take, if_neg (Nat.succ_ne_zero n), Nat.add_sub_cancel,
      List.getElem?_eq_getElem hlt]
    rfl

/-- What is shown from one place to another is the text from the lexeme at the first place to the last one before
the second place, and at least the first of them. -/
theorem quote?_fragment (h : Laid text.length 0 all) {start rest : List Lexeme} (hstart : start <:+ all)
    (hne : start ≠ []) (hrest : rest <:+ start) :
    quote? text all (place all start) (max (place all start) (place all rest - 1)) =
      some (fragment text start rest) := by
  have hshorter := hrest.length_le
  obtain ⟨before, rfl⟩ := hstart
  obtain ⟨first, more, rfl⟩ := List.exists_cons_of_ne_nil hne
  have hplace : place (before ++ first :: more) (first :: more) = before.length := by
    rw [place, List.length_append, Nat.add_sub_cancel]
  have hend : max before.length (place (before ++ first :: more) rest - 1) =
      before.length + ((first :: more).length - rest.length - 1) := by
    rw [place, List.length_append]
    omega
  have hfirst : (before ++ first :: more)[before.length]? = some first := by
    rw [List.getElem?_append_right (Nat.le_refl _), Nat.sub_self]
    rfl
  have hlast : (before ++ first :: more)[before.length + ((first :: more).length - rest.length - 1)]? =
      (first :: more)[(first :: more).length - rest.length - 1]? := by
    rw [List.getElem?_append_right (Nat.le_add_right _ _), Nat.add_sub_cancel_left]
  have hinside : (first :: more).length - rest.length - 1 ≤ more.length := by
    rw [List.length_cons]
    omega
  rw [hplace, hend]
  exact quote?_eq_some h (Nat.le_add_right _ _) hfirst (hlast.trans (getElem?_last_shown first hinside))

/-- A fragment quotes the text, wherever it starts and ends. -/
theorem quotes_fragment (h : Laid text.length 0 all) {start rest : List Lexeme} (hstart : start <:+ all)
    (hrest : rest <:+ start) : Quotes text all (fragment text start rest) := by
  cases start with
  | nil => exact .inl rfl
  | cons first more =>
    exact .inr ⟨_, _, Nat.le_max_left _ _, quote?_fragment h hstart (List.cons_ne_nil first more) hrest⟩

/-! ## Readings that keep a promise -/

variable {α β : Type}

/-- A reading that ends with a result that has the property `post`, or at a report that has the property
`reported`. -/
def Ensures (reported : Diagnostic → Prop) (post : β → Prop) : Except Diagnostic β → Prop
  | .ok b => post b
  | .error found => reported found

variable {reported : Diagnostic → Prop} {post : β → Prop}

theorem Ensures.bind {next : α → Prop} {result : Except Diagnostic β} {f : β → Except Diagnostic α}
    (h : Ensures reported post result) (hf : ∀ b, result = .ok b → post b → Ensures reported next (f b)) :
    Ensures reported next (result >>= f) := by
  cases result with
  | ok b => exact hf b rfl h
  | error found => exact h

theorem Ensures.map {next : α → Prop} {result : Except Diagnostic β} {f : β → α}
    (h : Ensures reported post result) (hf : ∀ b, post b → next (f b)) :
    Ensures reported next (result.map f) := by
  cases result with
  | ok b => exact hf b h
  | error found => exact h

theorem Ensures.weaken {weaker : β → Prop} {result : Except Diagnostic β} (h : Ensures reported post result)
    (hpost : ∀ b, post b → weaker b) : Ensures reported weaker result := by
  cases result with
  | ok b => exact hpost b h
  | error found => exact h

/-! ## The parts of a query -/

/-- All reports quote the text. -/
def AllQuote (text : List Char) (all : List Lexeme) (reports : List Diagnostic) : Prop :=
  ∀ d ∈ reports, Quotes text all d.fragment

theorem AllQuote.nil : AllQuote text all [] := nofun

theorem AllQuote.single {d : Diagnostic} (h : Quotes text all d.fragment) : AllQuote text all [d] :=
  List.forall_mem_singleton.2 h

theorem AllQuote.append {reports later : List Diagnostic} (h : AllQuote text all reports)
    (hlater : AllQuote text all later) : AllQuote text all (reports ++ later) :=
  List.forall_mem_append.2 ⟨h, hlater⟩

/-- A part of a query that starts at some lexemes: its reports quote the text, and it leaves over the last of
these lexemes. -/
def SettledWithin (text : List Char) (all ts : List Lexeme) (found : Settled β) : Prop :=
  AllQuote text all found.reports ∧ found.rest <:+ ts

section Parts

variable {mode : Mode} {ts : List Lexeme}

theorem ensures_settle (hall : Laid text.length 0 all) {stops : List Keyword} {reader : Reader α}
    (hreader : reader.Forward) (hts : ts <:+ all) :
    Ensures (fun d => Quotes text all d.fragment) (SettledWithin text all ts)
      (settle mode text stops reader ts) := by
  have hleft := hreader ts
  unfold settle
  cases hread : reader ts with
  | ok read =>
    rw [hread] at hleft
    exact ⟨.nil, hleft⟩
  | error found =>
    rw [hread] at hleft
    cases mode with
    | strict => exact quotes_fragment hall hts ((List.tail_suffix _).trans hleft)
    | lenient =>
      have hskip := (skip_suffix stops 0 found.rest).trans hleft
      exact ⟨.single (quotes_fragment hall hts hskip), hskip⟩

theorem ensures_reportHere (hall : Laid text.length 0 all) (hts : ts <:+ all) (fault : Fault) :
    Ensures (fun d => Quotes text all d.fragment) (AllQuote text all) (reportHere mode text fault ts) := by
  have hquotes := quotes_fragment hall hts (List.tail_suffix ts)
  cases mode with
  | strict => exact hquotes
  | lenient => exact .single hquotes

theorem ensures_conditionList (hall : Laid text.length 0 all) (hts : ts <:+ all) :
    Ensures (fun d => Quotes text all d.fragment) (SettledWithin text all ts)
      (conditionList mode text ts) := by
  -- by the number of lexemes, as `AND` is passed behind each condition but the last
  induction hlength : ts.length using Nat.strongRecOn generalizing ts with
  | ind n ih =>
    rw [conditionList_eq]
    split
    · exact (ensures_reportHere hall hts _).map fun reports hreports => ⟨hreports, List.suffix_rfl⟩
    · refine (ensures_settle hall forward_boundedCondition hts).bind fun found hfound hwithin => ?_
      have hlater : Ensures (fun d => Quotes text all d.fragment) (SettledWithin text all found.rest)
          (if atKeyword .and found.rest then conditionList mode text found.rest.tail
            else .ok ⟨[], [], found.rest⟩) := by
        split
        · next hand =>
          have htail : found.rest.tail <:+ all :=
            (List.tail_suffix _).trans (hwithin.2.trans hts)
          have hnext := ih _ (hlength ▸ length_behind_and hfound hand) htail rfl
          exact hnext.weaken fun later h => ⟨h.1, h.2.trans (List.tail_suffix _)⟩
        · exact ⟨.nil, List.suffix_rfl⟩
      exact hlater.map fun later h => ⟨hwithin.1.append h.1, h.2.trans hwithin.2⟩

theorem ensures_filterClause (hall : Laid text.length 0 all) (hts : ts <:+ all) :
    Ensures (fun d => Quotes text all d.fragment) (SettledWithin text all ts) (filterClause mode text ts) := by
  unfold filterClause
  split
  · have hlist : Ensures _ _ (conditionList mode text ts.tail) :=
      ensures_conditionList hall ((List.tail_suffix ts).trans hts)
    exact hlist.weaken fun found h => ⟨h.1, h.2.trans (List.tail_suffix ts)⟩
  · exact ⟨.nil, List.suffix_rfl⟩

theorem ensures_tailClauses (hall : Laid text.length 0 all) (hts : ts <:+ all) (last : Nat) (q : Query) :
    Ensures (fun d => Quotes text all d.fragment) (fun p => AllQuote text all p.diagnostics)
      (tailClauses mode text last q ts) := by
  induction hlength : ts.length using Nat.strongRecOn generalizing last q ts with
  | ind n ih =>
    by_cases hne : ts = []
    · subst hne
      rw [tailClauses]
      exact .nil
    · rw [tailClauses_eq mode text last q hne]
      refine (ensures_settle hall (forward_rankedClause _ _ _) hts).bind fun found _ hwithin => ?_
      have hbehind : behindClause found ts <:+ all := (behindClause_suffix hwithin.2).trans hts
      have hlater := ih _ (hlength ▸ length_behindClause found hne) hbehind
        (max last (clauseRank ts)) (found.value.elim q q.apply) rfl
      exact hlater.map fun later h => hwithin.1.append h

theorem ensures_clauses (hall : Laid text.length 0 all) :
    Ensures (fun d => Quotes text all d.fragment) (fun p => AllQuote text all p.diagnostics)
      (clauses mode text all) := by
  rw [clauses_eq]
  refine (ensures_settle hall forward_selectClause List.suffix_rfl).bind fun selected _ hselected => ?_
  refine Ensures.map ?_ fun p h => hselected.1.append h
  refine (ensures_settle hall (forward_sourceClause mode) hselected.2).bind fun source _ hsource => ?_
  have hsourceRest := hsource.2.trans hselected.2
  refine Ensures.map ?_ fun p h => hsource.1.append h
  refine (ensures_filterClause hall hsourceRest).bind fun filter _ hfilter => ?_
  exact (ensures_tailClauses hall (hfilter.2.trans hsourceRest) 0 _).map fun p h => hfilter.1.append h

end Parts

/-! ## Whole texts -/

/-- The report on an open quote shows the last lexeme. -/
theorem quotes_openQuote (text : List Char) :
    AllQuote text (lex text).lexemes (openQuoteReports text (lex text)) := by
  intro d hd
  obtain ⟨place, hplace, rfl⟩ := List.mem_map.1 hd
  obtain ⟨before, last, hlexemes, hstart, hstop⟩ := last_of_openQuote (Option.mem_toList.1 hplace)
  have hlaid := laid_lex text
  have hlast : (lex text).lexemes[before.length]? = some last := by
    rw [lex, hlexemes, List.getElem?_concat_length]
  have hquote := quote?_eq_some hlaid (Nat.le_refl before.length) hlast hlast
  rw [hstart, hstop, Nat.zero_add] at hquote
  exact .inr ⟨before.length, before.length, Nat.le_refl _, hquote⟩

theorem ensures_parseIn (mode : Mode) (source : String) :
    Ensures (fun d => Quotes (trimmed source) (lex (trimmed source)).lexemes d.fragment)
      (fun p => AllQuote (trimmed source) (lex (trimmed source)).lexemes p.diagnostics)
      (parseIn mode source) := by
  have hopen := quotes_openQuote (trimmed source)
  have hlaid := laid_lex (trimmed source)
  by_cases hread : mode = .strict → openQuoteReports (trimmed source) (lex (trimmed source)) = []
  · rw [parseIn_eq hread]
    refine Ensures.map ?_ fun p h => hopen.append h
    unfold parseLexemes
    split
    · exact (ensures_reportHere hlaid List.nil_suffix _).map fun reports h => h
    · exact ensures_clauses hlaid
  · -- a strict reading ends at an open quote
    obtain ⟨rfl, hquotes⟩ := Classical.not_imp.1 hread
    obtain ⟨found, later, hreports⟩ := List.exists_cons_of_ne_nil hquotes
    rw [parseIn_strict_of_open hreports]
    rw [hreports] at hopen
    exact hopen found List.mem_cons_self

theorem parseIn_lenient (source : String) : parseIn .lenient source = .ok (parse source) := by
  obtain ⟨p, hp⟩ := (parseIn_agrees source).lenient_ok
  rw [parse, hp]

/-- Whatever a text is, a lenient reading of it ends with a query. Between any two places of a reading the text can
be shown without looking for a lexeme or a character where there is none. And what the reports of a lenient reading
and the fault of a strict one show is a part of the text, from the start of one lexeme to the stop of the same or a
later one, unless they say that the end of the query is reached. -/
theorem parse_within_text (source : String) :
    parseIn .lenient source = .ok (parse source) ∧
      (∀ start rest, start <:+ (lex (trimmed source)).lexemes → start ≠ [] → rest <:+ start →
        quote? (trimmed source) (lex (trimmed source)).lexemes (place (lex (trimmed source)).lexemes start)
            (max (place (lex (trimmed source)).lexemes start) (place (lex (trimmed source)).lexemes rest - 1)) =
          some (fragment (trimmed source) start rest)) ∧
      (∀ d ∈ (parse source).diagnostics,
        Quotes (trimmed source) (lex (trimmed source)).lexemes d.fragment) ∧
      (∀ d, parseStrict source = .error d →
        Quotes (trimmed source) (lex (trimmed source)).lexemes d.fragment) := by
  refine ⟨parseIn_lenient source, ?_, ?_, ?_⟩
  · intro start rest hstart hne hrest
    exact quote?_fragment (laid_lex _) hstart hne hrest
  · have hlenient := ensures_parseIn .lenient source
    rw [parseIn_lenient] at hlenient
    exact hlenient
  · intro d hd
    have hstrict := ensures_parseIn .strict source
    rw [parseStrict_eq_error.1 hd] at hstrict
    exact hstrict

end EvidenceGraph.Query
