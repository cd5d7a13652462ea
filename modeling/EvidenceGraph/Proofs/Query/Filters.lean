/-
# `EvidenceGraph.Proofs.Query.Filters` — whether a filter survives what stands before it.

Damaged fields and a damaged source stand before the canonical text of a filter and of the clauses behind it. A filter
that is not swallowed is read as it is (`clauses_behind_damage`); if it is swallowed, its keyword is lost and at least
the first condition with it (`clauses_behind_swallowed`). The clauses behind the conditions are read in any case, as
whatever is left over before them is passed (`tailClauses_passed`). Main statement: `filter_kept_iff`.
-/
import EvidenceGraph.Proofs.Query.Pieces
import EvidenceGraph.Proofs.Query.RoundTrip
import EvidenceGraph.Proofs.Query.Tails
import EvidenceGraph.Proofs.Query.Within

namespace EvidenceGraph.Query

open EvidenceGraph.Text Grammar

section Lexemes

variable {text : List Char} {junk ps chain rest ls : List Lexeme} {w : Lexeme} {cs : List Condition}
  {tail : List TailClause}

theorem clauses_atTail (h : Clauses (tokens rest) tail) : AtTail rest :=
  tail_atTail ((tail_lenient_iff : Tail .lenient 0 (tokens rest) tail ↔ _).2 h)

/-- Balanced lexemes in which no clause starts are passed, and then the clauses are taken over. -/
theorem tailClauses_passed (text : List Char) (last : Nat) (q : Query) (hbalanced : depthBehind 0 (tokens junk) = 0)
    (hclause : NoClause junk rest) (htail : Clauses (tokens rest) tail) :
    ∃ reports, tailClauses .lenient text last q (junk ++ rest) = .ok ⟨tail.foldl apply q, reports⟩ := by
  have hread (last : Nat) : tailClauses .lenient text last q rest = .ok ⟨tail.foldl apply q, []⟩ :=
    complete_tailClauses (tail_lenient_iff.2 htail)
  cases junk with
  | nil => exact ⟨[], hread last⟩
  | cons t junk =>
    obtain ⟨fault, gap, hmiss, hgap⟩ := tailClause_miss hclause.1
    obtain ⟨left, hsuffix, rfl⟩ : ∃ left, left <:+ t :: junk ∧ gap = left ++ rest := by
      rcases hgap with rfl | rfl
      · exact ⟨t :: junk, List.suffix_rfl, rfl⟩
      · exact ⟨junk, List.suffix_cons t junk, rfl⟩
    have hstops : ∀ u ∈ left, ∀ k ∈ ([] : List Keyword), u.token.isKeyword k = false :=
      fun _ _ _ hk => absurd hk List.not_mem_nil
    have hskip : skip [] 0 (left ++ rest) = rest := by
      rw [skip_clear (balanced_suffix hbalanced hsuffix) (hclause.suffix hsuffix) hstops,
        skip_atTail (clauses_atTail htail)]
    have hshort : (skip [] 0 (left ++ rest)).length < (t :: junk ++ rest).length := by
      rw [hskip, List.length_append, List.length_cons]
      omega
    have hpassed := tailClauses_miss text last q hmiss hshort
    rw [hskip, hread] at hpassed
    exact ⟨_, hpassed⟩

/-- Behind the fields and the source there are the filter and the clauses behind it to read. -/
theorem clauses_reached {start : List Lexeme} {kept : List Condition} {reports : List Diagnostic}
    (hreach : Reaches text ls start)
    (hfilter : filterClause .lenient text start = .ok ⟨kept, reports, junk ++ rest⟩)
    (hbalanced : depthBehind 0 (tokens junk) = 0) (hclause : NoClause junk rest) (htail : Clauses (tokens rest) tail) :
    ∃ fields reports, clauses .lenient text ls = .ok ⟨ofClauses fields kept tail, reports⟩ := by
  obtain ⟨selected, sourced, hselect, hsource, rfl⟩ := hreach
  obtain ⟨more, hread⟩ := tailClauses_passed text 0
    { select := selected.value.getD ["*"], conditions := kept } hbalanced hclause htail
  rw [foldl_apply] at hread
  rw [clauses_eq, hselect]
  show ∃ fields reports, Except.map _ (settle .lenient text [.filter] (sourceClause .lenient) selected.rest >>= _) = _
  rw [hsource]
  show ∃ fields reports, Except.map _ (Except.map _ (filterClause .lenient text sourced.rest >>= _)) = _
  rw [hfilter]
  show ∃ fields reports, Except.map _ (Except.map _ (Except.map _
    (tailClauses .lenient text 0 { select := selected.value.getD ["*"], conditions := kept } (junk ++ rest)))) = _
  rw [hread]
  exact ⟨_, _, rfl⟩

theorem PrintedConditions.noComma (h : PrintedConditions (tokens chain) cs) (rest : List Lexeme) :
    NoComma (chain ++ rest) := by
  obtain ⟨first, behind, c, later, rfl, -, hc, -⟩ := h.cases
  obtain ⟨f, o, more, rfl, ⟨word, hf⟩, -⟩ := hc.lexemes
  rintro t ⟨⟩
  rw [hf]
  nofun

section Behind

variable (hstray : ∀ t ∈ ps, t.token.Stray) (hw : w.token.isKeyword .filter)
  (hchain : PrintedConditions (tokens chain) cs) (htail : Clauses (tokens rest) tail)

include hstray hw hchain htail

/-- A filter that is not swallowed is read as it is. -/
theorem clauses_behind_damage (h : ¬ Swallows (tokens ps)) :
    ∃ fields reports,
      clauses .lenient text (ps ++ w :: (chain ++ rest)) = .ok ⟨ofClauses fields cs tail, reports⟩ := by
  have hfilter : atKeyword .filter (w :: (chain ++ rest)) := hw
  have hread : filterClause .lenient text (w :: (chain ++ rest)) = .ok ⟨cs, [], [] ++ rest⟩ := by
    rw [filterClause, if_pos hfilter]
    exact complete_conditionList hchain.conjunction (clauses_atTail htail)
  have hnothing : NoClause [] rest := trivial
  exact clauses_reached (reaches_filter hw hstray h) hread (depthBehind_nil 0) hnothing htail

/-- If it is swallowed, reading goes on within the conditions or before `WHERE`, and at least the first condition is
lost. -/
theorem clauses_behind_swallowed (h : Swallows (tokens ps)) :
    ∃ fields kept reports, kept <:+ cs.tail ∧
      clauses .lenient text (ps ++ w :: (chain ++ rest)) = .ok ⟨ofClauses fields kept tail, reports⟩ := by
  have hrest : AtTail rest := clauses_atTail htail
  have hwithin {s : List Lexeme} (hs : s <:+ chain) (hreach : Reaches text (ps ++ w :: (chain ++ rest)) (s ++ rest)) :
      ∃ fields kept reports, kept <:+ cs.tail ∧
        clauses .lenient text (ps ++ w :: (chain ++ rest)) = .ok ⟨ofClauses fields kept tail, reports⟩ := by
    obtain ⟨kept, reports, junk, hkept, hjunk, hfilter⟩ := filterClause_within text hchain hrest hs
    obtain ⟨fields, reports, hclauses⟩ := clauses_reached hreach hfilter
      (balanced_suffix (hchain.balanced 0) hjunk) ((hchain.noClause rest).suffix hjunk) htail
    exact ⟨fields, kept, reports, hkept, hclauses⟩
  rcases reaches_of_swallows hw hstray (hchain.noComma rest) h with
    ⟨fields, hselect⟩ | hreach | ⟨t, us, hsuffix, hreach⟩
  · obtain ⟨sourced, s, hsource, hleft, hs⟩ := source_within text hchain hrest
    exact hwithin hs ⟨_, sourced, hselect, hsource, hleft⟩
  · exact hwithin List.suffix_rfl hreach
  · -- no filter is looked for behind the words that are left over, and they are passed with it
    have hleft : ∀ u ∈ t :: us, u.token.Stray := fun u hu => hstray u (hsuffix.mem hu)
    have hno : ¬ atKeyword .filter (t :: us ++ w :: (chain ++ rest)) :=
      Bool.eq_false_iff.1 ((hleft t List.mem_cons_self).not_keyword .filter List.mem_cons_self)
    have hfilter : filterClause .lenient text (t :: us ++ w :: (chain ++ rest)) =
        .ok ⟨[], [], t :: us ++ w :: chain ++ rest⟩ := by
      rw [filterClause, if_neg hno, List.append_assoc]
      rfl
    have hbalanced : depthBehind 0 (tokens (t :: us ++ w :: chain)) = 0 := by
      have hflat : ∀ u ∈ tokens (t :: us), u.Flat := forall_mem_tokens.2 fun u hu => (hleft u hu).flat
      obtain ⟨word, hword, -⟩ := isKeyword_iff.1 hw
      rw [tokens_append, depthBehind_append, depthBehind_flat hflat, tokens_cons, depthBehind_cons, hword]
      exact hchain.balanced 0
    have hclause : NoClause (t :: us ++ w :: chain) rest := by
      refine noClause_append.2 ⟨noClause_of_words (fun u hu k hk => ?_) _,
        not_atTailClause_of_keyword (by decide) hw _, hchain.noClause rest⟩
      exact (hleft u hu).not_keyword k (List.mem_cons_of_mem _ hk)
    obtain ⟨fields, reports, hclauses⟩ := clauses_reached hreach hfilter hbalanced hclause htail
    exact ⟨fields, [], reports, List.nil_suffix, hclauses⟩

end Behind

end Lexemes

/-! ## Texts -/

/-- Blanks that are trimmed before a text have no tokens. -/
theorem Spells.trimmed {cs : List Char} {ts : List Token} (h : Spells cs ts) (hsolid : Solid cs) :
    Spells (trimmed (String.ofList cs)) ts := by
  rw [trimmed_ofList hsolid]
  rw [← @List.takeWhile_append_dropWhile _ isBlank cs] at h
  exact h.behind_blanks (List.all_eq_true.1 List.all_takeWhile)

theorem PrintedFilter.present_of_ne_nil {ts : List Token} {cs : List Condition} (h : PrintedFilter ts cs)
    (hne : cs ≠ []) : ∃ us, ts = .word Keyword.filter.spelling :: us ∧ PrintedConditions us cs := by
  cases h with
  | absent => exact absurd rfl hne
  | present hconditions => exact ⟨_, rfl, hconditions⟩

/-- The clauses behind the conditions of a query, and what they make of it. -/
theorem exists_page {q : Query} {ts us vs : List Token} (horder : OrderBy ts q.orderBy q.order)
    (hlimit : Limit us q.limit) (hoffset : Offset vs q.offset) :
    ∃ cs, Clauses (ts ++ us ++ vs) cs ∧
      ∀ fields conditions, ofClauses fields conditions cs = { q with select := fields, conditions } := by
  have hpage : ∃ cs, Tail .strict 0 (ts ++ us ++ vs) cs ∧
      { q with select := ["*"], conditions := [] } = cs.foldl apply { conditions := [] } :=
    tail_behind_conditions.2 ⟨ts, us, vs, _, _, _, _, rfl, horder, hlimit, hoffset, rfl⟩
  obtain ⟨cs, hcs, hq⟩ := hpage
  rw [foldl_apply] at hq
  refine ⟨cs, clauses_of_tail hcs, fun fields conditions => ?_⟩
  calc ofClauses fields conditions cs
      = { ofClauses ["*"] [] cs with select := fields, conditions } := rfl
    _ = { q with select := fields, conditions } := by rw [← hq]

/-- Behind the damage there are the lexemes of `WHERE`, of the conditions and of the clauses behind them. -/
theorem lex_behind_damage {q : Query} (h : q.WellFormed) (hne : q.conditions ≠ []) {damaged : List Char}
    {ps : List Token} (hspells : Spells damaged ps) :
    ∃ front w chain rest tail,
      lex (trimmed (String.ofList (damaged ++ q.writeBehindSource))) = ⟨front ++ w :: (chain ++ rest), none⟩ ∧
        tokens front = ps ∧ w.token.isKeyword .filter ∧ PrintedConditions (tokens chain) q.conditions ∧
        Clauses (tokens rest) tail ∧
        ∀ fields conditions, ofClauses fields conditions tail = { q with select := fields, conditions } := by
  obtain ⟨hshaped, hreread⟩ := wellFormed_iff.1 h
  obtain ⟨-, filter, ordering, limit, offset, hchunk, hfilter, horder, hlimit, hoffset⟩ :=
    chunk_behindSource hshaped
  rw [hreread] at hfilter
  obtain ⟨chain, rfl, hchain⟩ := hfilter.present_of_ne_nil hne
  obtain ⟨tail, htail, hpage⟩ := exists_page horder hlimit hoffset
  have hbehind : writeConditions q.conditions ≠ [] ∧ BlankFirst q.writeBehindSource := by
    obtain ⟨c, cs, hcs⟩ := List.exists_cons_of_ne_nil hne
    rw [writeBehindSource, hcs]
    refine ⟨List.cons_ne_nil _ _, ?_⟩
    rintro d ⟨⟩
    decide
  have hsolid : Solid (damaged ++ q.writeBehindSource) :=
    (((solid_conditions hshaped.conditions).resolve_left hbehind.1).before_page q).behind damaged
  obtain ⟨hclosed, htokens⟩ := (hspells.append hbehind.2 hchunk.spells).trimmed hsolid 0
  simp only [List.append_assoc, List.cons_append] at htokens
  rw [← List.append_assoc ordering] at htokens
  obtain ⟨front, ms, hlexemes, rfl, hms⟩ := tokens_eq_append.1 htokens
  obtain ⟨w, ns, rfl, hw, hns⟩ := tokens_eq_cons.1 hms
  obtain ⟨chain, rest, rfl, rfl, hrest⟩ := tokens_eq_append.1 hns
  rw [← hrest] at htail
  exact ⟨front, w, chain, rest, tail, lexed_eq hlexemes hclosed, rfl, hw ▸ isKeyword_spelling .filter, hchain,
    htail, hpage⟩

/-- Let a text consist of words and commas, no keyword behind the source among them, and of the canonical text of a
query from its conditions on, of which there is at least one. Then order, limit and offset are those of the query. So
are the conditions exactly if `WHERE` is not swallowed, and if it is, the first one at least is lost. -/
theorem filter_kept_iff {q : Query} (h : q.WellFormed) (hne : q.conditions ≠ []) {damaged : List Char}
    {ps : List Token} (hspells : Spells damaged ps) (hstray : ∀ t ∈ ps, t.Stray) :
    ∃ fields kept, (parse (String.ofList (damaged ++ q.writeBehindSource))).query =
        { q with select := fields, conditions := kept } ∧
      (kept = q.conditions ↔ ¬ Swallows ps) ∧ (Swallows ps → kept <:+ q.conditions.tail) := by
  obtain ⟨front, w, chain, rest, tail, hlex, rfl, hw, hchain, htail, hpage⟩ := lex_behind_damage h hne hspells
  have hfront : ∀ t ∈ front, t.token.Stray := forall_mem_tokens.1 hstray
  by_cases hswallows : Swallows (tokens front)
  · obtain ⟨fields, kept, reports, hkept, hread⟩ := clauses_behind_swallowed hfront hw hchain htail hswallows
    have hlost : kept ≠ q.conditions := by
      rintro rfl
      have hlength := hkept.length_le
      rw [List.length_tail] at hlength
      have hpos := List.length_pos_iff.2 hne
      omega
    refine ⟨fields, kept, ?_, ⟨fun heq => absurd heq hlost, absurd hswallows⟩, fun _ => hkept⟩
    rw [parse_of_clauses hlex (by simp) hread]
    exact hpage fields kept
  · obtain ⟨fields, reports, hread⟩ := clauses_behind_damage hfront hw hchain htail hswallows
    refine ⟨fields, q.conditions, ?_, ⟨fun _ => hswallows, fun _ => rfl⟩, fun hyes => absurd hyes hswallows⟩
    rw [parse_of_clauses hlex (by simp) hread]
    exact hpage fields q.conditions

/-- The text behind the fields leads recovery past `FROM` and what is wrong behind it. -/
theorem filter_kept_behind_overfull :
    let source := "SELECT a b FROM evidence extra WHERE c CONTAINS 'd' ORDER BY e DESC LIMIT 2"
    ∃ fields, (parse source).query =
      { select := fields, conditions := [⟨"c", .contains, .text "d"⟩], orderBy := some "e", order := .descending,
        limit := some 2 } := by
  have hword {w : String} (h : w.toList ≠ [] ∧ w.toList.all isWordChar) : BareWord w :=
    bareWord_iff.2 (.inr h)
  let q : Query :=
    { conditions := [⟨"c", .contains, .text "d"⟩], orderBy := some "e", order := .descending, limit := some 2 }
  have hq : q.WellFormed := by
    refine ⟨by decide, ?_, ?_, ?_, nofun⟩
    · intro w hw
      rw [List.mem_singleton.1 hw]
      exact ⟨hword (by decide), by decide⟩
    · intro c hc
      rw [List.mem_singleton.1 hc]
      exact .contains _ (hword (by decide)) (by decide)
    · intro w hw
      cases hw
      exact ⟨hword (by decide), by decide⟩
  have hstray {w : String} (h : ∀ k ∈ Keyword.filter :: clauseKeywords, (Token.word w).isKeyword k = false) :
      (Token.word w).Stray := ⟨.inr ⟨w, rfl⟩, h⟩
  have hfull : Overfull [.word "SELECT", .word "a", .word "b"] :=
    .mk (by decide) (.last (.word (by decide))) nofun
  have hspells : Spells "SELECT a b FROM evidence extra".toList
      ([.word "SELECT", .word "a", .word "b"] ++ .word "FROM" :: [.word "evidence", .word "extra"]) := by
    have hclosed : (lex "SELECT a b FROM evidence extra".toList).openQuote = none := by decide +kernel
    have htokens : tokens (lex "SELECT a b FROM evidence extra".toList).lexemes =
        [.word "SELECT", .word "a", .word "b"] ++ .word "FROM" :: [.word "evidence", .word "extra"] := by
      decide +kernel
    exact htokens ▸ spells_lex hclosed
  have hwords : ∀ t ∈ [.word "SELECT", .word "a", .word "b"] ++
      Token.word "FROM" :: [.word "evidence", .word "extra"], t.Stray := by
    simp only [List.cons_append, List.nil_append, List.forall_mem_cons]
    exact ⟨hstray (by decide), hstray (by decide), hstray (by decide), hstray (by decide), hstray (by decide),
      hstray (by decide), nofun⟩
  have hsource : String.ofList ("SELECT a b FROM evidence extra".toList ++ q.writeBehindSource) =
      "SELECT a b FROM evidence extra WHERE c CONTAINS 'd' ORDER BY e DESC LIMIT 2" := by decide +kernel
  obtain ⟨fields, kept, hparsed, hkept, -⟩ := filter_kept_iff hq (List.cons_ne_nil _ _) hspells hwords
  rw [hkept.2 (hfull.not_swallows (by decide) (by decide)), hsource] at hparsed
  exact ⟨fields, hparsed⟩

/-- Behind one field a source is read, and the text behind the source takes the filter with it. -/
theorem filter_swallowed_behind_source :
    (parse "SELECT * FROM evidence extra WHERE a = 1").query.conditions = [] ∧
      (parse "SELECT * FROM evidence extra WHERE a = 1").diagnostics.map Diagnostic.fragment =
        ["extra WHERE a = 1"] :=
  ⟨List.isEmpty_iff.1 (by decide +kernel), by decide +kernel⟩

end EvidenceGraph.Query
