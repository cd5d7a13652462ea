/-
# `EvidenceGraph.Proofs.Query.Tails` — a bad clause never harms a good one.

Behind the conditions a lenient reading takes one clause after the other. A clause that cannot be read fails at
the token behind its keyword at the latest, and skipping goes on to a place where a clause may start. What may
stand there is cut into segments: clauses, and words and junk that are none. Skipping may pass several bad
segments at once, and it may stop at one of them, but it always stops where a segment starts and never passes a
clause (`skip_segments`). So by induction on the lexemes every clause is taken over, and each bad segment is
passed under some report (`tailClauses_segments`).
-/
import EvidenceGraph.Proofs.Query.Lenient
import EvidenceGraph.Proofs.Query.Silence

namespace EvidenceGraph.Query

open EvidenceGraph.Text Grammar

/-! ## What is no clause -/

/-- Where no clause is looked for there is none. -/
theorem tailClause_other {t : Lexeme} (h : ∀ k ∈ clauseKeywords, t.token.isKeyword k = false)
    (rest : List Lexeme) :
    tailClause (clauseRank (t :: rest)) (t :: rest) = .error ⟨.unexpectedText, t :: rest⟩ := by
  have horder : atKeyword .order (t :: rest) = false := h .order (by decide)
  have hlimit : atKeyword .limit (t :: rest) = false := h .limit (by decide)
  have hoffset : atKeyword .offset (t :: rest) = false := h .offset (by decide)
  have hrank : clauseRank (t :: rest) = 0 := by simp [clauseRank, horder, hlimit, hoffset]
  rw [hrank]
  rfl

theorem countClause_miss {k : Keyword} (make : UInt64 → TailClause) {t : Lexeme} {rest : List Lexeme}
    (ht : t.token.isKeyword k) (hrest : ∀ u ∈ rest.head?, count? u.token = none) :
    countClause k make (t :: rest) = .error ⟨.missingCount k, rest⟩ := by
  show (Reader.keyword k >>= _) (t :: rest) = _
  rw [Reader.bind_of_ok (Reader.keyword_cons ht rest)]
  exact Reader.bind_of_error (Reader.item_miss hrest)

/-- The keyword of a clause alone fails at what follows it. -/
theorem tailClause_keyword {k : Keyword} (hk : k ∈ clauseKeywords) {t : Lexeme} {rest : List Lexeme}
    (ht : t.token.isKeyword k) (hby : k = .order → atKeyword .by rest = false)
    (hcount : k ≠ .order → ∀ u ∈ rest.head?, count? u.token = none) :
    ∃ fault, tailClause (clauseRank (t :: rest)) (t :: rest) = .error ⟨fault, rest⟩ := by
  simp only [clauseKeywords, List.mem_cons, List.not_mem_nil, or_false] at hk
  rcases hk with rfl | rfl | rfl
  · rw [(clauseRank_of_keyword rest).1 ht]
    refine ⟨.missingKeyword .by, ?_⟩
    show (Reader.keyword .order >>= _) (t :: rest) = _
    rw [Reader.bind_of_ok (Reader.keyword_cons ht rest), Reader.bind_of_error (Reader.keyword_miss (hby rfl))]
  · rw [(clauseRank_of_keyword rest).2.1 ht]
    exact ⟨_, countClause_miss .limit ht (hcount nofun)⟩
  · rw [(clauseRank_of_keyword rest).2.2 ht]
    exact ⟨_, countClause_miss .offset ht (hcount nofun)⟩

/-- Where no clause starts, reading of one fails there or behind its keyword. -/
theorem tailClause_miss {t : Lexeme} {rest : List Lexeme} (h : atTailClause (t :: rest) = false) :
    ∃ fault gap, tailClause (clauseRank (t :: rest)) (t :: rest) = .error ⟨fault, gap⟩ ∧
      (gap = t :: rest ∨ gap = rest) := by
  by_cases hkeyword : ∃ k ∈ clauseKeywords, t.token.isKeyword k
  · obtain ⟨k, hk, ht⟩ := hkeyword
    have hby : k = .order → atKeyword .by rest = false := by
      rintro rfl
      refine Bool.eq_false_iff.2 fun hby => ?_
      obtain ⟨b, more, rfl, hb⟩ := atKeyword_iff.1 hby
      rw [atTailClause_order more ht hb] at h
      cases h
    have hcount : k ≠ .order → ∀ u ∈ rest.head?, count? u.token = none := by
      intro hne u hu
      obtain ⟨more, rfl⟩ : ∃ more, rest = u :: more := List.head?_eq_some_iff.1 hu
      refine Option.eq_none_iff_forall_ne_some.2 fun n hn => ?_
      have hpage : t.token.isKeyword .limit ∨ t.token.isKeyword .offset := by
        simp only [clauseKeywords, List.mem_cons, List.not_mem_nil, or_false] at hk
        rcases hk with rfl | rfl | rfl
        · exact absurd rfl hne
        · exact .inl ht
        · exact .inr ht
      rw [atTailClause_count more hpage ((accepts_count _ _).1 hn)] at h
      cases h
    obtain ⟨fault, hmiss⟩ := tailClause_keyword hk ht hby hcount
    exact ⟨fault, rest, hmiss, .inr rfl⟩
  · have hnone : ∀ k ∈ clauseKeywords, t.token.isKeyword k = false :=
      fun k hk => Bool.eq_false_iff.2 fun ht => hkeyword ⟨k, hk, ht⟩
    exact ⟨_, t :: rest, tailClause_other hnone rest, .inl rfl⟩

/-! ## Segments -/

/-- A token that does not go on with what was begun before it: it is no count, it continues no order, and it opens
no filter. -/
structure Token.Fresh (t : Token) : Prop where
  not_count : count? t = none
  not_keyword : ∀ k ∈ [Keyword.filter, .by, .asc, .desc], t.isKeyword k = false

/-- Nothing, or a fresh token and what follows it. -/
def Fresh (ts : List Lexeme) : Prop := ∀ t ∈ ts.head?, t.token.Fresh

theorem Fresh.not_keyword {ts : List Lexeme} (h : Fresh ts) :
    ∀ k ∈ [Keyword.filter, .by, .asc, .desc], atKeyword k ts = false := by
  intro k hk
  cases ts with
  | nil => rfl
  | cons t rest => exact (h t rfl).not_keyword k hk

theorem Fresh.noDirection {ts : List Lexeme} (h : Fresh ts) : NoDirection ts :=
  ⟨Bool.eq_false_iff.1 (h.not_keyword .desc (by decide)), Bool.eq_false_iff.1 (h.not_keyword .asc (by decide))⟩

/-- So the keyword of a clause alone fails before it. -/
theorem Fresh.miss {k : Keyword} (hk : k ∈ clauseKeywords) {t : Lexeme} {rest : List Lexeme}
    (ht : t.token.isKeyword k) (h : Fresh rest) :
    ∃ fault, tailClause (clauseRank (t :: rest)) (t :: rest) = .error ⟨fault, rest⟩ :=
  tailClause_keyword hk ht (fun _ => h.not_keyword .by (by decide)) fun _ u hu => (h u hu).not_count

/-- Tokens that have nothing of a clause in them: no parenthesis, no keyword that structures a query, and no
count at their front. -/
structure Junk (ts : List Token) : Prop where
  ne_nil : ts ≠ []
  flat : ∀ t ∈ ts, t.Flat
  not_keyword : ∀ t ∈ ts, ∀ k ∈ Keyword.structural, t.isKeyword k = false
  not_count : ∀ t ∈ ts.head?, count? t = none

theorem junk_iff {ts : List Token} :
    Junk ts ↔ ts ≠ [] ∧ (∀ t ∈ ts, t.Flat) ∧
      (∀ t ∈ ts, ∀ k ∈ Keyword.structural, t.isKeyword k = false) ∧ ∀ t ∈ ts.head?, count? t = none :=
  ⟨fun h => ⟨h.ne_nil, h.flat, h.not_keyword, h.not_count⟩,
    fun ⟨hne, hflat, hwords, hcount⟩ => ⟨hne, hflat, hwords, hcount⟩⟩

instance (ts : List Token) : Decidable (Junk ts) := decidable_of_iff' _ junk_iff

/-- A clause, or tokens that are none: the keyword of a clause alone, such a keyword and junk behind it, or junk
without a keyword. -/
inductive TailSegment : List Token → Option TailClause → Prop
  | clause {ts : List Token} {c : TailClause} : Clause ts c → TailSegment ts (some c)
  | lone {k : Keyword} {t : Token} : k ∈ clauseKeywords → t.isKeyword k → TailSegment [t] none
  | spoiled {k : Keyword} {t : Token} {ts : List Token} :
      k ∈ clauseKeywords → t.isKeyword k → Junk ts → TailSegment (t :: ts) none
  | junk {ts : List Token} : Junk ts → TailSegment ts none

/-- Segments in sequence. -/
inductive TailSegments : List Token → List (Option TailClause) → Prop
  | nil : TailSegments [] []
  | cons {ts us : List Token} {c : Option TailClause} {cs : List (Option TailClause)} :
      TailSegment ts c → TailSegments us cs → TailSegments (ts ++ us) (c :: cs)

theorem tailSegment_some {ts : List Token} {c : TailClause} : TailSegment ts (some c) ↔ Clause ts c := by
  constructor
  · rintro (h | _ | _ | _)
    exact h
  · exact .clause

theorem fresh_of_keyword {k : Keyword} (hk : k ∈ clauseKeywords) {t : Token} (ht : t.isKeyword k) : t.Fresh := by
  obtain ⟨w, rfl, hw⟩ := isKeyword_iff.1 ht
  constructor
  · cases hcount : count? (.word w) with
    | none => rfl
    | some n =>
      rw [not_isSpelled_of_count hcount] at hw
      cases hw
  · intro k' hk'
    refine Bool.eq_false_iff.2 (not_isKeyword ht ?_)
    rintro rfl
    revert hk hk'
    cases k <;> decide

theorem Junk.fresh {ts : List Token} (h : Junk ts) : ∀ t ∈ ts.head?, t.Fresh := by
  intro t ht
  have hmem : t ∈ ts := List.mem_of_mem_head? ht
  refine ⟨h.not_count t ht, fun k hk => h.not_keyword t hmem k ?_⟩
  revert k
  decide

/-- A segment has a first token, and it is a fresh one. -/
theorem TailSegment.first {ts : List Token} {c : Option TailClause} (h : TailSegment ts c) :
    ∃ t us, ts = t :: us ∧ t.Fresh := by
  cases h with
  | clause hclause =>
    cases hclause with
    | order horder =>
      cases horder with
      | plain ho _ _ | ascending ho _ _ _ | descending ho _ _ _ =>
        exact ⟨_, _, rfl, fresh_of_keyword (by decide) ho⟩
    | limit hl _ => exact ⟨_, _, rfl, fresh_of_keyword (k := .limit) (by decide) hl⟩
    | offset ho _ => exact ⟨_, _, rfl, fresh_of_keyword (k := .offset) (by decide) ho⟩
  | lone hk ht => exact ⟨_, _, rfl, fresh_of_keyword hk ht⟩
  | spoiled hk ht _ => exact ⟨_, _, rfl, fresh_of_keyword hk ht⟩
  | junk hjunk =>
    obtain ⟨t, us, rfl⟩ := List.exists_cons_of_ne_nil hjunk.ne_nil
    exact ⟨t, us, rfl, hjunk.fresh t rfl⟩

section Lexemes

variable {ts seg rest : List Lexeme} {c : Option TailClause} {cs later : List (Option TailClause)}

theorem TailSegment.ne_nil (h : TailSegment (tokens seg) c) : seg ≠ [] := by
  rintro rfl
  obtain ⟨t, us, hnil, -⟩ := h.first
  cases hnil

theorem TailSegment.fresh (h : TailSegment (tokens seg) c) (rest : List Lexeme) : Fresh (seg ++ rest) := by
  obtain ⟨t, us, hseg, ht⟩ := h.first
  obtain ⟨l, ls, rfl, rfl, -⟩ := tokens_eq_cons.1 hseg
  rintro u ⟨⟩
  exact ht

/-- Nothing is left of the segments, or there is a first one. -/
theorem TailSegments.cases (h : TailSegments (tokens ts) cs) :
    (ts = [] ∧ cs = []) ∨ ∃ seg rest c later, ts = seg ++ rest ∧ cs = c :: later ∧
      TailSegment (tokens seg) c ∧ TailSegments (tokens rest) later := by
  generalize htokens : tokens ts = us at h
  cases h with
  | nil => exact .inl ⟨tokens_eq_nil.1 htokens, rfl⟩
  | cons hseg hlater =>
    obtain ⟨seg, rest, rfl, rfl, rfl⟩ := tokens_eq_append.1 htokens
    exact .inr ⟨seg, rest, _, _, rfl, rfl, hseg, hlater⟩

theorem TailSegments.fresh (h : TailSegments (tokens ts) cs) : Fresh ts := by
  rcases h.cases with ⟨rfl, -⟩ | ⟨seg, rest, c, later, rfl, -, hseg, -⟩
  · nofun
  · exact hseg.fresh rest

/-! ## Skipping segments -/

theorem skip_junk (h : Junk (tokens seg)) (rest : List Lexeme) : skip [] 0 (seg ++ rest) = skip [] 0 rest := by
  refine skip_flat (forall_mem_tokens.1 h.flat) (fun t ht k hk => ?_) rest
  refine forall_mem_tokens.1 h.not_keyword t ht k ?_
  revert k
  decide

/-- The keyword of a clause is a stop or is passed. -/
theorem skip_keyword_cases {k : Keyword} {t : Lexeme} (ht : t.token.isKeyword k) (rest : List Lexeme) :
    skip [] 0 (t :: rest) = t :: rest ∨ skip [] 0 (t :: rest) = skip [] 0 rest := by
  by_cases hstop : atTailClause (t :: rest)
  · exact .inl (skip_atTail (.inr hstop))
  · obtain ⟨w, hw, -⟩ := isKeyword_iff.1 ht
    right
    simp [skip, atStop, hstop, hw, Token.nesting]

/-- Skipping stops where a segment starts, and what it passes are bad segments. -/
theorem skip_segments (h : TailSegments (tokens ts) cs) :
    ∃ n later, cs = List.replicate n none ++ later ∧ TailSegments (tokens (skip [] 0 ts)) later := by
  generalize htokens : tokens ts = us at h
  induction h generalizing ts with
  | nil =>
    obtain rfl := tokens_eq_nil.1 htokens
    exact ⟨0, [], rfl, .nil⟩
  | @cons us vs c cs hseg hlater ih =>
    have hwhole : TailSegments (tokens ts) (c :: cs) := htokens ▸ .cons hseg hlater
    obtain ⟨seg, rest, rfl, rfl, rfl⟩ := tokens_eq_append.1 htokens
    -- either the segment is passed with some of those behind it, or skipping stops at its start
    have hpassed (hc : c = none) (hskip : skip [] 0 (seg ++ rest) = skip [] 0 rest) :
        ∃ n later, c :: cs = List.replicate n none ++ later ∧
          TailSegments (tokens (skip [] 0 (seg ++ rest))) later := by
      obtain ⟨n, later, rfl, hrest⟩ := ih rfl
      rw [hskip, hc]
      exact ⟨n + 1, later, rfl, hrest⟩
    have hstopped (hskip : skip [] 0 (seg ++ rest) = seg ++ rest) :
        ∃ n later, c :: cs = List.replicate n none ++ later ∧
          TailSegments (tokens (skip [] 0 (seg ++ rest))) later := by
      rw [hskip]
      exact ⟨0, c :: cs, rfl, hwhole⟩
    generalize hus : tokens seg = us at hseg
    cases hseg with
    | clause hclause =>
      subst hus
      exact hstopped (skip_atTail (.inr (clause_atTailClause hclause rest)))
    | lone _ ht =>
      obtain ⟨t, rfl, rfl⟩ := tokens_eq_singleton.1 hus
      rcases skip_keyword_cases ht rest with hskip | hskip
      · exact hstopped hskip
      · exact hpassed rfl hskip
    | spoiled _ ht hjunk =>
      obtain ⟨t, ls, rfl, rfl, rfl⟩ := tokens_eq_cons.1 hus
      rcases skip_keyword_cases ht (ls ++ rest) with hskip | hskip
      · exact hstopped hskip
      · exact hpassed rfl (hskip.trans (skip_junk hjunk rest))
    | junk hjunk =>
      subst hus
      exact hpassed rfl (skip_junk hjunk rest)

/-! ## Reading segments -/

/-- A bad segment fails somewhere in it, and skipping passes the rest of it. -/
theorem miss_of_bad (h : TailSegment (tokens seg) none) (hrest : TailSegments (tokens rest) later) :
    ∃ fault gap, tailClause (clauseRank (seg ++ rest)) (seg ++ rest) = .error ⟨fault, gap⟩ ∧
      skip [] 0 gap = skip [] 0 rest := by
  generalize hus : tokens seg = us at h
  cases h with
  | lone hk ht =>
    obtain ⟨t, rfl, rfl⟩ := tokens_eq_singleton.1 hus
    obtain ⟨fault, hmiss⟩ := hrest.fresh.miss hk ht
    exact ⟨fault, rest, hmiss, rfl⟩
  | spoiled hk ht hjunk =>
    obtain ⟨t, ls, rfl, rfl, rfl⟩ := tokens_eq_cons.1 hus
    obtain ⟨fault, hmiss⟩ := ((TailSegment.junk hjunk).fresh rest).miss hk ht
    exact ⟨fault, ls ++ rest, hmiss, skip_junk hjunk rest⟩
  | junk hjunk =>
    subst hus
    obtain ⟨t, ls, rfl⟩ := List.exists_cons_of_ne_nil (TailSegment.junk hjunk).ne_nil
    have hnone := hjunk.not_keyword t.token List.mem_cons_self
    refine ⟨_, t :: ls ++ rest, tailClause_other (fun k hk => hnone k ?_) (ls ++ rest), skip_junk hjunk rest⟩
    revert k
    decide

/-- Every clause among the segments is taken over, and there is a report exactly if there is a bad segment. -/
theorem tailClauses_segments {text : List Char} {last : Nat} {q : Query} (h : TailSegments (tokens ts) cs) :
    ∃ reports, tailClauses .lenient text last q ts = .ok ⟨(cs.filterMap id).foldl apply q, reports⟩ ∧
      (reports ≠ [] ↔ none ∈ cs) := by
  -- by the number of lexemes, as skipping may pass more than one segment
  induction hlength : ts.length using Nat.strongRecOn generalizing last q ts cs with
  | ind n ih =>
    rcases h.cases with ⟨rfl, rfl⟩ | ⟨seg, rest, c, later, rfl, rfl, hseg, hlater⟩
    · rw [tailClauses]
      exact ⟨[], rfl, by simp⟩
    have hpos : 0 < seg.length := List.length_pos_iff.2 hseg.ne_nil
    have hshorter : rest.length < n := by
      rw [← hlength, List.length_append]
      omega
    cases c with
    | some c =>
      have hclause : Clause (tokens seg) c := tailSegment_some.1 hseg
      obtain ⟨reports, hread, hreports⟩ := ih _ hshorter hlater rfl
      refine ⟨reports, ?_, by simpa using hreports⟩
      rw [tailClauses_clause hclause hlater.fresh.noDirection, hread]
      rfl
    | none =>
      obtain ⟨fault, gap, hmiss, hskip⟩ := miss_of_bad hseg hlater
      obtain ⟨k, behind, rfl, hbehind⟩ := skip_segments hlater
      have hskipped : (skip [] 0 rest).length < n :=
        Nat.lt_of_le_of_lt (skip_suffix [] 0 rest).length_le hshorter
      have hshort : (skip [] 0 gap).length < (seg ++ rest).length := by rwa [hskip, hlength]
      obtain ⟨reports, hread, -⟩ := ih _ hskipped hbehind rfl
      refine ⟨⟨fragment text (seg ++ rest) (skip [] 0 rest), fault⟩ :: reports, ?_, by simp⟩
      rw [tailClauses_miss text last q hmiss hshort, hskip, hread]
      simp [Except.map, Parsed.after]

end Lexemes

/-! ## Whole texts -/

/-- Let the tokens of a text be those that select everything, with segments behind them, and let its quotes be
closed. Then the order, the limit and the offset are those of the last clause of each kind among the segments, there
are no conditions, and there is a report exactly if some segment is no clause. -/
theorem bad_clauses_dropped {source : String} {ts : List Token} {cs : List (Option TailClause)}
    (hclosed : (lex (trimmed source)).openQuote = none)
    (htokens : tokens (lex (trimmed source)).lexemes = everything ++ ts) (h : TailSegments ts cs) :
    (parse source).query = ofClauses ["*"] [] (cs.filterMap id) ∧
      ((parse source).diagnostics ≠ [] ↔ none ∈ cs) := by
  obtain ⟨head, ls, hlexemes, hhead, rfl⟩ := tokens_eq_append.1 htokens
  have hlex : lex (trimmed source) = ⟨head ++ ls, none⟩ := by rw [← hlexemes, ← hclosed]
  have hne : head ++ ls ≠ [] := by
    intro hnil
    rw [(List.append_eq_nil_iff.1 hnil).1] at hhead
    cases hhead
  have hfilter : filterClause .lenient (trimmed source) ls = .ok ⟨[], [], ls⟩ :=
    if_neg (Bool.eq_false_iff.1 (h.fresh.not_keyword .filter (by decide)))
  obtain ⟨reports, hread, hreports⟩ := tailClauses_segments h
  have hparse : parse source = ⟨ofClauses ["*"] [] (cs.filterMap id), reports⟩ := by
    refine parse_of_clauses hlex hne ?_
    rw [clauses_everything hhead, hfilter, ← foldl_apply]
    show Except.map _ (tailClauses .lenient (trimmed source) 0 { conditions := [] } ls) = _
    rw [hread]
    rfl
  rw [hparse]
  exact ⟨rfl, hreports⟩

/-- Two limits, an offset and an order are taken over. A limit with a comparison behind it, a lone keyword, junk
without a keyword and a count that is none stand between them. -/
theorem bad_clauses_dropped_mixed :
    let source := "SELECT * FROM evidence LIMIT 9 ORDER BY a DESC limit = 3 OFFSET OFFSET 2 'x', y LIMIT 5 LIMIT -1;"
    (parse source).query = { orderBy := some "a", order := .descending, limit := some 5, offset := 2 } ∧
      (parse source).diagnostics ≠ [] := by
  have hcount {w : String} {n : UInt64} (h : Decimal.readCount w = some n) : Count (.word w) n := .word h
  have hnine : TailSegment [.word "LIMIT", .word "9"] (some (.limit 9)) :=
    .clause (.limit (by decide) (hcount (by decide)))
  have horder : TailSegment [.word "ORDER", .word "BY", .word "a", .word "DESC"] (some (.order "a" .descending)) :=
    .clause (.order (.descending (by decide) (by decide) (.word (by decide)) (by decide)))
  have hequals : TailSegment [.word "limit", .comparison .eq, .word "3"] none :=
    .spoiled (k := .limit) (by decide) (by decide) (by decide)
  have hlone : TailSegment [.word "OFFSET"] none := .lone (k := .offset) (by decide) (by decide)
  have htwo : TailSegment [.word "OFFSET", .word "2"] (some (.offset 2)) :=
    .clause (.offset (by decide) (hcount (by decide)))
  have hloose : TailSegment [.quoted "x", .comma, .word "y"] none :=
    .junk (by decide)
  have hfive : TailSegment [.word "LIMIT", .word "5"] (some (.limit 5)) :=
    .clause (.limit (by decide) (hcount (by decide)))
  have hminus : TailSegment [.word "LIMIT", .word "-1"] none :=
    .spoiled (k := .limit) (by decide) (by decide) (by decide)
  have hsegments := TailSegments.cons hnine <| .cons horder <| .cons hequals <| .cons hlone <| .cons htwo <|
    .cons hloose <| .cons hfive <| .cons hminus .nil
  intro source
  have hclosed : (lex (trimmed source)).openQuote = none := by decide +kernel
  obtain ⟨hquery, hreports⟩ := bad_clauses_dropped hclosed (by decide +kernel) hsegments
  exact ⟨hquery, hreports.2 (by decide)⟩

end EvidenceGraph.Query
