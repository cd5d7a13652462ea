/-
# `EvidenceGraph.Proofs.Query.Within` — reading that starts within conditions.

Behind the field of a printed condition there is no keyword that could stop skipping, and its parentheses are
balanced; so skipping passes conditions as a whole, except that it stops at a field that is named `WHERE` if it looks
for one. Where `WHERE` is missed, the first condition may be taken for a source (`source_within`), and a filter that
is looked for within the conditions has at most the conditions behind the first one (`filterClause_within`).
-/
import EvidenceGraph.Proofs.Query.Canonical
import EvidenceGraph.Proofs.Query.Openings

namespace EvidenceGraph.Query

open EvidenceGraph.Text Grammar

/-! ## Printed conditions -/

theorem separated_verbatim {ts : List Token} {items : List String} (h : Separated Verbatim ts items) :
    ∀ t ∈ ts, t.Silent ∧ t.Flat := by
  have hquoted {t : Token} {s : String} (ht : Verbatim t s) : t.Silent ∧ t.Flat := by
    cases ht with
    | quoted => exact ⟨fun _ _ => rfl, nofun, nofun⟩
  have hcomma : Token.comma.Silent ∧ Token.comma.Flat := ⟨fun _ _ => rfl, nofun, nofun⟩
  induction h with
  | last hone =>
    intro t ht
    rw [List.mem_singleton.1 ht]
    exact hquoted hone
  | more hone _ ih =>
    intro t ht
    rcases List.mem_cons.1 ht with rfl | ht
    · exact hquoted hone
    · rcases List.mem_cons.1 ht with rfl | ht
      · exact hcomma
      · exact ih t ht

/-- Behind the field, which is a word, no token of a printed condition structures a query. -/
theorem Printed.silent {ts : List Token} {c : Condition} (h : Printed ts c) :
    ∃ w o us, ts = .word w :: o :: us ∧ ∀ t ∈ o :: us, t.Silent := by
  have hsign (t : Token) (ht : ∀ w, t ≠ .word w) : t.Silent := by
    intro k _
    cases t with
    | word w => exact absurd rfl (ht w)
    | quoted | comparison | leftParen | rightParen | comma => rfl
  cases h with
  | comparison symbol hname hvalue hsilent =>
    refine ⟨_, _, _, rfl, ?_⟩
    simp only [List.forall_mem_cons]
    exact ⟨hsign _ nofun, hsilent, nofun⟩
  | isIn hname hitems =>
    have hin : (Token.word Keyword.isIn.spelling).Silent := by
      intro k hk
      revert k
      decide
    refine ⟨_, _, _, rfl, ?_⟩
    simp only [List.forall_mem_cons, List.forall_mem_append]
    exact ⟨hin, hsign _ nofun, fun t ht => (separated_verbatim hitems t ht).1, hsign _ nofun, nofun⟩
  | contains s hname =>
    have hcontains : (Token.word Keyword.contains.spelling).Silent := by
      intro k hk
      revert k
      decide
    refine ⟨_, _, _, rfl, ?_⟩
    simp only [List.forall_mem_cons]
    exact ⟨hcontains, hsign _ nofun, nofun⟩
  | relation kind s =>
    have hnode : (Token.word nodeIdField).Silent := by
      intro k hk
      revert k
      decide
    refine ⟨_, _, _, rfl, ?_⟩
    simp only [List.forall_mem_cons]
    exact ⟨hsign _ nofun, hnode, hsign _ nofun, hsign _ nofun, hsign _ nofun, nofun⟩

theorem Printed.balanced {ts : List Token} {c : Condition} (h : Printed ts c) (depth : Nat) :
    depthBehind depth ts = depth := by
  cases h with
  | comparison symbol hname hvalue _ =>
    refine depthBehind_flat ?_ depth
    simp only [List.forall_mem_cons]
    refine ⟨⟨nofun, nofun⟩, ⟨nofun, nofun⟩, ⟨?_, ?_⟩, nofun⟩ <;>
      · rintro rfl
        cases hvalue with
        | word hno => cases hno
  | isIn hname hitems =>
    have hinside := depthBehind_flat (fun t ht => (separated_verbatim hitems t ht).2) (depth + 1)
    simp only [depthBehind_cons, depthBehind_append, depthBehind_nil, Token.nesting]
    rw [hinside]
    rfl
  | contains s hname => rfl
  | relation kind s => rfl

/-- Without its field a printed condition cannot be read. -/
theorem condition_without_field {f : Lexeme} {ls : List Lexeme} {c : Condition} (h : Printed (tokens (f :: ls)) c)
    (rest : List Lexeme) : ∃ fault gap, gap <:+ ls ∧ condition (ls ++ rest) = .error ⟨fault, gap ++ rest⟩ := by
  have hno_field {t : Lexeme} {more : List Lexeme} (ht : conditionField? t.token = none) :
      ∃ fault gap, gap <:+ t :: more ∧ condition (t :: more ++ rest) = .error ⟨fault, gap ++ rest⟩ := by
    refine ⟨_, t :: more, List.suffix_rfl, Reader.bind_of_error (Reader.item_miss ?_)⟩
    rintro u ⟨⟩
    exact ht
  -- the keyword of the operator is then taken for a field
  have hno_operator {k : Keyword} {o t : Lexeme} {more : List Lexeme} (hk : k = .isIn ∨ k = .contains)
      (ho : o.token = .word k.spelling) (ht : t.token = .leftParen ∨ ∃ s, t.token = .quoted s) :
      ∃ fault gap, gap <:+ o :: t :: more ∧
        condition (o :: t :: more ++ rest) = .error ⟨fault, gap ++ rest⟩ := by
    have hname : Name [.and] o.token k.spelling := by
      rw [ho]
      rcases hk with rfl | rfl <;> exact .word (by decide)
    have hnone : Relation.named? k.spelling = none := by rcases hk with rfl | rfl <;> decide
    have hword (j : Keyword) : t.token.isKeyword j = false := by
      rcases ht with ht | ⟨s, ht⟩ <;> rw [ht] <;> rfl
    have hsymbol (c : Comparison) : t.token ≠ .comparison c := by
      rcases ht with ht | ⟨s, ht⟩ <;> rw [ht] <;> nofun
    exact ⟨_, t :: more, List.suffix_cons o _,
      condition_no_operator hname hnone hsymbol (hword .isIn) (hword .contains) (more ++ rest)⟩
  generalize hls : tokens (f :: ls) = ts at h
  cases h with
  | comparison symbol hname hvalue _ =>
    obtain ⟨_, o, more, heq, -, ho, -⟩ := tokens_eq_cons_cons.1 hls
    cases heq
    exact hno_field (by rw [ho]; rfl)
  | isIn hname hitems =>
    obtain ⟨_, o, more, heq, -, ho, hmore⟩ := tokens_eq_cons_cons.1 hls
    cases heq
    obtain ⟨l, us, rfl, hl, -⟩ := tokens_eq_cons.1 hmore
    exact hno_operator (.inl rfl) ho (.inl hl)
  | contains s hname =>
    obtain ⟨_, o, more, heq, -, ho, hmore⟩ := tokens_eq_cons_cons.1 hls
    cases heq
    obtain ⟨q, us, rfl, hq, -⟩ := tokens_eq_cons.1 hmore
    exact hno_operator (.inr rfl) ho (.inr ⟨s, hq⟩)
  | relation kind s =>
    obtain ⟨_, o, more, heq, -, ho, -⟩ := tokens_eq_cons_cons.1 hls
    cases heq
    exact hno_field (by rw [ho]; rfl)

/-- One condition at the front, and behind it nothing or `AND` and the others. -/
theorem PrintedConditions.cases {ls : List Lexeme} {cs : List Condition} (h : PrintedConditions (tokens ls) cs) :
    ∃ first behind c later, ls = first ++ behind ∧ cs = c :: later ∧ Printed (tokens first) c ∧
      ((behind = [] ∧ later = []) ∨ ∃ a more, behind = a :: more ∧ a.token.isKeyword .and ∧
        PrintedConditions (tokens more) later) := by
  generalize hls : tokens ls = ts at h
  cases h with
  | @last _ c hc => exact ⟨ls, [], c, [], (List.append_nil ls).symm, rfl, hls ▸ hc, .inl ⟨rfl, rfl⟩⟩
  | more hc ha hlater =>
    obtain ⟨first, behind, rfl, rfl, hbehind⟩ := tokens_eq_append.1 hls
    obtain ⟨a, more, rfl, rfl, rfl⟩ := tokens_eq_cons.1 hbehind
    exact ⟨first, a :: more, _, _, rfl, rfl, hc, .inr ⟨a, more, rfl, ha, hlater⟩⟩

/-! ## Within conditions -/

theorem Token.Silent.not_clause {t : Token} (h : t.Silent) : ∀ k ∈ clauseKeywords, t.isKeyword k = false := by
  have hall : ∀ k ∈ clauseKeywords, k ∈ Keyword.structural := by decide
  exact fun k hk => h k (hall k hk)

section Within

variable {first ls rest : List Lexeme} {c : Condition} {cs : List Condition}

/-- The lexemes of a printed condition. -/
theorem Printed.lexemes (h : Printed (tokens first) c) :
    ∃ f o more, first = f :: o :: more ∧ (∃ w, f.token = .word w) ∧ ∀ t ∈ o :: more, t.token.Silent := by
  obtain ⟨w, _, _, htokens, hsilent⟩ := h.silent
  obtain ⟨f, o, more, rfl, hf, rfl, rfl⟩ := tokens_eq_cons_cons.1 htokens
  rw [← tokens_cons, forall_mem_tokens] at hsilent
  exact ⟨f, o, more, rfl, ⟨w, hf⟩, hsilent⟩

theorem Printed.noClause (h : Printed (tokens first) c) (rest : List Lexeme) : NoClause first rest := by
  obtain ⟨f, o, more, rfl, -, hsilent⟩ := h.lexemes
  refine ⟨Bool.eq_false_iff.2 (condition_not_atTailClause h.condition).2, noClause_of_words (fun t ht => ?_) rest⟩
  exact (hsilent t ht).not_clause

/-- Of the tokens of a condition only its field can be a keyword that structures a query. -/
theorem Printed.eq_of_keyword (h : Printed (tokens first) c) {s : List Lexeme} (hs : s <:+ first) {k : Keyword}
    (hk : k ∈ Keyword.structural) (hat : atKeyword k s) : s = first := by
  obtain ⟨f, o, more, rfl, -, hsilent⟩ := h.lexemes
  obtain ⟨t, ts, rfl, ht⟩ := atKeyword_iff.1 hat
  rcases List.suffix_cons_iff.1 hs with heq | hsuffix
  · exact heq
  · rw [hsilent t (hsuffix.mem List.mem_cons_self) k hk] at ht
    cases ht

theorem PrintedConditions.balanced {ts : List Token} (h : PrintedConditions ts cs) (depth : Nat) :
    depthBehind depth ts = depth := by
  induction h with
  | last hc => exact hc.balanced depth
  | more hc ha _ ih =>
    obtain ⟨w, rfl, -⟩ := isKeyword_iff.1 ha
    rw [depthBehind_append, hc.balanced, depthBehind_cons]
    exact ih

/-- No clause starts at another keyword. -/
theorem not_atTailClause_of_keyword {k : Keyword} (hk : k ∉ clauseKeywords) {t : Lexeme} (ht : t.token.isKeyword k)
    (rest : List Lexeme) : atTailClause (t :: rest) = false := by
  refine not_atTailClause (fun j hj => Bool.eq_false_iff.2 (not_isKeyword ht ?_)) rest
  rintro rfl
  exact hk hj

theorem PrintedConditions.noClause (h : PrintedConditions (tokens ls) cs) (rest : List Lexeme) : NoClause ls rest := by
  generalize hls : tokens ls = ts at h
  induction h generalizing ls with
  | last hc =>
    subst hls
    exact hc.noClause rest
  | more hc ha _ ih =>
    obtain ⟨first, behind, rfl, rfl, hbehind⟩ := tokens_eq_append.1 hls
    obtain ⟨a, more, rfl, rfl, hmore⟩ := tokens_eq_cons.1 hbehind
    exact noClause_append.2 ⟨hc.noClause _, not_atTailClause_of_keyword (by decide) ha _, ih hmore⟩

/-- Where `WHERE` stands within conditions, it is the field of one of them. -/
theorem PrintedConditions.suffix (h : PrintedConditions (tokens ls) cs) {s : List Lexeme} (hs : s <:+ ls)
    (hat : atKeyword .filter s) : ∃ later, later <:+ cs ∧ PrintedConditions (tokens s) later := by
  have hstructural : Keyword.filter ∈ Keyword.structural := by decide
  generalize hls : tokens ls = ts at h
  induction h generalizing ls with
  | last hc =>
    subst hls
    rw [hc.eq_of_keyword hs hstructural hat]
    exact ⟨_, List.suffix_rfl, .last hc⟩
  | @more _ _ _ c cs hc ha hlater ih =>
    obtain ⟨first, behind, rfl, rfl, hbehind⟩ := tokens_eq_append.1 hls
    obtain ⟨a, more, rfl, rfl, hmore⟩ := tokens_eq_cons.1 hbehind
    have hand : ¬ atKeyword .filter (a :: more) := not_isKeyword ha (by decide)
    obtain ⟨pre, hpre⟩ := hs
    rcases List.append_eq_append_iff.1 hpre with ⟨mid, hfirst, rfl⟩ | ⟨mid, -, hmid⟩
    · cases mid with
      | nil => exact absurd hat hand
      | cons m mid =>
        have hwhole : m :: mid = first := hc.eq_of_keyword ⟨pre, hfirst.symm⟩ hstructural hat
        rw [hwhole]
        refine ⟨c :: cs, List.suffix_rfl, ?_⟩
        rw [tokens_append, tokens_cons, hmore]
        exact .more hc ha hlater
    · -- behind the first condition
      cases mid with
      | nil =>
        rw [hmid] at hand
        exact absurd hat hand
      | cons m mid =>
        have hsuffix : s <:+ more := ⟨mid, (List.cons.inj hmid).2.symm⟩
        obtain ⟨later, hsub, hprinted⟩ := ih hsuffix hmore
        exact ⟨later, hsub.trans (List.suffix_cons c cs), hprinted⟩

/-- Without its field a condition is skipped up to a stop behind it. -/
theorem boundedCondition_without_field {f : Lexeme} {s behind : List Lexeme} (h : Printed (tokens (f :: s)) c)
    (hbehind : skip [.and] 0 behind = behind) :
    ∃ fault gap, boundedCondition (s ++ behind) = .error ⟨fault, gap⟩ ∧ skip [.and] 0 gap = behind := by
  obtain ⟨fault, gap, hgap, hmiss⟩ := condition_without_field h behind
  have hinside : gap <:+ f :: s := hgap.trans (List.suffix_cons f s)
  have hbalanced : depthBehind 0 (tokens gap) = 0 := balanced_suffix (h.balanced 0) hinside
  have hwords : ∀ t ∈ gap, ∀ k ∈ [Keyword.and], t.token.isKeyword k = false := by
    intro t ht k hk
    obtain ⟨_, o, more, heq, -, hsilent⟩ := h.lexemes
    obtain ⟨-, rfl⟩ := List.cons.inj heq
    rw [List.mem_singleton.1 hk]
    exact hsilent t (hgap.mem ht) .and (by decide)
  refine ⟨fault, gap ++ behind, boundedCondition_miss hmiss, ?_⟩
  rw [skip_clear hbalanced ((h.noClause _).suffix hinside) hwords, hbehind]

/-- Without the first field, the first one of some conditions is lost, and the others are read. -/
theorem conditionList_without_field (text : List Char) {f : Lexeme} {s : List Lexeme}
    (h : PrintedConditions (tokens (f :: s)) cs) (hrest : AtTail rest) :
    ∃ reports, conditionList .lenient text (s ++ rest) = .ok ⟨cs.tail, reports, rest⟩ := by
  obtain ⟨first, behind, c, later, hshape, rfl, hc, hbehind⟩ := h.cases
  obtain ⟨_, o, more, rfl, -, hsilent⟩ := hc.lexemes
  obtain ⟨rfl, rfl⟩ := List.cons.inj hshape
  have hstop : skip [.and] 0 (behind ++ rest) = behind ++ rest := by
    rcases hbehind with ⟨rfl, -⟩ | ⟨a, more, rfl, ha, -⟩
    · exact skip_atTail hrest
    · exact skip_keyword List.mem_cons_self ha
  have hstart : o :: more ++ behind ++ rest ≠ [] ∧ ¬ atTailClause (o :: more ++ behind ++ rest) := by
    have hno := not_atTailClause (hsilent o List.mem_cons_self).not_clause (more ++ behind ++ rest)
    exact ⟨nofun, Bool.eq_false_iff.1 hno⟩
  obtain ⟨fault, gap, hmiss, hskip⟩ := boundedCondition_without_field hc hstop
  rw [← List.append_assoc] at hmiss
  have hmissed := conditionList_miss text hstart hmiss
  rw [hskip] at hmissed
  rcases hbehind with ⟨rfl, rfl⟩ | ⟨a, more, rfl, ha, hmore⟩
  · have hand : ¬ atKeyword .and rest := by
      intro hand
      simpa using hrest.keyword hand
    rw [List.nil_append, if_neg hand] at hmissed
    exact ⟨_, hmissed⟩
  · have hand : atKeyword .and (a :: more ++ rest) := ha
    have hlist : conditionList .lenient text (more ++ rest) = .ok ⟨later, [], rest⟩ :=
      complete_conditionList hmore.conjunction hrest
    have htail : (a :: more ++ rest).tail = more ++ rest := rfl
    rw [if_pos hand, htail, hlist] at hmissed
    exact ⟨_, hmissed⟩

/-- Reading of a filter that starts within conditions keeps only conditions behind the first one. -/
theorem filterClause_within (text : List Char) (h : PrintedConditions (tokens ls) cs) (hrest : AtTail rest)
    {s : List Lexeme} (hs : s <:+ ls) :
    ∃ kept reports junk, kept <:+ cs.tail ∧ junk <:+ ls ∧
      filterClause .lenient text (s ++ rest) = .ok ⟨kept, reports, junk ++ rest⟩ := by
  by_cases hat : atKeyword .filter (s ++ rest)
  · cases s with
    | nil => simpa using hrest.keyword hat
    | cons f s =>
      obtain ⟨later, hlater, hprinted⟩ := h.suffix hs hat
      obtain ⟨reports, hlist⟩ := conditionList_without_field text hprinted hrest
      refine ⟨later.tail, reports, [], ?_, List.nil_suffix, ?_⟩
      · obtain ⟨pre, rfl⟩ := hlater
        cases pre with
        | nil => exact List.suffix_rfl
        | cons c pre => exact (List.tail_suffix later).trans (List.suffix_append pre later)
      · rw [filterClause, if_pos hat]
        exact hlist
  · exact ⟨[], [], s, List.nil_suffix, hs, if_neg hat⟩

/-- A source that is looked for in place of the first condition: reading goes on within the conditions. -/
theorem source_within (text : List Char) (h : PrintedConditions (tokens ls) cs) (hrest : AtTail rest) :
    ∃ sourced s, settle .lenient text [.filter] (sourceClause .lenient) (ls ++ rest) = .ok sourced ∧
      sourced.rest = s ++ rest ∧ s <:+ ls := by
  have hmissed {fault : Fault} {gap : List Lexeme} (hgap : gap <:+ ls)
      (hmiss : sourceClause .lenient (ls ++ rest) = .error ⟨fault, gap ++ rest⟩) :
      ∃ sourced s, settle .lenient text [.filter] (sourceClause .lenient) (ls ++ rest) = .ok sourced ∧
        sourced.rest = s ++ rest ∧ s <:+ ls := by
    obtain ⟨s, hs, hskip⟩ := skip_to (balanced_suffix (h.balanced 0) hgap) (skip_atTail hrest)
    exact ⟨_, s, settle_miss hmiss, hskip, hs.trans hgap⟩
  obtain ⟨first, behind, c, later, rfl, -, hc, -⟩ := h.cases
  obtain ⟨f, o, more, rfl, -, -⟩ := hc.lexemes
  have hbehind : more ++ behind <:+ f :: o :: more ++ behind := List.suffix_append [f, o] _
  cases hsource : f.token.isKeyword .source with
  | false => exact hmissed List.suffix_rfl (Reader.bind_of_error (Reader.keyword_miss hsource))
  | true =>
    cases ho : sourceName? o.token with
    | none =>
      have hfrom : o :: more ++ behind <:+ f :: o :: more ++ behind := List.suffix_cons f _
      exact hmissed hfrom (sourceClause_no_word hsource ho _)
    | some e => exact ⟨_, more ++ behind, source_read hsource (sourceName?_eq_some.1 ho) _, rfl, hbehind⟩

end Within

end EvidenceGraph.Query
