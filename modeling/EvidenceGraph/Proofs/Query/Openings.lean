/-
# `EvidenceGraph.Proofs.Query.Openings` — what stands before the filter, however damaged.

Words and commas stand in the places of the fields and of the source, and then comes `WHERE`. Both clauses recover
at it, but only if they fail: a list of fields that wants one more field takes `WHERE` for it, a source that is
missing likewise, and behind a source that is read there is no recovery at all (`Swallows`). Main statements: the
filter is reached exactly if it is not swallowed (`reaches_filter`, `reaches_of_swallows`).
-/
import EvidenceGraph.Proofs.Query.Lenient

namespace EvidenceGraph.Query

open EvidenceGraph.Text Grammar

/-! ## Lists of fields -/

/-- A list of fields that wants one more: there is a comma behind each of them. -/
inductive OpenList : List Token → Prop
  | nil : OpenList []
  | more {t : Token} {field : String} {ts : List Token} :
      Name [.source] t field → OpenList ts → OpenList (t :: .comma :: ts)

/-- What some tokens are as a list of fields. -/
inductive ListShape : List Token → Prop
  | complete {ts : List Token} {fields : List String} : Separated (Name [.source]) ts fields → ListShape ts
  | wanting {ts : List Token} : OpenList ts → ListShape ts
  | broken {ts us : List Token} : OpenList ts → ListShape (ts ++ .comma :: us)
  | overfull {ts us : List Token} {t : Token} {fields : List String} :
      Separated (Name [.source]) ts fields → t ≠ .comma → ListShape (ts ++ t :: us)

/-- A field and a comma in front of a list. -/
theorem ListShape.more {t : Token} {field : String} {ts : List Token} (ht : Name [.source] t field)
    (h : ListShape ts) : ListShape (t :: .comma :: ts) := by
  cases h with
  | complete hfields => exact .complete (.more ht hfields)
  | wanting hopen => exact .wanting (.more ht hopen)
  | broken hopen => exact .broken (.more ht hopen)
  | overfull hfields hu => exact .overfull (.more ht hfields) hu

/-- Words and commas are a list of fields up to the first place where they are not. -/
theorem listShape : ∀ ts : List Token, (∀ t ∈ ts, t = .comma ∨ ∃ w, Name [.source] t w) → ListShape ts
  | [], _ => .wanting .nil
  | [t], h => by
    rcases h t List.mem_cons_self with rfl | ⟨w, ht⟩
    · exact .broken .nil
    · exact .complete (.last ht)
  | t :: u :: ts, h => by
    rcases h t List.mem_cons_self with rfl | ⟨w, ht⟩
    · exact .broken .nil
    · by_cases hu : u = .comma
      · subst hu
        exact (listShape ts fun v hv => h v (List.mem_cons_of_mem t (List.mem_cons_of_mem _ hv))).more ht
      · exact .overfull (.last ht) hu

/-- With one more field it is complete. -/
theorem OpenList.field {t : Token} {field : String} {ts : List Token} (h : OpenList ts)
    (ht : Name [.source] t field) : ∃ fields, Separated (Name [.source]) (ts ++ [t]) fields := by
  induction h with
  | nil => exact ⟨_, .last ht⟩
  | more hone _ ih =>
    obtain ⟨fields, hmore⟩ := ih
    exact ⟨_, .more hone hmore⟩

/-- Where a field is wanted there has to be one. -/
theorem items_open {pre rest : List Lexeme} (h : OpenList (tokens pre))
    (hrest : ∀ t ∈ rest.head?, selectField? t.token = none) :
    Reader.items selectField? .missingSelectField (pre ++ rest) = .error ⟨.missingSelectField, rest⟩ := by
  generalize hpre : tokens pre = ts at h
  induction h generalizing pre with
  | nil =>
    obtain rfl := tokens_eq_nil.1 hpre
    exact Reader.bind_of_error (Reader.item_miss hrest)
  | more hone _ ih =>
    -- behind the first field and its comma the list starts anew
    obtain ⟨l, c, ls, rfl, rfl, hc, hls⟩ := tokens_eq_cons_cons.1 hpre
    have hmore := ih hls
    rw [← moreItems_comma hc] at hmore
    show (Reader.item selectField? .missingSelectField >>= _) (l :: c :: (ls ++ rest)) = _
    rw [Reader.bind_of_ok (Reader.item_cons ((accepts_selectField _ _).2 hone) _), Reader.bind_of_error hmore]

/-! ## What is selected -/

/-- A word or a comma that is none of the keywords behind the source. -/
structure Token.Stray (t : Token) : Prop where
  word_or_comma : t = .comma ∨ ∃ w, t = .word w
  not_keyword : ∀ k ∈ Keyword.filter :: clauseKeywords, t.isKeyword k = false

/-- `SELECT` and a list that wants one more field. -/
inductive Wanting : List Token → Prop
  | mk {s : Token} {ts : List Token} : s.isKeyword .select → OpenList ts → Wanting (s :: ts)

/-- `SELECT`, a list of fields, and text behind it. -/
inductive Overfull : List Token → Prop
  | mk {s t : Token} {ts us : List Token} {fields : List String} :
      s.isKeyword .select → Separated (Name [.source]) ts fields → t ≠ .comma → Overfull (s :: (ts ++ t :: us))

/-- Words and commas behind which `WHERE` is not found: it is taken for a field; or for the source, as it comes right
behind `FROM`; or a source is read and there is text behind it. The latter two need that nothing stands between the
fields and `FROM`, or else it is there that reading fails and recovers. -/
inductive Swallows : List Token → Prop
  | field {ts : List Token} : Wanting ts → Swallows ts
  | source {ts : List Token} {f : Token} :
      ¬ Overfull ts → (∀ t ∈ ts, t.isKeyword .source = false) → f.isKeyword .source → Swallows (ts ++ [f])
  | behindSource {ts us : List Token} {f u : Token} {w : String} :
      ¬ Overfull ts → (∀ t ∈ ts, t.isKeyword .source = false) → f.isKeyword .source →
      Swallows (ts ++ f :: .word w :: u :: us)

theorem OpenList.no_source {ts : List Token} (h : OpenList ts) : ∀ t ∈ ts, t.isKeyword .source = false := by
  induction h with
  | nil => nofun
  | more hone _ ih =>
    simp only [List.forall_mem_cons]
    refine ⟨?_, rfl, ih⟩
    cases hone with
    | word hno => exact hno .source List.mem_cons_self

/-- What stands before the first `FROM` does not depend on what stands behind it. -/
theorem before_source {ts us vs ws : List Token} {f g : Token} (heq : ts ++ f :: us = vs ++ g :: ws)
    (hts : ∀ t ∈ ts, t.isKeyword .source = false) (hf : f.isKeyword .source)
    (hvs : ∀ t ∈ vs, t.isKeyword .source = false) (hg : g.isKeyword .source) : ts = vs := by
  have htake {xs ys : List Token} {x : Token} (hxs : ∀ t ∈ xs, t.isKeyword .source = false)
      (hx : x.isKeyword .source) : (xs ++ x :: ys).takeWhile (fun t => !t.isKeyword .source) = xs := by
    rw [List.takeWhile_append_of_pos (by simpa using hxs)]
    simp [hx]
  rw [← htake hts hf, heq, htake hvs hg]

/-- Nothing is swallowed behind a `FROM` that is not reached, as there is text between it and the fields. -/
theorem Overfull.not_swallows {ts us : List Token} {f : Token} (h : Overfull ts)
    (hlacks : ∀ t ∈ ts, t.isKeyword .source = false) (hf : f.isKeyword .source) : ¬ Swallows (ts ++ f :: us) := by
  intro hswallows
  generalize hps : ts ++ f :: us = ps at hswallows
  cases hswallows with
  | field hwant =>
    cases hwant with
    | mk _ hopen =>
      cases h with
      | mk _ _ _ =>
        obtain ⟨-, rfl⟩ := List.cons.inj hps
        rw [hopen.no_source f (by simp)] at hf
        cases hf
  | source hfull hno hg => exact hfull (before_source hps hlacks hf hno hg ▸ h)
  | behindSource hfull hno hg => exact hfull (before_source hps hlacks hf hno hg ▸ h)

theorem Token.Stray.flat {t : Token} (h : t.Stray) : t.Flat := by
  rcases h.word_or_comma with rfl | ⟨w, rfl⟩ <;> exact ⟨nofun, nofun⟩

section Lexemes

variable {text : List Char} {as gap rest : List Lexeme}

theorem noComma_of_keyword {k : Keyword} (h : atKeyword k rest) : NoComma rest := by
  obtain ⟨t, ts, rfl, ht⟩ := atKeyword_iff.1 h
  rintro u ⟨⟩ hcomma
  rw [hcomma] at ht
  cases ht

/-- Skipping passes words and commas up to a keyword to stop at. -/
theorem skip_stray {stops : List Keyword} {k : Keyword} (hk : k ∈ stops) (hgap : ∀ t ∈ gap, t.token.Stray)
    (hstops : ∀ j ∈ stops, j = .filter ∨ Lacks j gap) (hrest : atKeyword k rest) :
    skip stops 0 (gap ++ rest) = rest := by
  have hwords : ∀ t ∈ gap, ∀ j ∈ stops ++ clauseKeywords, t.token.isKeyword j = false := by
    intro t ht j hj
    rcases List.mem_append.1 hj with hj | hj
    · rcases hstops j hj with rfl | hlacks
      · exact (hgap t ht).not_keyword .filter List.mem_cons_self
      · exact hlacks t ht
    · exact (hgap t ht).not_keyword j (List.mem_cons_of_mem _ hj)
  rw [skip_flat (fun t ht => (hgap t ht).flat) hwords, skip_keyword hk hrest]

/-- A list that wants one more field takes the next word for it. -/
theorem select_wanting (h : Wanting (tokens as)) {w : Lexeme} {field : String} (hw : Name [.source] w.token field)
    (hrest : NoComma rest) : ∃ fields, settle .lenient text [.source, .filter] selectClause (as ++ w :: rest) =
      .ok ⟨some fields, [], rest⟩ := by
  generalize has : tokens as = ts at h
  cases h with
  | mk hs hopen =>
    obtain ⟨s, us, rfl, rfl, rfl⟩ := tokens_eq_cons.1 has
    obtain ⟨fields, hfields⟩ := hopen.field hw
    have hlist : Separated (Name [.source]) (tokens (us ++ [w])) fields := by
      rw [tokens_append]
      exact hfields
    have hread := complete_selectClause hs hlist hrest
    rw [List.append_assoc, List.singleton_append] at hread
    exact ⟨fields, settle_eq_clean.2 ⟨fields, rfl, hread⟩⟩

/-- Text behind a complete list stays where it is. -/
theorem select_overfull (h : Overfull (tokens as)) (rest : List Lexeme) :
    ∃ fields t us, t :: us <:+ as ∧ settle .lenient text [.source, .filter] selectClause (as ++ rest) =
      .ok ⟨some fields, [], t :: us ++ rest⟩ := by
  generalize has : tokens as = ts at h
  cases h with
  | mk hs hfields ht =>
    obtain ⟨s, ls, rfl, rfl, hls⟩ := tokens_eq_cons.1 has
    obtain ⟨used, more, rfl, rfl, hmore⟩ := tokens_eq_append.1 hls
    obtain ⟨t, us, rfl, rfl, -⟩ := tokens_eq_cons.1 hmore
    have hcomma : NoComma (t :: us ++ rest) := by
      rintro u ⟨⟩
      exact ht
    have hread := complete_selectClause hs hfields hcomma
    rw [← List.append_assoc] at hread
    exact ⟨_, t, us, List.suffix_append (s :: used) _, settle_eq_clean.2 ⟨_, rfl, hread⟩⟩

theorem selectClause_list {s : Lexeme} (hs : s.token.isKeyword .select) (ts : List Lexeme) :
    selectClause (s :: ts) = Reader.items selectField? .missingSelectField ts := by
  show (Reader.keyword .select >>= _) (s :: ts) = _
  rw [Reader.bind_of_ok (Reader.keyword_cons hs ts)]

theorem selectClause_missing {ts : List Lexeme} (h : atKeyword .select ts = false) :
    selectClause ts = .error ⟨.missingKeyword .select, ts⟩ :=
  Reader.bind_of_error (Reader.keyword_miss h)

/-- Without `FROM` among them, words are names of fields. -/
theorem names_of_stray (hstray : ∀ t ∈ as, t.token.Stray) (hlacks : Lacks .source as) :
    ∀ t ∈ tokens as, t = .comma ∨ ∃ w, Name [.source] t w := by
  refine forall_mem_tokens.2 fun l hl => ?_
  rcases (hstray l hl).word_or_comma with hcomma | ⟨w, hw⟩
  · exact .inl hcomma
  · have hno : l.token.isKeyword .source = false := hlacks l hl
    rw [hw] at hno ⊢
    refine .inr ⟨w, .word fun k hk => ?_⟩
    rw [List.mem_singleton.1 hk]
    exact hno

section Reaching

variable (hstray : ∀ t ∈ as, t.token.Stray) (hlacks : Lacks .source as)
  (hrest : atKeyword .source rest ∨ atKeyword .filter rest)

include hstray hlacks hrest

/-- If reading fails within the words, skipping passes the others. -/
theorem select_missed {fault : Fault} (hgap : gap <:+ as)
    (hmiss : selectClause (as ++ rest) = .error ⟨fault, gap ++ rest⟩) :
    ∃ value reports, settle .lenient text [.source, .filter] selectClause (as ++ rest) =
      .ok ⟨value, reports, rest⟩ := by
  have hgapStray : ∀ t ∈ gap, t.token.Stray := fun t ht => hstray t (hgap.mem ht)
  have hstops : ∀ j ∈ [Keyword.source, .filter], j = .filter ∨ Lacks j gap := by
    intro j hj
    simp only [List.mem_cons, List.not_mem_nil, or_false] at hj
    rcases hj with rfl | rfl
    · exact .inr (hlacks.suffix hgap)
    · exact .inl rfl
  have hskip : skip [.source, .filter] 0 (gap ++ rest) = rest := by
    rcases hrest with hsource | hfilter
    · exact skip_stray (by decide) hgapStray hstops hsource
    · exact skip_stray (by decide) hgapStray hstops hfilter
  rw [settle_miss hmiss, hskip]
  exact ⟨_, _, rfl⟩

/-- If no field is wanted there and there is no text behind the fields, reading goes on at `FROM` or `WHERE`, whatever
was read or skipped before it. -/
theorem select_reaches (hfull : ¬ Overfull (tokens as))
    (hwant : atKeyword .source rest ∨ ¬ Wanting (tokens as)) :
    ∃ value reports, settle .lenient text [.source, .filter] selectClause (as ++ rest) =
      .ok ⟨value, reports, rest⟩ := by
  have hnone : atKeyword .select rest = false := by
    rcases hrest with hsource | hfilter
    · exact atKeyword_other hsource (by decide)
    · exact atKeyword_other hfilter (by decide)
  have hcomma : NoComma rest := by
    rcases hrest with hsource | hfilter
    · exact noComma_of_keyword hsource
    · exact noComma_of_keyword hfilter
  cases as with
  | nil => exact select_missed hstray hlacks hrest List.suffix_rfl (selectClause_missing hnone)
  | cons s us =>
    cases hs : s.token.isKeyword .select with
    | false => exact select_missed hstray hlacks hrest List.suffix_rfl (selectClause_missing hs)
    | true =>
      have hshape := listShape (tokens us) fun t ht => names_of_stray hstray hlacks t (List.mem_cons_of_mem _ ht)
      generalize hus : tokens us = ts at hshape
      cases hshape with
      | complete hfields =>
        subst hus
        exact ⟨_, _, settle_eq_clean.2 ⟨_, rfl, complete_selectClause hs hfields hcomma⟩⟩
      | wanting hopen =>
        subst hus
        rcases hwant with hsource | hno
        · have hmiss : Reader.items selectField? .missingSelectField (us ++ rest) =
              .error ⟨.missingSelectField, rest⟩ := by
            refine items_open hopen fun t ht => ?_
            obtain ⟨u, vs, rfl, hu⟩ := atKeyword_iff.1 hsource
            obtain rfl : u = t := Option.some.inj ht
            obtain ⟨w, hw, hspelled⟩ := isKeyword_iff.1 hu
            simp [hw, selectField?, hspelled]
          exact select_missed hstray hlacks hrest List.nil_suffix ((selectClause_list hs _).trans hmiss)
        · exact absurd (.mk hs hopen) hno
      | broken hopen =>
        obtain ⟨pre, more, rfl, rfl, hmore⟩ := tokens_eq_append.1 hus
        obtain ⟨c, post, rfl, hc, -⟩ := tokens_eq_cons.1 hmore
        have hmiss : Reader.items selectField? .missingSelectField (pre ++ (c :: post ++ rest)) =
            .error ⟨.missingSelectField, c :: post ++ rest⟩ := by
          refine items_open hopen fun t ht => ?_
          obtain rfl : c = t := Option.some.inj ht
          simp [hc, selectField?]
        rw [← List.append_assoc] at hmiss
        exact select_missed hstray hlacks hrest (List.suffix_append (s :: pre) _) ((selectClause_list hs _).trans hmiss)
      | overfull hfields ht =>
        refine absurd ?_ hfull
        rw [tokens_cons, hus]
        exact .mk hs hfields ht

end Reaching

/-! ## The source -/

/-- If reading fails within the words, skipping passes the others. -/
theorem source_missed (hgap : ∀ t ∈ gap, t.token.Stray) (hrest : atKeyword .filter rest) {ts : List Lexeme}
    {fault : Fault} (hmiss : sourceClause .lenient ts = .error ⟨fault, gap ++ rest⟩) :
    ∃ value reports, settle .lenient text [.filter] (sourceClause .lenient) ts = .ok ⟨value, reports, rest⟩ := by
  rw [settle_miss hmiss, skip_stray List.mem_cons_self hgap (fun j hj => .inl (List.mem_singleton.1 hj)) hrest]
  exact ⟨_, _, rfl⟩

/-- Where `FROM` does not come next, reading goes on at `WHERE`. -/
theorem source_absent (hgap : ∀ t ∈ gap, t.token.Stray) (hrest : atKeyword .filter rest)
    (h : atKeyword .source (gap ++ rest) = false) :
    ∃ value reports, settle .lenient text [.filter] (sourceClause .lenient) (gap ++ rest) =
      .ok ⟨value, reports, rest⟩ :=
  source_missed hgap hrest (Reader.bind_of_error (Reader.keyword_miss h))

theorem sourceClause_no_word {f t : Lexeme} (hf : f.token.isKeyword .source) (ht : sourceName? t.token = none)
    (rest : List Lexeme) : sourceClause .lenient (f :: t :: rest) = .error ⟨.missingSource, t :: rest⟩ := by
  show (Reader.keyword .source >>= _) (f :: t :: rest) = _
  rw [Reader.bind_of_ok (Reader.keyword_cons hf _)]
  refine Reader.bind_of_error (Reader.item_miss ?_)
  rintro u ⟨⟩
  exact ht

/-- Any word is a source. -/
theorem source_read {f e : Lexeme} {w : String} (hf : f.token.isKeyword .source) (he : e.token = .word w)
    (rest : List Lexeme) :
    settle .lenient text [.filter] (sourceClause .lenient) (f :: e :: rest) = .ok ⟨some (), [], rest⟩ :=
  settle_eq_clean.2 ⟨(), rfl, sourceClause_eq_ok.2 ⟨f, e, w, rfl, hf, he, nofun⟩⟩

/-! ## Both of them -/

/-- Reading goes on at `rest` when what is selected and the source are settled. -/
def Reaches (text : List Char) (ls rest : List Lexeme) : Prop :=
  ∃ selected sourced, settle .lenient text [.source, .filter] selectClause ls = .ok selected ∧
    settle .lenient text [.filter] (sourceClause .lenient) selected.rest = .ok sourced ∧ sourced.rest = rest

section Filter

variable {ps body : List Lexeme} {w : Lexeme} (hw : w.token.isKeyword .filter)

include hw

/-- With text behind the fields, it is in front of `FROM` that reading of the source fails. -/
theorem reaches_overfull {front behind : List Lexeme} (hstray : ∀ t ∈ front ++ behind, t.token.Stray)
    (hlacks : Lacks .source front) (hfull : Overfull (tokens front)) :
    Reaches text (front ++ behind ++ w :: body) (w :: body) := by
  obtain ⟨fields, t, us, hsuffix, hselected⟩ := select_overfull hfull (behind ++ w :: body)
  have hgap : ∀ u ∈ t :: us ++ behind, u.token.Stray := by
    intro u hu
    rcases List.mem_append.1 hu with hu | hu
    · exact hstray u (List.mem_append_left behind (hsuffix.mem hu))
    · exact hstray u (List.mem_append_right front hu)
  have hno : atKeyword .source (t :: us ++ behind ++ w :: body) = false := hlacks t (hsuffix.mem List.mem_cons_self)
  have hfilter : atKeyword .filter (w :: body) := hw
  obtain ⟨value, reports, hsourced⟩ := source_absent hgap hfilter hno
  rw [List.append_assoc] at hsourced ⊢
  exact ⟨_, _, hselected, hsourced, rfl⟩

/-- Without `FROM`, it is at `WHERE` that reading of the source fails. -/
theorem reaches_without_source (hstray : ∀ t ∈ ps, t.token.Stray) (hlacks : Lacks .source ps)
    (hfull : ¬ Overfull (tokens ps)) (hwant : ¬ Wanting (tokens ps)) :
    Reaches text (ps ++ w :: body) (w :: body) := by
  have hfilter : atKeyword .filter (w :: body) := hw
  obtain ⟨value, reports, hselected⟩ := select_reaches hstray hlacks (.inr hfilter) hfull (.inr hwant)
  have hnothing : ∀ t ∈ ([] : List Lexeme), t.token.Stray := nofun
  have hno : atKeyword .source ([] ++ w :: body) = false := atKeyword_other hfilter (by decide)
  obtain ⟨value', reports', hsourced⟩ := source_absent hnothing hfilter hno
  exact ⟨_, _, hselected, hsourced, rfl⟩

/-- Behind the first `FROM`, reading of the source fails at a comma or ends right before `WHERE`. -/
theorem reaches_behind_source {front behind : List Lexeme} {f : Lexeme}
    (hstray : ∀ t ∈ front ++ f :: behind, t.token.Stray) (hlacks : Lacks .source front)
    (hf : f.token.isKeyword .source) (hfull : ¬ Overfull (tokens front))
    (h : ¬ Swallows (tokens (front ++ f :: behind))) :
    Reaches text (front ++ f :: behind ++ w :: body) (w :: body) := by
  have hfrom : atKeyword .source (f :: behind ++ w :: body) := hf
  have hfilter : atKeyword .filter (w :: body) := hw
  have hfront : ∀ t ∈ front, t.token.Stray := fun t ht => hstray t (List.mem_append_left _ ht)
  have hbehind : ∀ t ∈ behind, t.token.Stray :=
    fun t ht => hstray t (List.mem_append_right front (List.mem_cons_of_mem f ht))
  obtain ⟨value, reports, hselected⟩ := select_reaches hfront hlacks (.inl hfrom) hfull (.inl hfrom)
  rw [tokens_append, tokens_cons] at h
  rw [List.append_assoc]
  cases behind with
  | nil => exact absurd (.source hfull (forall_mem_tokens.2 hlacks) hf) h
  | cons x more =>
    rcases (hbehind x List.mem_cons_self).word_or_comma with hcomma | ⟨e, he⟩
    · have hnone : sourceName? x.token = none := by
        rw [hcomma]
        rfl
      have hmiss := sourceClause_no_word hf hnone (more ++ w :: body)
      obtain ⟨value', reports', hsourced⟩ := source_missed hbehind hfilter hmiss
      exact ⟨_, _, hselected, hsourced, rfl⟩
    · cases more with
      | nil => exact ⟨_, _, hselected, source_read hf he (w :: body), rfl⟩
      | cons y more =>
        rw [tokens_cons, tokens_cons, he] at h
        exact absurd (.behindSource hfull (forall_mem_tokens.2 hlacks) hf) h

/-- A filter that is not swallowed is reached. -/
theorem reaches_filter (hstray : ∀ t ∈ ps, t.token.Stray) (h : ¬ Swallows (tokens ps)) :
    Reaches text (ps ++ w :: body) (w :: body) := by
  -- the fields end at the first `FROM`, if there is one
  rcases exists_split .source ps with hlacks | ⟨front, behind, rfl, hlacks, hsource⟩
  · by_cases hfull : Overfull (tokens ps)
    · have hreach : Reaches text (ps ++ [] ++ w :: body) (w :: body) :=
        reaches_overfull hw (by rwa [List.append_nil]) hlacks hfull
      rwa [List.append_nil] at hreach
    · exact reaches_without_source hw hstray hlacks hfull fun hwant => h (.field hwant)
  · by_cases hfull : Overfull (tokens front)
    · exact reaches_overfull hw hstray hlacks hfull
    · obtain ⟨f, more, rfl, hf⟩ := atKeyword_iff.1 hsource
      exact reaches_behind_source hw hstray hlacks hf hfull h

/-- A filter that is swallowed is behind: `WHERE` is taken for a field or for the source, or there is text left in
front of it where conditions should be. -/
theorem reaches_of_swallows (hstray : ∀ t ∈ ps, t.token.Stray) (hbody : NoComma body)
    (h : Swallows (tokens ps)) :
    (∃ fields, settle .lenient text [.source, .filter] selectClause (ps ++ w :: body) =
        .ok ⟨some fields, [], body⟩) ∨
      Reaches text (ps ++ w :: body) body ∨
        ∃ t us, t :: us <:+ ps ∧ Reaches text (ps ++ w :: body) (t :: us ++ w :: body) := by
  generalize hps : tokens ps = ts at h
  cases h with
  | field hwant =>
    subst hps
    obtain ⟨word, hword, hspelled⟩ := isKeyword_iff.1 hw
    have hname : Name [.source] w.token word := by
      rw [hword]
      refine .word fun k hk => ?_
      rw [List.mem_singleton.1 hk]
      exact Bool.eq_false_iff.2 fun hsource => absurd (isSpelled_unique hspelled hsource) (by decide)
    exact .inl (select_wanting hwant hname hbody)
  | source hfull hlacks hf =>
    obtain ⟨front, behind, rfl, rfl, hbehind⟩ := tokens_eq_append.1 hps
    obtain ⟨f, rfl, rfl⟩ := tokens_eq_singleton.1 hbehind
    have hfrom : atKeyword .source (f :: w :: body) := hf
    obtain ⟨value, reports, hselected⟩ :=
      select_reaches (fun t ht => hstray t (List.mem_append_left _ ht))
        (forall_mem_tokens.1 hlacks) (.inl hfrom) hfull (.inl hfrom)
    obtain ⟨word, hword, -⟩ := isKeyword_iff.1 hw
    rw [List.append_assoc, List.singleton_append]
    exact .inr (.inl ⟨_, _, hselected, source_read hf hword body, rfl⟩)
  | behindSource hfull hlacks hf =>
    obtain ⟨front, behind, rfl, rfl, hbehind⟩ := tokens_eq_append.1 hps
    obtain ⟨f, e, more, rfl, rfl, he, hmore⟩ := tokens_eq_cons_cons.1 hbehind
    obtain ⟨t, us, rfl, -, -⟩ := tokens_eq_cons.1 hmore
    have hfrom : atKeyword .source (f :: e :: t :: us ++ w :: body) := hf
    obtain ⟨value, reports, hselected⟩ :=
      select_reaches (fun t ht => hstray t (List.mem_append_left _ ht))
        (forall_mem_tokens.1 hlacks) (.inl hfrom) hfull (.inl hfrom)
    have hsuffix : t :: us <:+ front ++ f :: e :: t :: us :=
      (List.suffix_append [f, e] _).trans (List.suffix_append front _)
    rw [List.append_assoc]
    exact .inr (.inr ⟨t, us, hsuffix, _, _, hselected, source_read hf he (t :: us ++ w :: body), rfl⟩)

end Filter

end Lexemes

end EvidenceGraph.Query
