/-
# `EvidenceGraph.Proofs.Query.Phrases` — whole queries, without reports.

The readers of what is selected, the source and the conditions, and then all of a query. The modes differ
in the sources that they let pass and in the clauses behind the conditions, so `Phrases`, which puts a
query together, has the mode as a parameter. Main statement: `clauses_eq_clean`, a reading of lexemes in
either mode is without reports exactly if they are the phrases of a query in this mode.
-/
import EvidenceGraph.Proofs.Query.Clauses

namespace EvidenceGraph.Query

open EvidenceGraph.Text Grammar

/-- A whole query as it is read in the given mode: lenient readings take any word for the source. -/
inductive Grammar.Phrases (mode : Mode) : List Token → Query → Prop
  | mk {s f : Token} {e : String} {names filter tail : List Token} {fields : List String}
      {conditions : List Query.Condition} {later : List TailClause} :
      s.isKeyword .select → Separated (Name [.source]) names fields →
      f.isKeyword .source → (mode = .strict → sameWord e sourceTable) →
      Filter filter conditions → Tail mode 0 tail later →
      Phrases mode (s :: (names ++ f :: .word e :: (filter ++ tail)))
        (later.foldl apply { select := fields, conditions })

/-! ## The conditions -/

theorem boundedCondition_eq_ok {ts rest : List Lexeme} {c : Condition} :
    boundedCondition ts = .ok (c, rest) ↔
      condition ts = .ok (c, rest) ∧ (atKeyword .and rest ∨ AtTail rest) := by
  have hbound : (rest.isEmpty || atKeyword .and rest || atTailClause rest) = true ↔
      atKeyword .and rest ∨ AtTail rest := by
    simp only [Bool.or_eq_true, List.isEmpty_iff, AtTail]
    tauto
  unfold boundedCondition
  rw [Reader.bind_eq_ok]
  constructor
  · rintro ⟨found, mid, hread, hnext⟩
    rw [Reader.ahead_bind] at hnext
    split at hnext
    · next hmid =>
      cases hnext
      exact ⟨hread, hbound.1 hmid⟩
    · cases hnext
  · rintro ⟨hread, hrest⟩
    refine ⟨c, rest, hread, ?_⟩
    rw [Reader.ahead_bind, if_pos (hbound.2 hrest)]
    rfl

/-- One step: a condition is read without reports, and so is what is behind its `AND`, or the conditions
end there. -/
theorem conditionList_step {mode : Mode} {text : List Char} {ts rest : List Lexeme}
    {cs : List Condition} :
    conditionList mode text ts = .ok ⟨cs, [], rest⟩ ↔
      (ts ≠ [] ∧ ¬ atTailClause ts) ∧ ∃ c mid later,
        boundedCondition ts = .ok (c, mid) ∧ cs = c :: later ∧
        (if atKeyword .and mid then conditionList mode text mid.tail else .ok ⟨[], [], mid⟩) =
          .ok ⟨later, [], rest⟩ := by
  rw [conditionList_eq]
  by_cases hstart : ts.isEmpty || atTailClause ts
  · have hfalse : ¬ (ts ≠ [] ∧ ¬ atTailClause ts) := by
      rintro ⟨hne, htail⟩
      simp_all
    rw [if_pos hstart]
    constructor
    · intro h
      -- a missing condition ends a strict reading and is reported by a lenient one
      obtain ⟨reports, hreports, heq⟩ := except_map_eq_ok.1 h
      cases mode <;> cases hreports
      cases heq
    · rintro ⟨htrue, -⟩
      exact absurd htrue hfalse
  · have htrue : ts ≠ [] ∧ ¬ atTailClause ts := by simpa using hstart
    rw [if_neg hstart, except_bind_eq_ok]
    constructor
    · rintro ⟨⟨v, reports, mid⟩, hsettle, hnext⟩
      obtain ⟨⟨later, more, left⟩, hlater, heq⟩ := except_map_eq_ok.1 hnext
      obtain ⟨rfl, hreports, rfl⟩ := Settled.mk.inj heq
      obtain ⟨rfl, rfl⟩ := List.append_eq_nil_iff.1 hreports
      obtain ⟨c, rfl, hread⟩ := settle_eq_clean.1 hsettle
      exact ⟨htrue, c, mid, later, hread, rfl, hlater⟩
    · rintro ⟨-, c, mid, later, hread, rfl, hlater⟩
      refine ⟨⟨some c, [], mid⟩, settle_eq_clean.2 ⟨c, rfl, hread⟩, ?_⟩
      exact except_map_eq_ok.2 ⟨_, hlater, rfl⟩

theorem sound_conditionList {mode : Mode} {text : List Char} {ts rest : List Lexeme}
    {cs : List Condition} (h : conditionList mode text ts = .ok ⟨cs, [], rest⟩) :
    ∃ used, ts = used ++ rest ∧ Conjunction (tokens used) cs := by
  induction hlength : ts.length using Nat.strongRecOn generalizing ts cs with
  | ind n ih =>
    obtain ⟨-, c, mid, later, hread, rfl, hlater⟩ := conditionList_step.1 h
    obtain ⟨used, rfl, hused⟩ := sound_condition (boundedCondition_eq_ok.1 hread).1
    split at hlater
    · next hand =>
      obtain ⟨a, left, rfl, ha⟩ := atKeyword_iff.1 hand
      have hshorter : left.length < n := by
        simp only [List.length_append, List.length_cons] at hlength
        omega
      obtain ⟨more, rfl, hmore⟩ := ih left.length hshorter hlater rfl
      refine ⟨used ++ a :: more, by simp, ?_⟩
      rw [tokens_append, tokens_cons]
      exact .more hused ha hmore
    · cases hlater
      exact ⟨used, rfl, .last hused⟩

theorem complete_conditionList {mode : Mode} {text : List Char} {used rest : List Lexeme}
    {cs : List Condition} (h : Conjunction (tokens used) cs) (hrest : AtTail rest) :
    conditionList mode text (used ++ rest) = .ok ⟨cs, [], rest⟩ := by
  generalize htokens : tokens used = us at h
  induction h generalizing used with
  | last hc =>
    subst htokens
    have hand : ¬ atKeyword .and rest := by
      intro hand
      simpa using hrest.keyword hand
    rw [conditionList_step]
    refine ⟨condition_not_atTailClause hc, _, rest, [], ?_, rfl, if_neg hand⟩
    exact boundedCondition_eq_ok.2 ⟨complete_condition hc, .inr hrest⟩
  | more hc ha _ ih =>
    obtain ⟨xs, ys, rfl, rfl, hys⟩ := tokens_eq_append.1 htokens
    obtain ⟨a, zs, rfl, rfl, hzs⟩ := tokens_eq_cons.1 hys
    have hand : atKeyword .and (a :: (zs ++ rest)) := ha
    rw [List.append_assoc, conditionList_step]
    refine ⟨condition_not_atTailClause hc, _, a :: (zs ++ rest), _, ?_, rfl, ?_⟩
    · exact boundedCondition_eq_ok.2 ⟨complete_condition hc, .inl hand⟩
    · rw [if_pos hand]
      exact ih hzs

theorem sound_filterClause {mode : Mode} {text : List Char} {ts rest : List Lexeme}
    {cs : List Condition} (h : filterClause mode text ts = .ok ⟨cs, [], rest⟩) :
    ∃ used, ts = used ++ rest ∧ Filter (tokens used) cs := by
  unfold filterClause at h
  split at h
  · next hfilter =>
    obtain ⟨w, left, rfl, hw⟩ := atKeyword_iff.1 hfilter
    obtain ⟨used, hused, hconditions⟩ := sound_conditionList h
    rw [List.tail_cons] at hused
    exact ⟨w :: used, by rw [hused]; rfl, .present hw hconditions⟩
  · cases h
    exact ⟨[], rfl, .absent⟩

theorem complete_filterClause {mode : Mode} {text : List Char} {used rest : List Lexeme}
    {cs : List Condition} (h : Filter (tokens used) cs) (hrest : AtTail rest) :
    filterClause mode text (used ++ rest) = .ok ⟨cs, [], rest⟩ := by
  generalize htokens : tokens used = us at h
  unfold filterClause
  cases h with
  | absent =>
    obtain rfl := tokens_eq_nil.1 htokens
    have hfilter : ¬ atKeyword .filter rest := by
      intro hfilter
      simpa using hrest.keyword hfilter
    exact if_neg hfilter
  | present hw hconditions =>
    obtain ⟨w, ls, rfl, rfl, rfl⟩ := tokens_eq_cons.1 htokens
    have hfilter : atKeyword .filter (w :: ls ++ rest) := hw
    rw [if_pos hfilter]
    exact complete_conditionList hconditions hrest

/-! ## Whole queries -/

theorem sound_selectClause {ts rest : List Lexeme} {fields : List String}
    (h : selectClause ts = .ok (fields, rest)) :
    ∃ s used, ts = s :: (used ++ rest) ∧ s.token.isKeyword .select ∧
      Separated (Name [.source]) (tokens used) fields := by
  obtain ⟨_, mid, hselect, hitems⟩ := Reader.bind_eq_ok.1 h
  obtain ⟨s, rfl, hs⟩ := Reader.keyword_eq_ok.1 hselect
  obtain ⟨used, rfl, hused⟩ := sound_items accepts_selectField hitems
  exact ⟨s, used, rfl, hs, hused⟩

theorem complete_selectClause {s : Lexeme} {used rest : List Lexeme} {fields : List String}
    (hs : s.token.isKeyword .select) (h : Separated (Name [.source]) (tokens used) fields)
    (hrest : NoComma rest) : selectClause (s :: (used ++ rest)) = .ok (fields, rest) := by
  show (Reader.keyword .select >>= _) _ = _
  rw [Reader.bind_of_ok (Reader.keyword_cons hs _)]
  exact complete_items accepts_selectField h hrest

theorem sourceName?_eq_some {t : Token} {w : String} : sourceName? t = some w ↔ t = .word w := by
  cases t <;> simp [sourceName?]

theorem sourceClause_eq_ok {mode : Mode} {ts rest : List Lexeme} :
    sourceClause mode ts = .ok ((), rest) ↔
      ∃ f e w, ts = f :: e :: rest ∧ f.token.isKeyword .source ∧ e.token = .word w ∧
        (mode = .strict → sameWord w sourceTable) := by
  unfold sourceClause
  constructor
  · intro h
    obtain ⟨_, mid, hsource, hrest⟩ := Reader.bind_eq_ok.1 h
    obtain ⟨table, mid', htable, hcheck⟩ := Reader.bind_eq_ok.1 hrest
    obtain ⟨f, rfl, hf⟩ := Reader.keyword_eq_ok.1 hsource
    obtain ⟨e, rfl, he⟩ := Reader.item_eq_ok.1 htable
    have hword : e.token = .word table := sourceName?_eq_some.1 he
    split at hcheck
    · cases hcheck
    · next hknown =>
      cases hcheck
      refine ⟨f, e, table, rfl, hf, hword, fun hmode => ?_⟩
      simpa [hmode] using hknown
  · rintro ⟨f, e, w, rfl, hf, he, hknown⟩
    have haccept : sourceName? e.token = some w := sourceName?_eq_some.2 he
    have hcheck : ¬ (mode = .strict ∧ sameWord w sourceTable = false) := by
      rintro ⟨hmode, hother⟩
      rw [hknown hmode] at hother
      cases hother
    rw [Reader.bind_of_ok (Reader.keyword_cons hf _), Reader.bind_of_ok (Reader.item_cons haccept rest),
      if_neg hcheck]
    rfl

/-- What selects every field of every node. -/
def everything : List Token := [.word "SELECT", .word "*", .word "FROM", .word "evidence"]

/-- Behind this there is only the filter and the clauses behind it to read. -/
theorem clauses_everything {text : List Char} {head ts : List Lexeme} (hhead : tokens head = everything) :
    clauses .lenient text (head ++ ts) =
      filterClause .lenient text ts >>= fun filter =>
        (tailClauses .lenient text 0 { conditions := filter.value } filter.rest).map
          (Parsed.after filter.reports) := by
  obtain ⟨s, x, more, rfl, hs, hx, hmore⟩ := tokens_eq_cons_cons.1 hhead
  obtain ⟨f, e, last, rfl, hf, he, hlast⟩ := tokens_eq_cons_cons.1 hmore
  obtain rfl := tokens_eq_nil.1 hlast
  have hselect : selectClause (s :: ([x] ++ f :: e :: ts)) = .ok (["*"], f :: e :: ts) := by
    refine complete_selectClause (by rw [hs]; decide) ?_ ?_
    · rw [tokens_cons, hx]
      exact .last (.word (by decide))
    · rintro t ⟨⟩
      rw [hf]
      decide
  have hsource : sourceClause .lenient (f :: e :: ts) = .ok ((), ts) :=
    sourceClause_eq_ok.2 ⟨f, e, "evidence", rfl, by rw [hf]; decide, he, nofun⟩
  have hselected : settle .lenient text [.source, .filter] selectClause ([s, x, f, e] ++ ts) =
      .ok ⟨some ["*"], [], f :: e :: ts⟩ := settle_eq_clean.2 ⟨_, rfl, hselect⟩
  have hsourced : settle .lenient text [.filter] (sourceClause .lenient) (f :: e :: ts) =
      .ok ⟨some (), [], ts⟩ := settle_eq_clean.2 ⟨_, rfl, hsource⟩
  rw [clauses_eq, hselected]
  show Except.map _ (settle .lenient text [.filter] (sourceClause .lenient) (f :: e :: ts) >>= _) = _
  rw [hsourced]
  show Except.map _ (Except.map _ (filterClause .lenient text ts >>= _)) = _
  cases filterClause .lenient text ts with
  | error found => rfl
  | ok filter =>
    show Except.map _ (Except.map _ (Except.map _
        (tailClauses .lenient text 0 { conditions := filter.value } filter.rest))) =
      Except.map _ (tailClauses .lenient text 0 { conditions := filter.value } filter.rest)
    cases tailClauses .lenient text 0 { conditions := filter.value } filter.rest <;> rfl

/-- The same with the keyword of the filter behind it, so that conditions come next. -/
theorem clauses_opening {text : List Char} {head ts : List Lexeme}
    (hhead : tokens head = everything ++ [.word "WHERE"]) :
    clauses .lenient text (head ++ ts) =
      conditionList .lenient text ts >>= fun filter =>
        (tailClauses .lenient text 0 { conditions := filter.value } filter.rest).map
          (Parsed.after filter.reports) := by
  obtain ⟨first, last, rfl, hfirst, hlast⟩ := tokens_eq_append.1 hhead
  obtain ⟨w, rfl, hw⟩ := tokens_eq_singleton.1 hlast
  have hfilter : atKeyword .filter (w :: ts) := by
    show w.token.isKeyword .filter
    rw [hw]
    decide
  rw [List.append_assoc, List.singleton_append, clauses_everything hfirst, filterClause, if_pos hfilter,
    List.tail_cons]

/-- The lexemes of a query are read without reports exactly if they are one in this mode. -/
theorem clauses_eq_clean {mode : Mode} {text : List Char} {ts : List Lexeme} {q : Query} :
    clauses mode text ts = .ok ⟨q, []⟩ ↔ Phrases mode (tokens ts) q := by
  rw [clauses_eq]
  constructor
  · intro h
    obtain ⟨_, mid₁, hselected, h₁⟩ := settled_bind_eq_clean.1 h
    obtain ⟨_, mid₂, hsourced, h₂⟩ := settled_bind_eq_clean.1 h₁
    obtain ⟨conditions, mid₃, hfiltered, htail⟩ := settled_bind_eq_clean.1 h₂
    obtain ⟨fields, rfl, hselect⟩ := settle_eq_clean.1 hselected
    obtain ⟨_, -, hsource⟩ := settle_eq_clean.1 hsourced
    obtain ⟨s, names, rfl, hs, hnames⟩ := sound_selectClause hselect
    obtain ⟨f, e, w, rfl, hf, he, hknown⟩ := sourceClause_eq_ok.1 hsource
    obtain ⟨filter, rfl, hfilter⟩ := sound_filterClause hfiltered
    obtain ⟨later, hlater, rfl⟩ := sound_tailClauses htail
    simp only [tokens_cons, tokens_append, he]
    exact .mk hs hnames hf hknown hfilter hlater
  · intro h
    generalize htokens : tokens ts = us at h
    cases h with
    | mk hs hnames hf hknown hfilter hlater =>
      obtain ⟨s, ls, rfl, rfl, hls⟩ := tokens_eq_cons.1 htokens
      obtain ⟨names, ms, rfl, rfl, hms⟩ := tokens_eq_append.1 hls
      obtain ⟨f, e, ps, rfl, rfl, he, hps⟩ := tokens_eq_cons_cons.1 hms
      obtain ⟨filter, tail, rfl, rfl, rfl⟩ := tokens_eq_append.1 hps
      -- the list of fields ends at `FROM`, which is no comma
      have hcomma : NoComma (f :: e :: (filter ++ tail)) := by
        intro t ht
        cases ht
        rintro hcomma
        rw [hcomma] at hf
        cases hf
      have hselect := complete_selectClause hs hnames hcomma
      have hsource : sourceClause mode (f :: e :: (filter ++ tail)) = .ok ((), filter ++ tail) :=
        sourceClause_eq_ok.2 ⟨f, e, _, rfl, hf, he, hknown⟩
      have hfiltered : filterClause mode text (filter ++ tail) = .ok ⟨_, [], tail⟩ :=
        complete_filterClause hfilter (tail_atTail hlater)
      refine settled_bind_eq_clean.2 ⟨_, _, settle_eq_clean.2 ⟨_, rfl, hselect⟩, ?_⟩
      refine settled_bind_eq_clean.2 ⟨_, _, settle_eq_clean.2 ⟨_, rfl, hsource⟩, ?_⟩
      refine settled_bind_eq_clean.2 ⟨_, _, hfiltered, ?_⟩
      exact complete_tailClauses hlater

end EvidenceGraph.Query
