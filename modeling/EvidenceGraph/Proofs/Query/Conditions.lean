/-
# `EvidenceGraph.Proofs.Query.Conditions` — conditions are read as the grammar says.

The first word of a condition decides little: it may be a field, a keyword in the place of a field, or the
name of a relation. What follows decides: a parenthesis behind the name of a relation, or a comparison
symbol, `IN` or `CONTAINS` behind any field. Main statements: `sound_condition` and `complete_condition`;
the second one holds in front of any lexemes whatsoever.
-/
import EvidenceGraph.Proofs.Query.Reading

namespace EvidenceGraph.Query

open EvidenceGraph.Text Grammar

/-! ## What the next lexeme is -/

theorem named?_eq_some {w : String} {kind : Relation} :
    Relation.named? w = some kind ↔ sameWord w kind.name := by
  constructor
  · intro h
    simp only [Relation.named?] at h
    split at h
    · next hw =>
      cases h
      exact hw
    · split at h
      · next hw =>
        cases h
        exact hw
      · cases h
  · intro h
    cases kind with
    | contradicts => exact if_pos h
    | supports =>
      have hne : ¬ sameWord w "contradicts" := fun hother =>
        absurd (sameWord_of_same hother h) (by decide)
      simp only [Relation.named?, if_neg hne]
      exact if_pos h

/-- The name of a relation spells no keyword. -/
theorem not_isSpelled_of_relation {k : Keyword} {kind : Relation} {w : String}
    (h : sameWord w kind.name) : k.isSpelled w = false := by
  rw [Bool.eq_false_iff]
  intro hk
  have hsame : sameWord k.spelling kind.name := sameWord_of_same hk h
  revert hsame
  cases k <;> cases kind <;> decide

theorem nodeIdWord?_eq_some {t : Token} :
    nodeIdWord? t = some () ↔ ∃ n, t = .word n ∧ sameWord n nodeIdField := by
  cases t <;> simp [nodeIdWord?]

theorem comparison?_eq_some {ts : List Lexeme} {c : Comparison} :
    comparison? ts = some c ↔ ∃ t rest, ts = t :: rest ∧ t.token = .comparison c := by
  constructor
  · intro h
    unfold comparison? at h
    split at h
    · cases h
      exact ⟨_, _, rfl, rfl⟩
    · cases h
  · rintro ⟨⟨token, start, stop⟩, rest, rfl, rfl⟩
    rfl

theorem atLeftParen_iff {ts : List Lexeme} :
    atLeftParen ts ↔ ∃ t rest, ts = t :: rest ∧ t.token = .leftParen := by
  cases ts with
  | nil => simp [atLeftParen]
  | cons t ts => simp [atLeftParen]

theorem atKeyword_iff {k : Keyword} {ts : List Lexeme} :
    atKeyword k ts ↔ ∃ t rest, ts = t :: rest ∧ t.token.isKeyword k := by
  cases ts with
  | nil => simp [atKeyword]
  | cons t ts => simp [atKeyword]

/-! ## Relations -/

theorem sound_relationArgument {kind : Relation} {ts rest : List Lexeme} {c : Condition}
    (h : relationArgument kind ts = .ok (c, rest)) :
    ∃ used, ts = used ++ rest ∧
      ∀ w, sameWord w kind.name → Grammar.Condition (.word w :: tokens used) c := by
  obtain ⟨_, mid₁, hopen, h₁⟩ := Reader.bind_eq_ok.1 h
  obtain ⟨_, mid₂, hname, h₂⟩ := Reader.bind_eq_ok.1 h₁
  obtain ⟨_, mid₃, hequals, h₃⟩ := Reader.bind_eq_ok.1 h₂
  obtain ⟨id, mid₄, hid, h₄⟩ := Reader.bind_eq_ok.1 h₃
  obtain ⟨_, mid₅, hclose, hpure⟩ := Reader.bind_eq_ok.1 h₄
  cases hpure
  obtain ⟨l, rfl, hl⟩ := Reader.sign_eq_ok.1 hopen
  obtain ⟨n, rfl, hn⟩ := Reader.item_eq_ok.1 hname
  obtain ⟨e, rfl, he⟩ := Reader.sign_eq_ok.1 hequals
  obtain ⟨i, rfl, hi⟩ := Reader.item_eq_ok.1 hid
  obtain ⟨r, rfl, hr⟩ := Reader.sign_eq_ok.1 hclose
  obtain ⟨word, hn, hword⟩ := nodeIdWord?_eq_some.1 hn
  refine ⟨[l, n, e, i, r], rfl, fun w hw => ?_⟩
  simp only [tokens_cons, tokens_nil, hl, hn, he, hr]
  exact .relation kind hw hword ((accepts_string _ _).1 hi)

theorem complete_relationArgument {kind : Relation} {l n e i r : Lexeme} {id : String}
    (hl : l.token = .leftParen) (hn : nodeIdWord? n.token = some ()) (he : e.token = .comparison .eq)
    (hi : string? i.token = some id) (hr : r.token = .rightParen) (rest : List Lexeme) :
    relationArgument kind (l :: n :: e :: i :: r :: rest) = .ok (.ofRelation kind id, rest) := by
  show (Reader.sign .leftParen .missingLeftParen >>= _) _ = _
  rw [Reader.bind_of_ok (Reader.sign_cons hl _), Reader.bind_of_ok (Reader.item_cons hn _),
    Reader.bind_of_ok (Reader.sign_cons he _), Reader.bind_of_ok (Reader.item_cons hi _),
    Reader.bind_of_ok (Reader.sign_cons hr _)]
  rfl

/-! ## The operator and right-hand side -/

/-- The items of `IN`: one, or a list of them in parentheses. -/
theorem sound_inItems {ts rest : List Lexeme} {items : List String}
    (h : inItems ts = .ok (items, rest)) :
    ∃ used, ts = used ++ rest ∧
      ((∃ t s, tokens used = [t] ∧ Item t s ∧ items = [s]) ∨
        ∃ us, tokens used = .leftParen :: (us ++ [.rightParen]) ∧ Separated Item us items) := by
  unfold inItems at h
  rw [Reader.ahead_bind] at h
  split at h
  · next hparen =>
    obtain ⟨l, mid, rfl, hl⟩ := atLeftParen_iff.1 hparen
    rw [Reader.advance_bind] at h
    obtain ⟨found, mid₁, hitems, h₁⟩ := Reader.bind_eq_ok.1 h
    obtain ⟨_, mid₂, hclose, hpure⟩ := Reader.bind_eq_ok.1 h₁
    cases hpure
    obtain ⟨used, hused, hsep⟩ := sound_items accepts_string hitems
    obtain ⟨r, rfl, hr⟩ := Reader.sign_eq_ok.1 hclose
    refine ⟨l :: (used ++ [r]), ?_, .inr ⟨tokens used, ?_, hsep⟩⟩
    · simp only [List.tail_cons] at hused
      simp [hused]
    · simp [hl, hr]
  · obtain ⟨s, mid, hitem, hpure⟩ := Reader.bind_eq_ok.1 h
    cases hpure
    obtain ⟨t, rfl, ht⟩ := Reader.item_eq_ok.1 hitem
    exact ⟨[t], rfl, .inl ⟨t.token, s, rfl, (accepts_string _ _).1 ht, rfl⟩⟩

theorem complete_inItems_single {t : Lexeme} {s : String} (h : Item t.token s) (rest : List Lexeme) :
    inItems (t :: rest) = .ok ([s], rest) := by
  have hparen : ¬ atLeftParen (t :: rest) := by
    rw [atLeftParen_iff]
    rintro ⟨_, _, heq, htoken⟩
    cases heq
    rw [htoken] at h
    cases h with
    | word hname => cases hname
  unfold inItems
  rw [Reader.ahead_bind, if_neg hparen,
    Reader.bind_of_ok (Reader.item_cons ((accepts_string _ _).2 h) rest)]
  rfl

theorem complete_inItems_list {l r : Lexeme} {used : List Lexeme} {items : List String}
    (hl : l.token = .leftParen) (h : Separated Item (tokens used) items) (hr : r.token = .rightParen)
    (rest : List Lexeme) : inItems (l :: (used ++ r :: rest)) = .ok (items, rest) := by
  have hparen : atLeftParen (l :: (used ++ r :: rest)) := atLeftParen_iff.2 ⟨_, _, rfl, hl⟩
  have hstop : NoComma (r :: rest) := by
    intro t ht
    cases ht
    simp [hr]
  have hitems : Reader.items string? .missingString (used ++ r :: rest) = .ok (items, r :: rest) :=
    complete_items accepts_string h hstop
  unfold inItems
  rw [Reader.ahead_bind, if_pos hparen, Reader.advance_bind, List.tail_cons, Reader.bind_of_ok hitems,
    Reader.bind_of_ok (Reader.sign_cons hr rest)]
  rfl

/-- The operator and right-hand side of a condition, behind its field. -/
theorem sound_comparisonOn {field : String} {ts rest : List Lexeme} {c : Condition}
    (h : comparisonOn field ts = .ok (c, rest)) :
    ∃ used, ts = used ++ rest ∧
      ∀ f, Name [.and] f field → Grammar.Condition (f :: tokens used) c := by
  unfold comparisonOn at h
  rw [Reader.ahead_bind] at h
  cases hsymbol : comparison? ts with
  | some symbol =>
    simp only [hsymbol] at h
    obtain ⟨o, mid, rfl, ho⟩ := comparison?_eq_some.1 hsymbol
    rw [Reader.advance_bind] at h
    obtain ⟨value, mid₁, hvalue, hpure⟩ := Reader.bind_eq_ok.1 h
    cases hpure
    obtain ⟨t, ht, hliteral⟩ := Reader.item_eq_ok.1 hvalue
    refine ⟨[o, t], by simp_all, fun f hf => ?_⟩
    simp only [tokens_cons, tokens_nil, ho]
    exact .comparison symbol hf ((accepts_literal _ _).1 hliteral)
  | none =>
    simp only [hsymbol] at h
    split at h
    · next hin =>
      obtain ⟨k, mid, rfl, hk⟩ := atKeyword_iff.1 hin
      rw [Reader.advance_bind] at h
      obtain ⟨found, mid₁, hitems, hpure⟩ := Reader.bind_eq_ok.1 h
      cases hpure
      obtain ⟨used, hused, hshape⟩ := sound_inItems hitems
      refine ⟨k :: used, by simp_all, fun f hf => ?_⟩
      rw [tokens_cons]
      rcases hshape with ⟨t, s, htokens, hitem, rfl⟩ | ⟨us, htokens, hsep⟩
      · rw [htokens]
        exact .isIn hf hk hitem
      · rw [htokens]
        exact .isInList hf hk hsep
    · split at h
      · next hcontains =>
        obtain ⟨k, mid, rfl, hk⟩ := atKeyword_iff.1 hcontains
        rw [Reader.advance_bind] at h
        obtain ⟨needle, mid₁, hneedle, hpure⟩ := Reader.bind_eq_ok.1 h
        cases hpure
        obtain ⟨t, ht, hstring⟩ := Reader.item_eq_ok.1 hneedle
        refine ⟨[k, t], by simp_all, fun f hf => ?_⟩
        exact .contains hf hk ((accepts_string _ _).1 hstring)
      · cases h

theorem complete_comparisonOn_comparison {field : String} {o t : Lexeme} {c : Comparison}
    {value : Literal} (ho : o.token = .comparison c) (ht : Value t.token value) (rest : List Lexeme) :
    comparisonOn field (o :: t :: rest) = .ok (⟨field, .compare c, value⟩, rest) := by
  have hsymbol : comparison? (o :: t :: rest) = some c := comparison?_eq_some.2 ⟨o, _, rfl, ho⟩
  unfold comparisonOn
  rw [Reader.ahead_bind]
  simp only [hsymbol]
  rw [Reader.advance_bind, List.tail_cons,
    Reader.bind_of_ok (Reader.item_cons ((accepts_literal _ _).2 ht) rest)]
  rfl

theorem comparison?_word {t : Lexeme} {k : Keyword} (h : t.token.isKeyword k) (rest : List Lexeme) :
    comparison? (t :: rest) = none := by
  obtain ⟨token, start, stop⟩ := t
  cases token with
  | word w => rfl
  | quoted | comparison | leftParen | rightParen | comma => cases h

theorem complete_comparisonOn_isIn {field : String} {k : Lexeme} {ts rest : List Lexeme}
    {items : List String} (hk : k.token.isKeyword .isIn) (h : inItems ts = .ok (items, rest)) :
    comparisonOn field (k :: ts) = .ok (⟨field, .isIn, .list items⟩, rest) := by
  unfold comparisonOn
  rw [Reader.ahead_bind]
  simp only [comparison?_word hk]
  rw [if_pos (atKeyword_iff.2 ⟨k, ts, rfl, hk⟩), Reader.advance_bind, List.tail_cons,
    Reader.bind_of_ok h]
  rfl

theorem complete_comparisonOn_contains {field s : String} {k t : Lexeme}
    (hk : k.token.isKeyword .contains) (ht : Item t.token s) (rest : List Lexeme) :
    comparisonOn field (k :: t :: rest) = .ok (⟨field, .contains, .text s⟩, rest) := by
  have hin : ¬ atKeyword .isIn (k :: t :: rest) := not_isKeyword hk (by decide)
  unfold comparisonOn
  rw [Reader.ahead_bind]
  simp only [comparison?_word hk]
  rw [if_neg hin, if_pos (atKeyword_iff.2 ⟨k, _, rfl, hk⟩), Reader.advance_bind, List.tail_cons,
    Reader.bind_of_ok (Reader.item_cons ((accepts_string _ _).2 ht) rest)]
  rfl

/-! ## A whole condition -/

/-- The name of a relation before a parenthesis opens a relation. -/
theorem condition_relation {f : Lexeme} {field : String} {kind : Relation} {ts : List Lexeme}
    (hf : Name [.and] f.token field) (hkind : Relation.named? field = some kind)
    (hparen : atLeftParen ts) : condition (f :: ts) = relationArgument kind ts := by
  show (Reader.item conditionField? .missingConditionField >>= _) (f :: ts) = _
  rw [Reader.bind_of_ok (Reader.item_cons ((accepts_conditionField _ _).2 hf) ts), Reader.ahead_bind]
  simp only [hkind, hparen]

/-- Any other word is the field of a comparison. -/
theorem condition_comparison {f : Lexeme} {field : String} {ts : List Lexeme}
    (hf : Name [.and] f.token field) (h : Relation.named? field = none ∨ atLeftParen ts = false) :
    condition (f :: ts) = comparisonOn field ts := by
  show (Reader.item conditionField? .missingConditionField >>= _) (f :: ts) = _
  rw [Reader.bind_of_ok (Reader.item_cons ((accepts_conditionField _ _).2 hf) ts), Reader.ahead_bind]
  rcases h with h | h
  · simp only [h]
  · cases hkind : Relation.named? field <;> simp only [h]

/-- A field wants an operator behind it. -/
theorem condition_no_operator {f t : Lexeme} {field : String} (hf : Name [.and] f.token field)
    (hnone : Relation.named? field = none) (hsymbol : ∀ c, t.token ≠ .comparison c)
    (hin : t.token.isKeyword .isIn = false) (hcontains : t.token.isKeyword .contains = false) (rest : List Lexeme) :
    condition (f :: t :: rest) = .error ⟨.missingOperator, t :: rest⟩ := by
  have hnothing : comparison? (t :: rest) = none := by
    rw [Option.eq_none_iff_forall_ne_some]
    intro c hc
    obtain ⟨_, _, heq, ht⟩ := comparison?_eq_some.1 hc
    cases heq
    exact hsymbol c ht
  have hno : ¬ atKeyword .isIn (t :: rest) := Bool.eq_false_iff.1 hin
  have hno' : ¬ atKeyword .contains (t :: rest) := Bool.eq_false_iff.1 hcontains
  rw [condition_comparison hf (.inl hnone)]
  unfold comparisonOn
  rw [Reader.ahead_bind]
  simp only [hnothing]
  rw [if_neg hno, if_neg hno']
  rfl

theorem sound_condition {ts rest : List Lexeme} {c : Condition} (h : condition ts = .ok (c, rest)) :
    ∃ used, ts = used ++ rest ∧ Grammar.Condition (tokens used) c := by
  obtain ⟨field, mid, hfield, -⟩ := Reader.bind_eq_ok.1 h
  obtain ⟨f, rfl, hf⟩ := Reader.item_eq_ok.1 hfield
  have hname : Name [.and] f.token field := (accepts_conditionField _ _).1 hf
  -- a parenthesis decides, but only behind the name of a relation
  by_cases hrelation : ∃ kind, Relation.named? field = some kind ∧ atLeftParen mid
  · obtain ⟨kind, hkind, hparen⟩ := hrelation
    rw [condition_relation hname hkind hparen] at h
    obtain ⟨used, rfl, hused⟩ := sound_relationArgument h
    refine ⟨f :: used, rfl, ?_⟩
    rw [tokens_cons, (name_iff.1 hname).1]
    exact hused field (named?_eq_some.1 hkind)
  · have hother : Relation.named? field = none ∨ atLeftParen mid = false := by
      cases hkind : Relation.named? field with
      | none => exact .inl rfl
      | some kind => exact .inr (by simpa [hkind] using hrelation)
    rw [condition_comparison hname hother] at h
    obtain ⟨used, rfl, hused⟩ := sound_comparisonOn h
    exact ⟨f :: used, rfl, hused f.token hname⟩

/-- A token that is no opening parenthesis lets a condition be about a field. -/
theorem atLeftParen_cons {t : Lexeme} (h : t.token ≠ .leftParen) (rest : List Lexeme) :
    atLeftParen (t :: rest) = false := by
  simp [atLeftParen, h]

theorem isKeyword_ne_leftParen {t : Token} {k : Keyword} (h : t.isKeyword k) : t ≠ .leftParen := by
  rintro rfl
  cases h

theorem complete_condition {used rest : List Lexeme} {c : Condition}
    (h : Grammar.Condition (tokens used) c) : condition (used ++ rest) = .ok (c, rest) := by
  generalize htokens : tokens used = us at h
  cases h with
  | comparison symbol hf ht =>
    obtain ⟨f, o, ms, rfl, rfl, ho, hms⟩ := tokens_eq_cons_cons.1 htokens
    obtain ⟨t, ns, rfl, rfl, hns⟩ := tokens_eq_cons.1 hms
    obtain rfl := tokens_eq_nil.1 hns
    show condition (f :: o :: t :: rest) = _
    rw [condition_comparison hf (.inr (atLeftParen_cons (by simp [ho]) _))]
    exact complete_comparisonOn_comparison ho ht rest
  | isIn hf hk ht =>
    obtain ⟨f, k, ms, rfl, rfl, rfl, hms⟩ := tokens_eq_cons_cons.1 htokens
    obtain ⟨t, ns, rfl, rfl, hns⟩ := tokens_eq_cons.1 hms
    obtain rfl := tokens_eq_nil.1 hns
    show condition (f :: k :: t :: rest) = _
    rw [condition_comparison hf (.inr (atLeftParen_cons (isKeyword_ne_leftParen hk) _))]
    exact complete_comparisonOn_isIn hk (complete_inItems_single ht rest)
  | isInList hf hk hitems =>
    obtain ⟨f, k, ms, rfl, rfl, rfl, hms⟩ := tokens_eq_cons_cons.1 htokens
    obtain ⟨l, ns, rfl, hl, hns⟩ := tokens_eq_cons.1 hms
    obtain ⟨xs, ys, rfl, rfl, hys⟩ := tokens_eq_append.1 hns
    obtain ⟨r, zs, rfl, hr, hzs⟩ := tokens_eq_cons.1 hys
    obtain rfl := tokens_eq_nil.1 hzs
    have hshape : f :: k :: l :: (xs ++ [r]) ++ rest = f :: k :: l :: (xs ++ r :: rest) := by simp
    rw [hshape, condition_comparison hf (.inr (atLeftParen_cons (isKeyword_ne_leftParen hk) _))]
    exact complete_comparisonOn_isIn hk (complete_inItems_list hl hitems hr rest)
  | contains hf hk ht =>
    obtain ⟨f, k, ms, rfl, rfl, rfl, hms⟩ := tokens_eq_cons_cons.1 htokens
    obtain ⟨t, ns, rfl, rfl, hns⟩ := tokens_eq_cons.1 hms
    obtain rfl := tokens_eq_nil.1 hns
    show condition (f :: k :: t :: rest) = _
    rw [condition_comparison hf (.inr (atLeftParen_cons (isKeyword_ne_leftParen hk) _))]
    exact complete_comparisonOn_contains hk ht rest
  | relation kind hw hn ht =>
    obtain ⟨f, l, ms, rfl, hf, hl, hms⟩ := tokens_eq_cons_cons.1 htokens
    obtain ⟨n, e, ps, rfl, hname, he, hps⟩ := tokens_eq_cons_cons.1 hms
    obtain ⟨i, r, rs, rfl, rfl, hr, hrs⟩ := tokens_eq_cons_cons.1 hps
    obtain rfl := tokens_eq_nil.1 hrs
    -- the name of a relation is read as a field first
    have hfield : Name [.and] f.token _ := name_iff.2 ⟨hf, fun _ _ => not_isSpelled_of_relation hw⟩
    show condition (f :: l :: n :: e :: i :: r :: rest) = _
    rw [condition_relation hfield (named?_eq_some.2 hw) (atLeftParen_iff.2 ⟨l, _, rfl, hl⟩)]
    exact complete_relationArgument hl (nodeIdWord?_eq_some.2 ⟨_, hname, hn⟩) he
      ((accepts_string _ _).2 ht) hr rest

end EvidenceGraph.Query
