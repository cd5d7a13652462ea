/-
# `EvidenceGraph.Proofs.Query.Groups` — what becomes of a group in parentheses.

Behind `WHERE` stands one group: a word, or a word and `IN`, and tokens in parentheses. Skipping counts
parentheses, but only from the lexeme at which reading has failed. So a group is one unit as long as its
parenthesis is still to come when that happens, which is the case behind the field of a condition. A relation and a
list take the parenthesis first; if they fail behind it, skipping no longer knows that it is inside of a group, and
stops at an `AND` there. Main statement: `group_unit_or_cut`.
-/
import EvidenceGraph.Proofs.Query.Recovery
import EvidenceGraph.Proofs.Query.Tails

namespace EvidenceGraph.Query

open EvidenceGraph.Text Grammar

/-! ## Heads of groups -/

/-- What stands before the parenthesis of a group, and whether reading a condition takes this parenthesis. Behind
the name of a relation and behind `IN` it does; the field of any other condition has to be followed by an
operator. -/
inductive GroupHead : List Token → Bool → Prop
  | field {f : Token} {w : String} : Name [.and] f w → Relation.named? w = none → GroupHead [f] false
  | relation {f : Token} {w : String} {kind : Relation} :
      Name [.and] f w → Relation.named? w = some kind → GroupHead [f] true
  | isIn {f k : Token} {w : String} : Name [.and] f w → k.isKeyword .isIn → GroupHead [f, k] true

/-- A reader that has taken some lexemes goes on with what is behind them. -/
theorem Reader.left_bind {α β : Type} {r : Reader α} {next : α → Reader β} {ts rest : List Lexeme}
    (h : left (r ts) <:+ rest) (hnext : ∀ a, Forward (next a)) : left ((r >>= next) ts) <:+ rest := by
  cases hread : r ts with
  | error found =>
    rw [bind_of_error hread]
    rwa [hread] at h
  | ok read =>
    obtain ⟨a, mid⟩ := read
    rw [bind_of_ok hread]
    rw [hread] at h
    exact (hnext a mid).trans h

section Group

open Reader

variable {text : List Char} {head inside : List Lexeme} {l r : Lexeme}

/-- The argument of a relation takes the parenthesis, whatever comes then. -/
theorem left_relationArgument (kind : Relation) (hl : l.token = .leftParen) (rest : List Lexeme) :
    left (relationArgument kind (l :: rest)) <:+ rest := by
  have hopen : left (sign .leftParen .missingLeftParen (l :: rest)) <:+ rest := by
    rw [sign_cons hl rest]
    exact List.suffix_rfl
  exact left_bind hopen fun _ => forward_bind (forward_item _ _) fun _ => forward_bind (forward_item _ _) fun _ =>
    forward_bind (forward_item _ _) fun _ => forward_bind (forward_item _ _) fun _ => forward_pure _

/-- So does a list. -/
theorem left_inItems (hl : l.token = .leftParen) (rest : List Lexeme) : left (inItems (l :: rest)) <:+ rest := by
  have hparen : atLeftParen (l :: rest) := atLeftParen_iff.2 ⟨l, rest, rfl, hl⟩
  unfold inItems
  rw [ahead_bind, if_pos hparen, advance_bind]
  exact forward_bind (forward_items _ _) (fun _ => forward_bind (forward_item _ _) fun _ => forward_pure _) rest

/-- A relation and a list take their parenthesis. -/
theorem left_condition_opened (hhead : GroupHead (tokens head) true) (hl : l.token = .leftParen)
    (rest : List Lexeme) : left (condition (head ++ l :: rest)) <:+ rest := by
  generalize hhead' : tokens head = ts at hhead
  cases hhead with
  | @relation _ w kind hname hkind =>
    obtain ⟨f, rfl, rfl⟩ := tokens_eq_singleton.1 hhead'
    show left (condition (f :: l :: rest)) <:+ rest
    rw [condition_relation hname hkind (atLeftParen_iff.2 ⟨l, rest, rfl, hl⟩)]
    exact left_relationArgument kind hl rest
  | @isIn _ _ w hname hin =>
    obtain ⟨f, k, ls, rfl, rfl, rfl, hls⟩ := tokens_eq_cons_cons.1 hhead'
    obtain rfl := tokens_eq_nil.1 hls
    show left (condition (f :: k :: l :: rest)) <:+ rest
    rw [condition_comparison hname (.inr (atLeftParen_cons (isKeyword_ne_leftParen hin) _))]
    unfold comparisonOn
    rw [ahead_bind]
    simp only [comparison?_word hin]
    rw [if_pos (atKeyword_iff.2 ⟨k, l :: rest, rfl, hin⟩), advance_bind, List.tail_cons]
    exact left_bind (left_inItems hl rest) fun _ => forward_pure _

/-- A field wants an operator, and leaves the parenthesis where it is. -/
theorem condition_field (hhead : GroupHead (tokens head) false) (hl : l.token = .leftParen) (rest : List Lexeme) :
    condition (head ++ l :: rest) = .error ⟨.missingOperator, l :: rest⟩ := by
  generalize hhead' : tokens head = ts at hhead
  cases hhead with
  | @field _ w hname hnone =>
    obtain ⟨f, rfl, rfl⟩ := tokens_eq_singleton.1 hhead'
    exact condition_no_operator hname hnone (by simp [hl]) (by rw [hl]; rfl) (by rw [hl]; rfl) rest

/-- No clause starts at a relation or a list. -/
theorem opened_not_atTailClause (hhead : GroupHead (tokens head) true) (rest : List Lexeme) :
    ¬ atTailClause (head ++ rest) := by
  generalize hhead' : tokens head = ts at hhead
  cases hhead with
  | @relation _ w kind hname hkind =>
    obtain ⟨f, ls, rfl, rfl, -⟩ := tokens_eq_cons.1 hhead'
    have hnone (k : Keyword) : f.token.isKeyword k = false := by
      rw [(name_iff.1 hname).1]
      exact not_isSpelled_of_relation (named?_eq_some.1 hkind)
    rw [List.cons_append, not_atTailClause fun k _ => hnone k]
    exact Bool.false_ne_true
  | isIn hname hin =>
    obtain ⟨f, k, ls, rfl, -, rfl, -⟩ := tokens_eq_cons_cons.1 hhead'
    rw [atTailClause_iff]
    rintro (⟨-, hby⟩ | ⟨-, -, hno, -⟩)
    · exact not_isKeyword hin (by decide) hby
    · exact hno hin

/-! ## Conditions that are the whole group -/

/-- A condition without a parenthesis behind it has three tokens, none of which opens one. -/
theorem condition_flat {ts : List Token} {c : Condition} (h : Grammar.Condition ts c)
    (hflat : Token.rightParen ∉ ts) :
    ∃ f o t, ts = [f, o, t] ∧ o ≠ .leftParen ∧ t ≠ .leftParen := by
  cases h with
  | comparison symbol hf ht =>
    refine ⟨_, _, _, rfl, nofun, ?_⟩
    rintro rfl
    cases ht with
    | word hname => cases hname
  | isIn hf hk ht | contains hf hk ht =>
    refine ⟨_, _, _, rfl, isKeyword_ne_leftParen hk, ?_⟩
    rintro rfl
    cases ht with
    | word hname => cases hname
  | isInList hf hk hitems => simp at hflat
  | relation kind hw hn ht => simp at hflat

/-- Only the last parenthesis of a group closes it. -/
theorem rightParen_not_mem {opened : Bool} (hhead : GroupHead (tokens head) opened)
    (hinside : ∀ t ∈ inside, t.token.Flat) : Token.rightParen ∉ tokens head ++ .leftParen :: tokens inside := by
  have hword {refused : List Keyword} {w : String} : ¬ Name refused .rightParen w := nofun
  rw [List.mem_append, List.mem_cons]
  rintro (hmem | hmem | hmem)
  · generalize tokens head = ts at hhead hmem
    cases hhead with
    | field hname _ | relation hname _ =>
      obtain rfl := List.mem_singleton.1 hmem
      exact hword hname
    | isIn hname hin =>
      simp only [List.mem_cons, List.not_mem_nil, or_false] at hmem
      rcases hmem with rfl | rfl
      · exact hword hname
      · cases hin
  · cases hmem
  · obtain ⟨t, ht, heq⟩ := List.mem_map.1 hmem
    exact (hinside t ht).2 heq

/-- So no condition ends before it. -/
theorem opened_not_condition (hhead : GroupHead (tokens head) true) (hl : l.token = .leftParen)
    (hinside : ∀ t ∈ inside, t.token.Flat) {used rest : List Lexeme} (hused : head ++ l :: inside = used ++ rest)
    (c : Condition) : ¬ Grammar.Condition (tokens used) c := by
  intro hcondition
  have htokens : tokens head ++ .leftParen :: tokens inside = tokens used ++ tokens rest := by
    rw [← tokens_append, ← hused, tokens_append, tokens_cons, hl]
  have hflat : Token.rightParen ∉ tokens used := fun hmem =>
    rightParen_not_mem hhead hinside (htokens ▸ List.mem_append_left _ hmem)
  obtain ⟨f, o, t, hthree, ho, ht⟩ := condition_flat hcondition hflat
  rw [hthree] at htokens
  generalize tokens head = ts at hhead htokens
  -- the parenthesis is the second token of a relation, and the third one of a list
  cases hhead with
  | relation =>
    simp only [List.cons_append, List.nil_append, List.cons.injEq] at htokens
    exact ho htokens.2.1.symm
  | isIn =>
    simp only [List.cons_append, List.nil_append, List.cons.injEq] at htokens
    exact ht htokens.2.2.1.symm

/-- A relation or a list that is read is the whole group. -/
theorem condition_whole (hhead : GroupHead (tokens head) true) (hl : l.token = .leftParen)
    (hinside : ∀ t ∈ inside, t.token.Flat) {c : Condition} {rest : List Lexeme}
    (h : condition (head ++ l :: (inside ++ [r])) = .ok (c, rest)) :
    rest = [] ∧ Grammar.Condition (tokens (head ++ l :: (inside ++ [r]))) c := by
  obtain ⟨used, hused, hcondition⟩ := sound_condition h
  have hshape : head ++ l :: inside ++ [r] = used ++ rest := by
    rw [← hused, List.append_assoc, List.cons_append]
  rcases List.append_eq_append_iff.1 hshape with ⟨mid, hmid, hlast⟩ | ⟨mid, hfront, -⟩
  · cases mid with
    | nil =>
      have hfront : head ++ l :: inside = used ++ [] := by
        rw [hmid, List.append_nil, List.append_nil]
      exact absurd hcondition (opened_not_condition hhead hl hinside hfront c)
    | cons m mid =>
      obtain ⟨-, hnil⟩ := List.append_eq_nil_iff.1 (List.cons.inj hlast).2.symm
      subst hnil
      rw [hused, List.append_nil]
      exact ⟨rfl, hcondition⟩
  · exact absurd hcondition (opened_not_condition hhead hl hinside hfront c)

/-! ## Reading a group -/

/-- The field of a condition before a group: no condition is kept, and the group is reported as a whole. -/
theorem read_field_group (hhead : GroupHead (tokens head) false) (hl : l.token = .leftParen)
    (hinside : ∀ t ∈ inside, t.token.Flat) (hr : r.token = .rightParen) :
    ∃ filter p, conditionList .lenient text (head ++ l :: (inside ++ [r])) = .ok filter ∧
      tailClauses .lenient text 0 { conditions := filter.value } filter.rest = .ok p ∧ filter.value = [] ∧
      ∃ d ∈ filter.reports ++ p.diagnostics, d.fragment = fragment text (head ++ l :: (inside ++ [r])) [] := by
  have hmiss := condition_field hhead hl (inside ++ [r])
  have hskip (stops : List Keyword) : skip stops 0 (l :: (inside ++ [r])) = [] := skip_group hl hinside hr []
  have hend (last : Nat) (q : Query) : tailClauses .lenient text last q [] = .ok ⟨q, []⟩ := by rw [tailClauses]
  by_cases htail : atTailClause (head ++ l :: (inside ++ [r]))
  · -- `LIMIT` and `OFFSET` before a parenthesis are no fields but clauses, and fail as such
    obtain ⟨f, hf, k, hk, hfk⟩ : ∃ f, head = [f] ∧ ∃ k ∈ clauseKeywords, f.token.isKeyword k := by
      generalize hhead' : tokens head = ts at hhead
      cases hhead with
      | field hname _ =>
        obtain ⟨f, rfl, rfl⟩ := tokens_eq_singleton.1 hhead'
        rcases atTailClause_iff.1 htail with ⟨horder, -⟩ | ⟨hlimit | hoffset, -⟩
        · exact ⟨f, rfl, .order, by decide, horder⟩
        · exact ⟨f, rfl, .limit, by decide, hlimit⟩
        · exact ⟨f, rfl, .offset, by decide, hoffset⟩
    subst hf
    have hfresh : Fresh (l :: (inside ++ [r])) := by
      rintro t ⟨⟩
      rw [hl]
      exact ⟨rfl, fun k _ => rfl⟩
    obtain ⟨fault, hclause⟩ := hfresh.miss hk hfk
    have hlater := tailClauses_miss text 0 { conditions := [] } hclause (by simp [hskip])
    rw [hskip, hend] at hlater
    have hfilter := conditionList_missing text (.inr htail)
    exact ⟨_, _, hfilter, hlater, rfl, _, List.mem_append_right _ List.mem_cons_self, rfl⟩
  · have hne : head ++ l :: (inside ++ [r]) ≠ [] := by simp
    have hfilter := conditionList_miss text ⟨hne, htail⟩ (boundedCondition_miss hmiss)
    rw [hskip] at hfilter
    exact ⟨_, _, hfilter, hend 0 _, rfl, _, List.mem_append_left _ List.mem_cons_self, rfl⟩

/-- A relation or a list without `AND` in it: it is a condition and nothing else, or no condition is kept. -/
theorem read_opened_group (hhead : GroupHead (tokens head) true) (hl : l.token = .leftParen)
    (hinside : ∀ t ∈ inside, t.token.Flat) (hr : r.token = .rightParen) (hand : Lacks .and inside) :
    (∃ c, Grammar.Condition (tokens (head ++ l :: (inside ++ [r]))) c ∧
        conditionList .lenient text (head ++ l :: (inside ++ [r])) = .ok ⟨[c], [], []⟩) ∨
      ∃ reports rest, conditionList .lenient text (head ++ l :: (inside ++ [r])) = .ok ⟨[], reports, rest⟩ := by
  cases hread : condition (head ++ l :: (inside ++ [r])) with
  | ok read =>
    obtain ⟨c, rest⟩ := read
    obtain ⟨-, hcondition⟩ := condition_whole hhead hl hinside hread
    have hlist : conditionList .lenient text (head ++ l :: (inside ++ [r]) ++ []) = .ok ⟨[c], [], []⟩ :=
      complete_conditionList (.last hcondition) (.inl rfl)
    rw [List.append_nil] at hlist
    exact .inl ⟨c, hcondition, hlist⟩
  | error found =>
    obtain ⟨fault, gap⟩ := found
    have hgap : gap <:+ inside ++ [r] := by
      have hleft := left_condition_opened hhead hl (inside ++ [r])
      rwa [hread] at hleft
    have hlacks : Lacks .and (inside ++ [r]) := by
      intro t ht
      rcases List.mem_append.1 ht with ht | ht
      · exact hand t ht
      · rw [List.mem_singleton.1 ht, hr]
        rfl
    have hstop : atKeyword .and (skip [.and] 0 gap) = false := by
      cases hskip : skip [.and] 0 gap with
      | nil => rfl
      | cons t ts =>
        have hmem : t ∈ skip [.and] 0 gap := hskip ▸ List.mem_cons_self
        exact hlacks t (hgap.mem ((skip_suffix [.and] 0 gap).mem hmem))
    have hne : head ++ l :: (inside ++ [r]) ≠ [] := by simp
    have hmissed := conditionList_miss text ⟨hne, opened_not_atTailClause hhead _⟩ (boundedCondition_miss hread)
    rw [hstop, if_neg Bool.false_ne_true] at hmissed
    exact .inr ⟨_, _, hmissed⟩

theorem GroupHead.lacks_and {opened : Bool} (hhead : GroupHead (tokens head) opened) : Lacks .and head := by
  have hname {f : Token} {w : String} (h : Name [.and] f w) : f.isKeyword .and = false := by
    obtain ⟨rfl, hand⟩ := name_iff.1 h
    exact hand .and List.mem_cons_self
  intro t ht
  have hmem : t.token ∈ tokens head := List.mem_map_of_mem ht
  generalize tokens head = ts at hhead hmem
  cases hhead with
  | field h _ | relation h _ =>
    rw [List.mem_singleton.1 hmem]
    exact hname h
  | isIn h hin =>
    simp only [List.mem_cons, List.not_mem_nil, or_false] at hmem
    rcases hmem with heq | heq
    · rw [heq]
      exact hname h
    · rw [heq]
      exact Bool.eq_false_iff.2 (not_isKeyword hin (by decide))

theorem GroupHead.lacks_and_before {opened : Bool} {front : List Lexeme} (hhead : GroupHead (tokens head) opened)
    (hl : l.token = .leftParen) (hfront : Lacks .and front) : Lacks .and (head ++ l :: front) := by
  intro t ht
  rcases List.mem_append.1 ht with ht | ht
  · exact hhead.lacks_and t ht
  · rcases List.mem_cons.1 ht with rfl | ht
    · rw [hl]
      rfl
    · exact hfront t ht

section Cut

variable {front behind : List Lexeme} (hhead : GroupHead (tokens head) true) (hl : l.token = .leftParen)
  (hinside : ∀ t ∈ front ++ behind, t.token.Flat) (hlacks : Lacks .and front) (hand : atKeyword .and behind)

include hhead hl hinside hlacks hand

/-- Reading of a relation or a list with `AND` in it fails before `AND`. -/
theorem condition_cut (r : Lexeme) :
    ∃ fault gap, gap <:+ front ∧
      condition (head ++ l :: (front ++ behind ++ [r])) = .error ⟨fault, gap ++ (behind ++ [r])⟩ := by
  have hbefore : Lacks .and (head ++ l :: front) := hhead.lacks_and_before hl hlacks
  obtain ⟨a, more, rfl, ha⟩ := atKeyword_iff.1 hand
  have hleads : Leads .and (a :: more ++ [r]) := by
    rintro t ⟨⟩
    exact ha
  have hshape : head ++ l :: (front ++ a :: more ++ [r]) = head ++ l :: front ++ (a :: more ++ [r]) := by simp
  -- `AND` is not taken, so what was read is not the whole group
  obtain ⟨gap, -, hleft⟩ := spares_condition _ _ hbefore hleads
  rw [← hshape] at hleft
  cases hread : condition (head ++ l :: (front ++ a :: more ++ [r])) with
  | ok read =>
    obtain ⟨c, rest⟩ := read
    obtain ⟨hnil, -⟩ := condition_whole hhead hl hinside hread
    rw [hread, left, hnil] at hleft
    cases (List.append_eq_nil_iff.1 hleft.symm).2
  | error found =>
    obtain ⟨fault, rest⟩ := found
    rw [hread] at hleft
    obtain rfl : rest = gap ++ (a :: more ++ [r]) := hleft
    obtain ⟨pre, hpre⟩ : gap ++ (a :: more ++ [r]) <:+ front ++ a :: more ++ [r] := by
      have hopened := left_condition_opened hhead hl (front ++ a :: more ++ [r])
      rwa [hread] at hopened
    rw [List.append_assoc front, ← List.append_assoc] at hpre
    exact ⟨fault, gap, ⟨pre, List.append_cancel_right hpre⟩, rfl⟩

/-- So it is cut there, or before it where a clause starts. -/
theorem read_cut_group (text : List Char) (r : Lexeme) :
    ∃ pre post fault, front = pre ++ post ∧
      conditionList .lenient text (head ++ l :: (front ++ behind ++ [r])) =
        (if atKeyword .and (post ++ (behind ++ [r])) then
          conditionList .lenient text (post ++ (behind ++ [r])).tail
        else .ok ⟨[], [], post ++ (behind ++ [r])⟩).map fun later =>
          ⟨later.value, ⟨fragment text (head ++ l :: (front ++ behind ++ [r])) (post ++ (behind ++ [r])), fault⟩ ::
            later.reports, later.rest⟩ := by
  obtain ⟨fault, gap, hgap, hmiss⟩ := condition_cut hhead hl hinside hlacks hand r
  have hflat : ∀ t ∈ gap, t.token.Flat := fun t ht => hinside t (List.mem_append_left behind (hgap.mem ht))
  have hstop : skip [.and] 0 (behind ++ [r]) = behind ++ [r] := by
    obtain ⟨a, more, rfl, ha⟩ := atKeyword_iff.1 hand
    exact skip_keyword List.mem_cons_self ha
  obtain ⟨post, hpost, hskip⟩ := skip_to (depthBehind_flat (forall_mem_tokens.2 hflat) 0) hstop
  obtain ⟨pre, hpre⟩ := hpost.trans hgap
  have hne : head ++ l :: (front ++ behind ++ [r]) ≠ [] := by simp
  have hmissed := conditionList_miss text ⟨hne, opened_not_atTailClause hhead _⟩ (boundedCondition_miss hmiss)
  rw [hskip] at hmissed
  exact ⟨pre, post, fault, hpre.symm, hmissed⟩

end Cut

end Group

/-! ## Whole texts -/

/-- What becomes of a group that is one unit: it is a condition, the only one, and nothing is reported, or no
condition is kept. -/
def OneUnit (group : List Lexeme) (p : Parsed) : Prop :=
  (∃ c, Grammar.Condition (tokens group) c ∧ p = ⟨{ conditions := [c] }, []⟩) ∨ p.query.conditions = []

/-- What becomes of a group that is cut: the first report shows only what stands before some lexeme of it, no `AND`
among this, and if this lexeme is `AND` then what is left of the group is read as conditions. -/
def Cut (text : List Char) (group : List Lexeme) (p : Parsed) : Prop :=
  ∃ front behind, group = front ++ behind ∧ behind ≠ [] ∧ Lacks .and front ∧
    (∃ fault later, p.diagnostics = ⟨fragment text group behind, fault⟩ :: later) ∧
    ∃ later, (if atKeyword .and behind then conditionList .lenient text behind.tail else .ok ⟨[], [], behind⟩) =
      .ok later ∧ p.query.conditions = later.value

/-- The conditions of a group, and then the clauses behind it. -/
theorem parse_of_filter {source : String} {opening group : List Lexeme} {filter : Settled (List Condition)}
    {p : Parsed} (hlex : lex (trimmed source) = ⟨opening ++ group, none⟩)
    (hopening : tokens opening = everything ++ [.word "WHERE"])
    (hfilter : conditionList .lenient (trimmed source) group = .ok filter)
    (hlater : tailClauses .lenient (trimmed source) 0 { conditions := filter.value } filter.rest = .ok p) :
    parse source = ⟨p.query, filter.reports ++ p.diagnostics⟩ := by
  have hne : opening ++ group ≠ [] := by
    intro hnil
    rw [(List.append_eq_nil_iff.1 hnil).1] at hopening
    cases hopening
  refine parse_of_clauses hlex hne ?_
  rw [clauses_opening hopening, hfilter]
  show Except.map _ (tailClauses .lenient (trimmed source) 0 { conditions := filter.value } filter.rest) = _
  rw [hlater]
  rfl

/-- Let a text select everything under a group, which has no parentheses inside, and let no quote be left open. If
the parenthesis is not taken when a condition is read, or if there is no `AND` in the group, then the group is one
unit, and in the first case it is reported as a whole. Otherwise it is cut. -/
theorem group_unit_or_cut {source : String} {opening group : List Lexeme} {head ts : List Token} {opened : Bool}
    (hlex : lex (trimmed source) = ⟨opening ++ group, none⟩)
    (hopening : tokens opening = everything ++ [.word "WHERE"])
    (hgroup : tokens group = head ++ .leftParen :: (ts ++ [.rightParen])) (hhead : GroupHead head opened)
    (hts : ∀ t ∈ ts, t.Flat) :
    ((opened → ∀ t ∈ ts, t.isKeyword .and = false) →
        OneUnit group (parse source) ∧
          (opened = false → ∃ d ∈ (parse source).diagnostics, d.fragment = fragment (trimmed source) group [])) ∧
      (opened → (∃ t ∈ ts, t.isKeyword .and) → Cut (trimmed source) group (parse source)) := by
  obtain ⟨hs, ms, rfl, rfl, hms⟩ := tokens_eq_append.1 hgroup
  obtain ⟨l, ns, rfl, hl, hns⟩ := tokens_eq_cons.1 hms
  obtain ⟨inside, rs, rfl, rfl, hrs⟩ := tokens_eq_append.1 hns
  obtain ⟨r, rfl, hr⟩ := tokens_eq_singleton.1 hrs
  have hinside : ∀ t ∈ inside, t.token.Flat := forall_mem_tokens.1 hts
  constructor
  · intro hands
    cases opened with
    | false =>
      obtain ⟨filter, p, hfilter, hlater, hvalue, hreport⟩ := read_field_group hhead hl hinside hr
      rw [parse_of_filter hlex hopening hfilter hlater]
      refine ⟨.inr ?_, fun _ => hreport⟩
      rw [tailClauses_keeps hlater, hvalue]
    | true =>
      refine ⟨?_, nofun⟩
      have hand : Lacks .and inside := forall_mem_tokens.1 (hands rfl)
      rcases read_opened_group hhead hl hinside hr hand with ⟨c, hc, hfilter⟩ | ⟨reports, rest, hfilter⟩
      · refine .inl ⟨c, hc, ?_⟩
        rw [parse_of_filter hlex hopening hfilter (by rw [tailClauses])]
        rfl
      · obtain ⟨p, hlater, hkept⟩ := exists_tailClauses (trimmed source) 0 { conditions := [] } rest
        rw [parse_of_filter hlex hopening hfilter hlater]
        exact .inr hkept
  · rintro rfl hand
    have hand' : ∃ t ∈ inside, t.token.isKeyword .and := by
      obtain ⟨t, ht, ha⟩ := hand
      obtain ⟨u, hu, rfl⟩ := List.mem_map.1 ht
      exact ⟨u, hu, ha⟩
    obtain ⟨front, behind, rfl, hlacks, hfirst⟩ := exists_first_keyword hand'
    obtain ⟨pre, post, fault, rfl, hlist⟩ := read_cut_group hhead hl hinside hlacks hfirst (trimmed source) r
    obtain ⟨found, hfound⟩ := (conditionList_agrees (trimmed source) _).lenient_ok
    obtain ⟨p, hlater, hkept⟩ := exists_tailClauses (trimmed source) 0 { conditions := found.value } found.rest
    rw [parse_of_filter hlex hopening hfound hlater]
    rw [hlist] at hfound
    obtain ⟨later, hread, rfl⟩ := except_map_eq_ok.1 hfound
    have hpre : Lacks .and pre := fun t ht => hlacks t (List.mem_append_left post ht)
    exact ⟨hs ++ l :: pre, post ++ (behind ++ [r]), by simp, by simp, hhead.lacks_and_before hl hpre, ⟨fault, _, rfl⟩,
      later, hread, hkept⟩

/-- A field takes no parenthesis, so the `AND` in the group does not cut it. -/
theorem group_unit_behind_field :
    let source := "SELECT * FROM evidence WHERE state (a AND b = 1) ;"
    (parse source).query.conditions = [] ∧ ∃ d ∈ (parse source).diagnostics, d.fragment = "state (a AND b = 1)" := by
  intro source
  have hlex : lex (trimmed source) =
      ⟨(lex (trimmed source)).lexemes.take 5 ++ (lex (trimmed source)).lexemes.drop 5, none⟩ := by decide +kernel
  have hhead : GroupHead [.word "state"] false := .field (.word (by decide)) (by decide)
  have hgroup : tokens ((lex (trimmed source)).lexemes.drop 5) = [.word "state"] ++ .leftParen ::
      ([.word "a", .word "AND", .word "b", .comparison .eq, .word "1"] ++ [.rightParen]) := by decide +kernel
  obtain ⟨hunit, hreported⟩ := (group_unit_or_cut hlex (by decide +kernel) hgroup hhead (by decide)).1 nofun
  obtain ⟨d, hd, hfragment⟩ := hreported rfl
  refine ⟨?_, d, hd, hfragment.trans (by decide +kernel)⟩
  rcases hunit with ⟨c, -, hparsed⟩ | hnone
  · rw [hparsed] at hd
    cases hd
  · exact hnone

/-- A list takes its parenthesis, and then the second part of the group is read as a condition. -/
theorem group_cut_in_list :
    let source := "SELECT * FROM evidence WHERE source IN ('a' AND confidence > 5 AND x)"
    (parse source).query.conditions.map Condition.field = ["confidence"] ∧
      (parse source).diagnostics.map Diagnostic.fragment = ["source IN ('a'", "x)"] ∧
      ¬ OneUnit ((lex (trimmed source)).lexemes.drop 5) (parse source) := by
  intro source
  have hfields : (parse source).query.conditions.map Condition.field = ["confidence"] := by decide +kernel
  have hreports : (parse source).diagnostics.map Diagnostic.fragment = ["source IN ('a'", "x)"] := by decide +kernel
  refine ⟨hfields, hreports, ?_⟩
  rintro (⟨c, -, hparsed⟩ | hnone)
  · rw [hparsed] at hreports
    cases hreports
  · rw [hnone] at hfields
    cases hfields

end EvidenceGraph.Query
