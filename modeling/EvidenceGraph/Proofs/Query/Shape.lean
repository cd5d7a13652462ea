/-
# `EvidenceGraph.Proofs.Query.Shape` — whatever is read has the right shape.

A lenient reading leaves out what it cannot read, and so it has an answer for every text. What it keeps was
read by the readers of the grammar: names are words of the text that may stand where they do, and an
operator has a value of its kind. Parts that are missing altogether are those of the default query. Main
statement: `shaped_parse`.
-/
import EvidenceGraph.Proofs.Query.Canonical
import EvidenceGraph.Proofs.Query.Phrases

namespace EvidenceGraph.Query

open EvidenceGraph.Text Grammar

/-! ## Words of a text -/

/-- Tokens whose words are words that a text can have. -/
def Worded (ts : List Token) : Prop := ∀ w, .word w ∈ ts → IsWord w

theorem worded_lex (text : List Char) : Worded (tokens (lex text).lexemes) :=
  fun _ h => isWord_of_lexFrom h

theorem Worded.left {ts us : List Token} (h : Worded (ts ++ us)) : Worded ts :=
  fun w hw => h w (List.mem_append_left us hw)

theorem Worded.suffix {ts rest : List Lexeme} (h : Worded (tokens ts)) (hrest : rest <:+ ts) :
    Worded (tokens rest) := by
  obtain ⟨used, rfl⟩ := hrest
  rw [tokens_append] at h
  exact fun w hw => h w (List.mem_append_right _ hw)

theorem Worded.tail {ts : List Lexeme} (h : Worded (tokens ts)) : Worded (tokens ts.tail) :=
  h.suffix (List.tail_suffix ts)

/-- A name is a word of the text, and none of those that are refused. -/
theorem Worded.name {ts : List Token} (h : Worded ts) {refused : List Keyword} {t : Token} {w : String}
    (ht : t ∈ ts) (hname : Name refused t w) : BareWord w ∧ ∀ k ∈ refused, k.isSpelled w = false := by
  obtain ⟨rfl, hrefused⟩ := name_iff.1 hname
  exact ⟨bareWord_iff.2 (h w ht), hrefused⟩

/-! ## Phrases of the right shape -/

section Items

variable {α : Type} {one : Token → α → Prop} {ts : List Token} {as : List α}

theorem separated_ne_nil (h : Separated one ts as) : as ≠ [] := by
  cases h <;> exact List.cons_ne_nil _ _

/-- Every item is one of the tokens. -/
theorem exists_token_of_separated (h : Separated one ts as) : ∀ a ∈ as, ∃ t ∈ ts, one t a := by
  induction h with
  | @last t a ha =>
    intro b hb
    rw [List.mem_singleton.1 hb]
    exact ⟨t, List.mem_cons_self, ha⟩
  | @more t a ts as ha _ ih =>
    intro b hb
    rcases List.mem_cons.1 hb with rfl | hb
    · exact ⟨t, List.mem_cons_self, ha⟩
    · obtain ⟨u, hu, hone⟩ := ih b hb
      exact ⟨u, List.mem_cons_of_mem _ (List.mem_cons_of_mem _ hu), hone⟩

end Items

theorem scalar_ofBare (w : String) : (Literal.ofBare w).Scalar := by
  unfold Literal.ofBare
  repeat' split
  all_goals constructor

theorem scalar_value {t : Token} {v : Literal} (h : Value t v) : v.Scalar := by
  cases h with
  | quoted s => exact .text s
  | word _ => exact scalar_ofBare _

theorem shaped_condition {ts : List Token} {c : Condition} (h : Grammar.Condition ts c)
    (hts : Worded ts) : c.Shaped := by
  have hfield {f : Token} {field : String} (hf : f ∈ ts) (hname : Name [.and] f field) :
      BareWord field ∧ Keyword.and.isSpelled field = false := by
    obtain ⟨hword, hand⟩ := hts.name hf hname
    exact ⟨hword, hand .and List.mem_cons_self⟩
  cases h with
  | comparison symbol hf hvalue =>
    obtain ⟨hword, hand⟩ := hfield List.mem_cons_self hf
    exact .onField hword hand (.compare symbol (scalar_value hvalue))
  | isIn hf _ _ =>
    obtain ⟨hword, hand⟩ := hfield List.mem_cons_self hf
    exact .onField hword hand (.isIn (List.cons_ne_nil _ _))
  | isInList hf _ hitems =>
    obtain ⟨hword, hand⟩ := hfield List.mem_cons_self hf
    exact .onField hword hand (.isIn (separated_ne_nil hitems))
  | contains hf _ _ =>
    obtain ⟨hword, hand⟩ := hfield List.mem_cons_self hf
    exact .onField hword hand (.contains _)
  | relation kind _ _ _ => exact .relation kind _

/-- Taking a clause over keeps the shape of a query. -/
theorem Shaped.apply {q : Query} (h : q.Shaped) {ts : List Token} {c : TailClause} (hc : Clause ts c)
    (hts : Worded ts) : (q.apply c).Shaped := by
  cases hc with
  | @order _ field d horder =>
    have hname : ∃ f ∈ ts, Name Keyword.structural f field := by
      cases horder with
      | plain _ _ hf | ascending _ _ hf _ | descending _ _ hf _ => exact ⟨_, by simp, hf⟩
    obtain ⟨f, hmem, hname⟩ := hname
    obtain ⟨hword, hrefused⟩ := hts.name hmem hname
    refine ⟨h.select_ne, h.select, h.conditions, ?_, nofun⟩
    rintro w ⟨⟩
    exact ⟨hword, by simpa [isStructural] using hrefused⟩
  | limit | offset => exact ⟨h.select_ne, h.select, h.conditions, h.orderBy, h.order⟩

/-- The default selection, and no clause. -/
theorem shaped_default {cs : List Condition} (h : ∀ c ∈ cs, c.Shaped) :
    Shaped { conditions := cs } := by
  refine ⟨by simp, ?_, h, nofun, fun _ => rfl⟩
  intro w hw
  rw [List.mem_singleton.1 hw]
  exact ⟨bareWord_iff.2 (.inr ⟨by decide, by decide⟩), by decide⟩

/-! ## Readings that may leave something out -/

/-- What a settled part of a query has for its value was read. -/
theorem read_of_settle {α : Type} {mode : Mode} {text : List Char} {stops : List Keyword} {r : Reader α}
    {ts : List Lexeme} {found : Settled (Option α)} {a : α}
    (h : settle mode text stops r ts = .ok found) (ha : found.value = some a) :
    ∃ rest, r ts = .ok (a, rest) := by
  unfold settle at h
  cases hread : r ts with
  | ok read =>
    obtain ⟨b, rest⟩ := read
    rw [hread] at h
    cases h
    cases ha
    exact ⟨rest, rfl⟩
  | error miss =>
    rw [hread] at h
    cases mode with
    | strict => cases h
    | lenient =>
      cases h
      cases ha

theorem shaped_boundedCondition {ts rest : List Lexeme} {c : Condition} (hts : Worded (tokens ts))
    (h : boundedCondition ts = .ok (c, rest)) : c.Shaped := by
  obtain ⟨used, rfl, hused⟩ := sound_condition (boundedCondition_eq_ok.1 h).1
  rw [tokens_append] at hts
  exact shaped_condition hused hts.left

/-- The conditions that are kept have the right shape, and what follows them is left over. -/
theorem shaped_conditionList {mode : Mode} {text : List Char} {ts : List Lexeme}
    {found : Settled (List Condition)} (hts : Worded (tokens ts))
    (h : conditionList mode text ts = .ok found) :
    (∀ c ∈ found.value, c.Shaped) ∧ found.rest <:+ ts := by
  induction hlength : ts.length using Nat.strongRecOn generalizing ts found with
  | ind n ih =>
    rw [conditionList_eq] at h
    split at h
    · obtain ⟨reports, -, rfl⟩ := except_map_eq_ok.1 h
      exact ⟨nofun, List.suffix_rfl⟩
    · obtain ⟨first, hfirst, hnext⟩ := except_bind_eq_ok.1 h
      obtain ⟨later, hlater, rfl⟩ := except_map_eq_ok.1 hnext
      have hsuffix : first.rest <:+ ts := settle_rest_suffix forward_boundedCondition hfirst
      have hbehind : (∀ c ∈ later.value, c.Shaped) ∧ later.rest <:+ first.rest := by
        split at hlater
        · next hand =>
          obtain ⟨hshaped, hrest⟩ := ih _ (hlength ▸ length_behind_and hfirst hand)
            (hts.suffix hsuffix).tail hlater rfl
          exact ⟨hshaped, hrest.trans (List.tail_suffix _)⟩
        · cases hlater
          exact ⟨nofun, List.suffix_rfl⟩
      refine ⟨fun c hc => ?_, hbehind.2.trans hsuffix⟩
      rcases List.mem_append.1 hc with hc | hc
      · obtain ⟨rest, hread⟩ := read_of_settle hfirst (Option.mem_toList.1 hc)
        exact shaped_boundedCondition hts hread
      · exact hbehind.1 c hc

theorem shaped_filterClause {mode : Mode} {text : List Char} {ts : List Lexeme}
    {found : Settled (List Condition)} (hts : Worded (tokens ts))
    (h : filterClause mode text ts = .ok found) :
    (∀ c ∈ found.value, c.Shaped) ∧ found.rest <:+ ts := by
  unfold filterClause at h
  split at h
  · obtain ⟨hshaped, hrest⟩ := shaped_conditionList hts.tail h
    exact ⟨hshaped, hrest.trans (List.tail_suffix ts)⟩
  · cases h
    exact ⟨nofun, List.suffix_rfl⟩

theorem forward_rankedClause (mode : Mode) (last rank : Nat) : (rankedClause mode last rank).Forward :=
  Reader.forward_ite (Reader.forward_miss _) (forward_tailClause rank)

theorem behindClause_suffix {found : Settled (Option TailClause)} {ts : List Lexeme}
    (h : found.rest <:+ ts) : behindClause found ts <:+ ts := by
  unfold behindClause
  split
  · exact h
  · exact List.tail_suffix ts

/-- A query keeps its shape when the clauses behind its conditions are taken over. -/
theorem shaped_tailClauses {mode : Mode} {text : List Char} {last : Nat} {q : Query} {ts : List Lexeme}
    {p : Parsed} (hq : q.Shaped) (hts : Worded (tokens ts))
    (h : tailClauses mode text last q ts = .ok p) : p.query.Shaped := by
  induction hlength : ts.length using Nat.strongRecOn generalizing last q ts p with
  | ind n ih =>
    by_cases hne : ts = []
    · subst hne
      rw [tailClauses] at h
      cases h
      exact hq
    · rw [tailClauses_eq mode text last q hne] at h
      obtain ⟨found, hfound, hnext⟩ := except_bind_eq_ok.1 h
      obtain ⟨later, hlater, rfl⟩ := except_map_eq_ok.1 hnext
      have hsuffix := behindClause_suffix (settle_rest_suffix (forward_rankedClause _ _ _) hfound)
      have hstep : (found.value.elim q q.apply).Shaped := by
        cases hvalue : found.value with
        | none => exact hq
        | some c =>
          obtain ⟨rest, hread⟩ := read_of_settle hfound hvalue
          obtain ⟨used, rfl, hused⟩ := sound_tailClause (rankedClause_eq_ok.1 hread).1
          rw [tokens_append] at hts
          exact hq.apply hused hts.left
      have hbehind : later.query.Shaped :=
        ih _ (hlength ▸ length_behindClause found hne) hstep (hts.suffix hsuffix) hlater rfl
      exact hbehind

/-! ## Whole texts -/

/-- What is selected, or the default if that could not be read. -/
theorem shaped_start {mode : Mode} {text : List Char} {stops : List Keyword} {ts : List Lexeme}
    {selected : Settled (Option (List String))} {cs : List Condition} (hts : Worded (tokens ts))
    (h : settle mode text stops selectClause ts = .ok selected) (hcs : ∀ c ∈ cs, c.Shaped) :
    Shaped { select := selected.value.getD ["*"], conditions := cs } := by
  cases hvalue : selected.value with
  | none => exact shaped_default hcs
  | some fields =>
    obtain ⟨rest, hread⟩ := read_of_settle h hvalue
    obtain ⟨s, used, rfl, -, hfields⟩ := sound_selectClause hread
    rw [tokens_cons, tokens_append] at hts
    refine ⟨separated_ne_nil hfields, ?_, hcs, nofun, fun _ => rfl⟩
    intro w hw
    obtain ⟨t, ht, hname⟩ := exists_token_of_separated hfields w hw
    obtain ⟨hword, hsource⟩ := hts.name (List.mem_cons_of_mem _ (List.mem_append_left _ ht)) hname
    exact ⟨hword, hsource .source List.mem_cons_self⟩

theorem shaped_clauses {mode : Mode} {text : List Char} {ts : List Lexeme} {p : Parsed}
    (hts : Worded (tokens ts)) (h : clauses mode text ts = .ok p) : p.query.Shaped := by
  rw [clauses_eq] at h
  obtain ⟨selected, hselected, hbody⟩ := except_bind_eq_ok.1 h
  obtain ⟨_, hbehindSelect, rfl⟩ := except_map_eq_ok.1 hbody
  obtain ⟨source, hsource, hbody⟩ := except_bind_eq_ok.1 hbehindSelect
  obtain ⟨_, hbehindSource, rfl⟩ := except_map_eq_ok.1 hbody
  obtain ⟨filter, hfilter, hbody⟩ := except_bind_eq_ok.1 hbehindSource
  obtain ⟨later, hlater, rfl⟩ := except_map_eq_ok.1 hbody
  have hselectedRest := settle_rest_suffix forward_selectClause hselected
  have hsourceRest := settle_rest_suffix (forward_sourceClause mode) hsource
  have hwords := (hts.suffix hselectedRest).suffix hsourceRest
  obtain ⟨hconditions, hfilterRest⟩ := shaped_filterClause hwords hfilter
  have hshaped : later.query.Shaped :=
    shaped_tailClauses (shaped_start hts hselected hconditions) (hwords.suffix hfilterRest) hlater
  exact hshaped

theorem shaped_parseLexemes {mode : Mode} {text : List Char} {ts : List Lexeme} {p : Parsed}
    (hts : Worded (tokens ts)) (h : parseLexemes mode text ts = .ok p) : p.query.Shaped := by
  unfold parseLexemes at h
  split at h
  · obtain ⟨reports, -, rfl⟩ := except_map_eq_ok.1 h
    exact shaped_default nofun
  · exact shaped_clauses hts h

/-- Every text is read leniently as a query of the right shape. -/
theorem shaped_parse (source : String) : (parse source).query.Shaped := by
  have hread : parseIn .lenient source = _ := parseIn_eq nofun
  unfold parse
  cases hparsed : parseIn .lenient source with
  | error found => exact shaped_default nofun
  | ok p =>
    rw [hparsed] at hread
    obtain ⟨body, hbody, rfl⟩ := except_map_eq_ok.1 hread.symm
    have hshaped : body.query.Shaped := shaped_parseLexemes (worded_lex _) hbody
    exact hshaped

/-! ## The shape, part by part -/

/-- The field of a relation condition is a name like any other. -/
theorem Condition.Shaped.field {c : Condition} (h : c.Shaped) :
    BareWord c.field ∧ Keyword.and.isSpelled c.field = false := by
  cases h with
  | onField hword hand _ => exact ⟨hword, hand⟩
  | relation kind id =>
    show BareWord nodeIdField ∧ Keyword.and.isSpelled nodeIdField = false
    exact ⟨bareWord_iff.2 (.inr ⟨by decide, by decide⟩), by decide⟩

/-- An operator on a field has a value that it takes, and a relation has the id of a node. -/
theorem Condition.Shaped.value {c : Condition} (h : c.Shaped) :
    match c.operator with
    | .compare _ => c.value.Scalar
    | .isIn => ∃ items, items ≠ [] ∧ c.value = .list items
    | .contains => ∃ s, c.value = .text s
    | .relation _ => c.field = nodeIdField ∧ ∃ id, c.value = .text id := by
  cases h with
  | onField _ _ htakes =>
    cases htakes with
    | compare symbol hscalar => exact hscalar
    | isIn hitems => exact ⟨_, hitems, rfl⟩
    | contains s => exact ⟨s, rfl⟩
  | relation kind id => exact ⟨rfl, id, rfl⟩

/-- Whatever a text is, what is read of it leniently selects at least one field, and each field that it selects
is one word of the lexer other than `FROM`. The field of a condition is one word other than `AND`; a comparison
has a truth value, a number or a string for its value, `IN` a list that is not empty, `CONTAINS` a string, and a
relation the field `node_id` and a string. The field of an order is one word that structures no query, and
without an order the direction is the default one. -/
theorem parse_well_shaped (source : String) :
    ((parse source).query.select ≠ [] ∧
        ∀ w ∈ (parse source).query.select, BareWord w ∧ Keyword.source.isSpelled w = false) ∧
      (∀ c ∈ (parse source).query.conditions,
        (BareWord c.field ∧ Keyword.and.isSpelled c.field = false) ∧
          match c.operator with
          | .compare _ => c.value.Scalar
          | .isIn => ∃ items, items ≠ [] ∧ c.value = .list items
          | .contains => ∃ s, c.value = .text s
          | .relation _ => c.field = nodeIdField ∧ ∃ id, c.value = .text id) ∧
      (∀ w ∈ (parse source).query.orderBy, BareWord w ∧ isStructural w = false) ∧
      ((parse source).query.orderBy = none → (parse source).query.order = .ascending) := by
  have hshaped := shaped_parse source
  refine ⟨⟨hshaped.select_ne, hshaped.select⟩, ?_, hshaped.orderBy, hshaped.order⟩
  intro c hc
  exact ⟨(hshaped.conditions c hc).field, (hshaped.conditions c hc).value⟩

end EvidenceGraph.Query
