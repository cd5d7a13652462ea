/-
# `EvidenceGraph.Proofs.Query.Clauses` — the clauses behind the conditions.

Where conditions end and clauses begin is found by looking two lexemes ahead, which is enough: a condition
never looks like the start of a clause (`condition_not_atTailClause`), and every clause does
(`clause_atTailClause`). Readings without reports take exactly the clauses that `Tail` allows in their
mode: `sound_tailClauses` and `complete_tailClauses`.
-/
import EvidenceGraph.Proofs.Query.Conditions
import EvidenceGraph.Proofs.Query.Modes

namespace EvidenceGraph.Query

open EvidenceGraph.Text Grammar

/-! ## The phrases -/

namespace Grammar

/-- One clause behind the conditions. -/
inductive Clause : List Token → TailClause → Prop
  | order {ts : List Token} {field : String} {d : Order} :
      OrderBy ts (some field) d → Clause ts (.order field d)
  | limit {l t : Token} {n : UInt64} :
      l.isKeyword .limit → Count t n → Clause [l, t] (.limit n)
  | offset {o t : Token} {n : UInt64} :
      o.isKeyword .offset → Count t n → Clause [o, t] (.offset n)

/-- The position of a clause in a query. -/
def rank : TailClause → Nat
  | .order _ _ => 1
  | .limit _ => 2
  | .offset _ => 3

/-- The clauses behind one of rank `last`. In strict readings the ranks rise. -/
inductive Tail (mode : Mode) : Nat → List Token → List TailClause → Prop
  | nil {last : Nat} : Tail mode last [] []
  | cons {last : Nat} {ts us : List Token} {c : TailClause} {cs : List TailClause} :
      Clause ts c → (mode = .strict → last < rank c) → Tail mode (max last (rank c)) us cs →
      Tail mode last (ts ++ us) (c :: cs)

end Grammar

/-! ## Readings without reports -/

/-- A part of a query that is settled without reports was read. -/
theorem settle_eq_clean {α : Type} {mode : Mode} {text : List Char} {stops : List Keyword}
    {r : Reader α} {ts rest : List Lexeme} {v : Option α} :
    settle mode text stops r ts = .ok ⟨v, [], rest⟩ ↔ ∃ a, v = some a ∧ r ts = .ok (a, rest) := by
  unfold settle
  cases hr : r ts with
  | error found => cases mode <;> simp
  | ok read =>
    obtain ⟨a, left⟩ := read
    constructor
    · intro h
      cases h
      exact ⟨a, rfl, rfl⟩
    · rintro ⟨b, rfl, h⟩
      cases h
      rfl

/-- Results in sequence: the second one is had from the first one. -/
theorem except_bind_eq_ok {ε α β : Type} {first : Except ε α} {next : α → Except ε β} {b : β} :
    (first >>= next) = .ok b ↔ ∃ a, first = .ok a ∧ next a = .ok b := by
  cases first <;> simp [Bind.bind, Except.bind]

theorem except_map_eq_ok {ε α β : Type} {first : Except ε α} {f : α → β} {b : β} :
    first.map f = .ok b ↔ ∃ a, first = .ok a ∧ f a = b := by
  cases first <;> simp [Except.map]

/-- Nothing is reported behind some reports only if there are none on either side. -/
theorem map_after_eq_clean {parsed : Except Diagnostic Parsed} {reports : List Diagnostic} {q : Query} :
    parsed.map (Parsed.after reports) = .ok ⟨q, []⟩ ↔ reports = [] ∧ parsed = .ok ⟨q, []⟩ := by
  rw [except_map_eq_ok]
  constructor
  · rintro ⟨p, rfl, hp⟩
    obtain ⟨hquery, hreports⟩ := Parsed.mk.inj hp
    obtain ⟨rfl, hnone⟩ := List.append_eq_nil_iff.1 hreports
    exact ⟨rfl, by rw [← hquery, ← hnone]⟩
  · rintro ⟨rfl, rfl⟩
    exact ⟨_, rfl, rfl⟩

/-- A part of a query and then the rest of it: nothing is reported only if neither has reports. -/
theorem settled_bind_eq_clean {α : Type} {first : Except Diagnostic (Settled α)}
    {next : Settled α → Except Diagnostic Parsed} {q : Query} :
    (first >>= fun found => (next found).map (Parsed.after found.reports)) = .ok ⟨q, []⟩ ↔
      ∃ v rest, first = .ok ⟨v, [], rest⟩ ∧ next ⟨v, [], rest⟩ = .ok ⟨q, []⟩ := by
  rw [except_bind_eq_ok]
  constructor
  · rintro ⟨⟨v, reports, rest⟩, hfirst, hnext⟩
    obtain ⟨rfl, hnext⟩ := map_after_eq_clean.1 hnext
    exact ⟨v, rest, hfirst, hnext⟩
  · rintro ⟨v, rest, hfirst, hnext⟩
    exact ⟨_, hfirst, map_after_eq_clean.2 ⟨rfl, hnext⟩⟩

/-! ## Where clauses start -/

theorem atTailClause_iff {ts : List Lexeme} :
    atTailClause ts ↔
      (atKeyword .order ts ∧ atKeyword .by ts.tail) ∨
        ((atKeyword .limit ts ∨ atKeyword .offset ts) ∧ comparison? ts.tail = none ∧
          ¬ atKeyword .isIn ts.tail ∧ ¬ atKeyword .contains ts.tail) := by
  unfold atTailClause
  by_cases horder : atKeyword .order ts
  · obtain ⟨t, rest, rfl, ht⟩ := atKeyword_iff.1 horder
    have hlimit : atKeyword .limit (t :: rest) = false :=
      Bool.eq_false_iff.2 (not_isKeyword ht (by decide))
    have hoffset : atKeyword .offset (t :: rest) = false :=
      Bool.eq_false_iff.2 (not_isKeyword ht (by decide))
    simp [horder, hlimit, hoffset]
  · simp [horder, and_assoc]

/-- A condition never looks like the start of a clause, also if its field is named after one. -/
theorem condition_not_atTailClause {used rest : List Lexeme} {c : Condition}
    (h : Grammar.Condition (tokens used) c) :
    used ++ rest ≠ [] ∧ ¬ atTailClause (used ++ rest) := by
  generalize htokens : tokens used = us at h
  rw [atTailClause_iff]
  cases h with
  | comparison symbol hf ht =>
    obtain ⟨f, o, ms, rfl, -, ho, -⟩ := tokens_eq_cons_cons.1 htokens
    refine ⟨nofun, ?_⟩
    -- behind `ORDER` no word follows, and behind `LIMIT` and `OFFSET` a symbol does
    rintro (⟨-, hby⟩ | ⟨-, hnone, -⟩)
    · obtain ⟨w, hw, -⟩ := isKeyword_iff.1 hby
      rw [ho] at hw
      cases hw
    · have hsome := comparison?_eq_some.2 ⟨o, ms ++ rest, rfl, ho⟩
      rw [List.cons_append, List.tail_cons, List.cons_append, hsome] at hnone
      cases hnone
  | isIn hf hk ht | isInList hf hk ht =>
    obtain ⟨f, k, ms, rfl, -, rfl, -⟩ := tokens_eq_cons_cons.1 htokens
    refine ⟨nofun, ?_⟩
    rintro (⟨-, hby⟩ | ⟨-, -, hin, -⟩)
    · exact not_isKeyword hk (by decide) hby
    · exact hin hk
  | contains hf hk ht =>
    obtain ⟨f, k, ms, rfl, -, rfl, -⟩ := tokens_eq_cons_cons.1 htokens
    refine ⟨nofun, ?_⟩
    rintro (⟨-, hby⟩ | ⟨-, -, -, hcontains⟩)
    · exact not_isKeyword hk (by decide) hby
    · exact hcontains hk
  | relation kind hw hn ht =>
    obtain ⟨f, ls, rfl, hf, -⟩ := tokens_eq_cons.1 htokens
    have hnone (k : Keyword) : ¬ f.token.isKeyword k := by
      rw [hf]
      exact Bool.eq_false_iff.1 (not_isSpelled_of_relation hw)
    refine ⟨nofun, ?_⟩
    rintro (⟨horder, -⟩ | ⟨hlimit | hoffset, -⟩)
    · exact hnone .order horder
    · exact hnone .limit hlimit
    · exact hnone .offset hoffset

/-- What follows a clause and what follows the conditions: nothing, or another clause. -/
def AtTail (ts : List Lexeme) : Prop := ts = [] ∨ atTailClause ts

/-- A clause starts with the keyword of its rank. -/
theorem AtTail.keyword {ts : List Lexeme} (h : AtTail ts) {k : Keyword} (hk : atKeyword k ts) :
    k = .order ∨ k = .limit ∨ k = .offset := by
  rcases h with rfl | h
  · cases hk
  · obtain ⟨t, rest, rfl, ht⟩ := atKeyword_iff.1 hk
    rcases atTailClause_iff.1 h with ⟨horder, -⟩ | ⟨hlimit | hoffset, -⟩
    · exact .inl (isKeyword_unique ht horder)
    · exact .inr (.inl (isKeyword_unique ht hlimit))
    · exact .inr (.inr (isKeyword_unique ht hoffset))

/-- A count cannot be mistaken for the operator of a condition. -/
theorem atTailClause_count {l t : Lexeme} {n : UInt64} (rest : List Lexeme)
    (hl : l.token.isKeyword .limit ∨ l.token.isKeyword .offset) (ht : Count t.token n) :
    atTailClause (l :: t :: rest) := by
  rw [atTailClause_iff]
  right
  generalize htoken : t.token = token at ht
  cases ht with
  | word hcount =>
    have hnone (k : Keyword) : ¬ t.token.isKeyword k := by
      rw [htoken]
      exact Bool.eq_false_iff.1 (not_isSpelled_of_count hcount)
    refine ⟨hl, ?_, hnone .isIn, hnone .contains⟩
    rw [List.tail_cons, Option.eq_none_iff_forall_ne_some]
    intro c hc
    obtain ⟨_, _, heq, hcomparison⟩ := comparison?_eq_some.1 hc
    cases heq
    rw [htoken] at hcomparison
    cases hcomparison

theorem atTailClause_order {o b : Lexeme} (rest : List Lexeme) (ho : o.token.isKeyword .order)
    (hb : b.token.isKeyword .by) : atTailClause (o :: b :: rest) :=
  atTailClause_iff.2 (.inl ⟨ho, hb⟩)

theorem clause_ne_nil {used : List Lexeme} {c : TailClause} (h : Clause (tokens used) c) :
    used ≠ [] := by
  rintro rfl
  cases h with
  | order horder => cases horder

/-- Every clause looks like one. -/
theorem clause_atTailClause {used : List Lexeme} {c : TailClause} (h : Clause (tokens used) c)
    (rest : List Lexeme) : atTailClause (used ++ rest) := by
  generalize htokens : tokens used = us at h
  cases h with
  | order horder =>
    cases horder with
    | plain ho hb hf | ascending ho hb hf hd | descending ho hb hf hd =>
      obtain ⟨o, b, ms, rfl, rfl, rfl, -⟩ := tokens_eq_cons_cons.1 htokens
      exact atTailClause_order _ ho hb
  | limit hl ht =>
    obtain ⟨l, t, ms, rfl, rfl, rfl, -⟩ := tokens_eq_cons_cons.1 htokens
    exact atTailClause_count _ (.inl hl) ht
  | offset ho ht =>
    obtain ⟨o, t, ms, rfl, rfl, rfl, -⟩ := tokens_eq_cons_cons.1 htokens
    exact atTailClause_count _ (.inr ho) ht

theorem tail_atTail {mode : Mode} {last : Nat} {ts : List Lexeme} {cs : List TailClause}
    (h : Tail mode last (tokens ts) cs) : AtTail ts := by
  generalize htokens : tokens ts = us at h
  cases h with
  | nil => exact .inl (tokens_eq_nil.1 htokens)
  | cons hclause _ _ =>
    obtain ⟨xs, ys, rfl, rfl, -⟩ := tokens_eq_append.1 htokens
    exact .inr (clause_atTailClause hclause ys)

/-! ## Clauses behind the conditions -/

/-- No direction comes next, so an order ends here and is ascending. -/
def NoDirection (ts : List Lexeme) : Prop := ¬ atKeyword .desc ts ∧ ¬ atKeyword .asc ts

theorem AtTail.noDirection {ts : List Lexeme} (h : AtTail ts) : NoDirection ts := by
  constructor
  · intro hdesc
    simpa using h.keyword hdesc
  · intro hasc
    simpa using h.keyword hasc

theorem direction_stop {ts : List Lexeme} (h : NoDirection ts) : direction ts = .ok (.ascending, ts) := by
  obtain ⟨hdesc, hasc⟩ := h
  unfold direction
  rw [Reader.ahead_bind, if_neg hdesc, if_neg hasc]
  rfl

theorem direction_descending {d : Lexeme} (h : d.token.isKeyword .desc) (rest : List Lexeme) :
    direction (d :: rest) = .ok (.descending, rest) := by
  have hdesc : atKeyword .desc (d :: rest) := h
  unfold direction
  rw [Reader.ahead_bind, if_pos hdesc]
  rfl

theorem direction_ascending {d : Lexeme} (h : d.token.isKeyword .asc) (rest : List Lexeme) :
    direction (d :: rest) = .ok (.ascending, rest) := by
  have hdesc : ¬ atKeyword .desc (d :: rest) := not_isKeyword h (by decide)
  have hasc : atKeyword .asc (d :: rest) := h
  unfold direction
  rw [Reader.ahead_bind, if_neg hdesc, if_pos hasc]
  rfl

/-- A direction is one lexeme, or left out. -/
theorem sound_direction {ts rest : List Lexeme} {d : Order} (h : direction ts = .ok (d, rest)) :
    (ts = rest ∧ d = .ascending) ∨
      ∃ t, ts = t :: rest ∧
        ((t.token.isKeyword .asc ∧ d = .ascending) ∨ (t.token.isKeyword .desc ∧ d = .descending)) := by
  unfold direction at h
  rw [Reader.ahead_bind] at h
  split at h
  · next hdesc =>
    obtain ⟨t, left, rfl, ht⟩ := atKeyword_iff.1 hdesc
    cases h
    exact .inr ⟨t, rfl, .inr ⟨ht, rfl⟩⟩
  · split at h
    · next hasc =>
      obtain ⟨t, left, rfl, ht⟩ := atKeyword_iff.1 hasc
      cases h
      exact .inr ⟨t, rfl, .inl ⟨ht, rfl⟩⟩
    · cases h
      exact .inl ⟨rfl, rfl⟩

theorem sound_orderClause {ts rest : List Lexeme} {c : TailClause}
    (h : orderClause ts = .ok (c, rest)) : ∃ used, ts = used ++ rest ∧ Clause (tokens used) c := by
  obtain ⟨_, mid₁, horder, h₁⟩ := Reader.bind_eq_ok.1 h
  obtain ⟨_, mid₂, hby, h₂⟩ := Reader.bind_eq_ok.1 h₁
  obtain ⟨field, mid₃, hfield, h₃⟩ := Reader.bind_eq_ok.1 h₂
  obtain ⟨d, mid₄, hdirection, hpure⟩ := Reader.bind_eq_ok.1 h₃
  cases hpure
  obtain ⟨o, rfl, ho⟩ := Reader.keyword_eq_ok.1 horder
  obtain ⟨b, rfl, hb⟩ := Reader.keyword_eq_ok.1 hby
  obtain ⟨f, rfl, hf⟩ := Reader.item_eq_ok.1 hfield
  have hname := (accepts_orderField _ _).1 hf
  rcases sound_direction hdirection with ⟨rfl, rfl⟩ | ⟨t, rfl, ⟨ht, rfl⟩ | ⟨ht, rfl⟩⟩
  · exact ⟨[o, b, f], rfl, .order (.plain ho hb hname)⟩
  · exact ⟨[o, b, f, t], rfl, .order (.ascending ho hb hname ht)⟩
  · exact ⟨[o, b, f, t], rfl, .order (.descending ho hb hname ht)⟩

theorem orderClause_eq {o b f : Lexeme} {field : String} {d : Order} {ts rest : List Lexeme}
    (ho : o.token.isKeyword .order) (hb : b.token.isKeyword .by)
    (hf : Name Keyword.structural f.token field) (hd : direction ts = .ok (d, rest)) :
    orderClause (o :: b :: f :: ts) = .ok (.order field d, rest) := by
  show (Reader.keyword .order >>= _) _ = _
  rw [Reader.bind_of_ok (Reader.keyword_cons ho _), Reader.bind_of_ok (Reader.keyword_cons hb _),
    Reader.bind_of_ok (Reader.item_cons ((accepts_orderField _ _).2 hf) _), Reader.bind_of_ok hd]
  rfl

theorem sound_countClause {k : Keyword} {make : UInt64 → TailClause} {ts rest : List Lexeme}
    {c : TailClause} (h : countClause k make ts = .ok (c, rest)) :
    ∃ l t n, ts = l :: t :: rest ∧ l.token.isKeyword k ∧ Count t.token n ∧ c = make n := by
  obtain ⟨_, mid₁, hkeyword, h₁⟩ := Reader.bind_eq_ok.1 h
  obtain ⟨n, mid₂, hcount, hpure⟩ := Reader.bind_eq_ok.1 h₁
  cases hpure
  obtain ⟨l, rfl, hl⟩ := Reader.keyword_eq_ok.1 hkeyword
  obtain ⟨t, rfl, ht⟩ := Reader.item_eq_ok.1 hcount
  exact ⟨l, t, n, rfl, hl, (accepts_count _ _).1 ht, rfl⟩

theorem complete_countClause {k : Keyword} {l t : Lexeme} {n : UInt64}
    (hl : l.token.isKeyword k) (ht : Count t.token n) (make : UInt64 → TailClause)
    (rest : List Lexeme) : countClause k make (l :: t :: rest) = .ok (make n, rest) := by
  show (Reader.keyword k >>= _) _ = _
  rw [Reader.bind_of_ok (Reader.keyword_cons hl _),
    Reader.bind_of_ok (Reader.item_cons ((accepts_count _ _).2 ht) rest)]
  rfl

/-- The rank found at the start of a clause is that of the keyword there. -/
theorem clauseRank_of_keyword {t : Lexeme} (rest : List Lexeme) :
    (t.token.isKeyword .order → clauseRank (t :: rest) = 1) ∧
      (t.token.isKeyword .limit → clauseRank (t :: rest) = 2) ∧
      (t.token.isKeyword .offset → clauseRank (t :: rest) = 3) := by
  unfold clauseRank
  refine ⟨fun horder => if_pos horder, fun hlimit => ?_, fun hoffset => ?_⟩
  · have horder : ¬ atKeyword .order (t :: rest) := not_isKeyword hlimit (by decide)
    rw [if_neg horder]
    exact if_pos hlimit
  · have horder : ¬ atKeyword .order (t :: rest) := not_isKeyword hoffset (by decide)
    have hlimit : ¬ atKeyword .limit (t :: rest) := not_isKeyword hoffset (by decide)
    rw [if_neg horder, if_neg hlimit]
    exact if_pos hoffset

theorem clauseRank_clause {used : List Lexeme} {c : TailClause} (h : Clause (tokens used) c)
    (rest : List Lexeme) : clauseRank (used ++ rest) = rank c := by
  generalize htokens : tokens used = us at h
  cases h with
  | order horder =>
    cases horder with
    | plain ho hb hf | ascending ho hb hf hd | descending ho hb hf hd =>
      obtain ⟨o, ls, rfl, rfl, -⟩ := tokens_eq_cons.1 htokens
      exact (clauseRank_of_keyword _).1 ho
  | limit hl ht =>
    obtain ⟨l, ls, rfl, rfl, -⟩ := tokens_eq_cons.1 htokens
    exact (clauseRank_of_keyword _).2.1 hl
  | offset ho ht =>
    obtain ⟨o, ls, rfl, rfl, -⟩ := tokens_eq_cons.1 htokens
    exact (clauseRank_of_keyword _).2.2 ho

/-- The clause of any rank that is read is one of the grammar. -/
theorem sound_tailClause {k : Nat} {ts rest : List Lexeme} {c : TailClause}
    (h : tailClause k ts = .ok (c, rest)) : ∃ used, ts = used ++ rest ∧ Clause (tokens used) c := by
  unfold tailClause at h
  split at h
  · exact sound_orderClause h
  · obtain ⟨l, t, n, rfl, hl, ht, rfl⟩ := sound_countClause h
    exact ⟨[l, t], rfl, .limit hl ht⟩
  · obtain ⟨o, t, n, rfl, ho, ht, rfl⟩ := sound_countClause h
    exact ⟨[o, t], rfl, .offset ho ht⟩
  · cases h

theorem complete_tailClause {used rest : List Lexeme} {c : TailClause} (h : Clause (tokens used) c)
    (hrest : NoDirection rest) : tailClause (rank c) (used ++ rest) = .ok (c, rest) := by
  generalize htokens : tokens used = us at h
  cases h with
  | order horder =>
    cases horder with
    | plain ho hb hf =>
      obtain ⟨o, b, ms, rfl, rfl, rfl, hms⟩ := tokens_eq_cons_cons.1 htokens
      obtain ⟨f, ns, rfl, rfl, hns⟩ := tokens_eq_cons.1 hms
      obtain rfl := tokens_eq_nil.1 hns
      exact orderClause_eq ho hb hf (direction_stop hrest)
    | ascending ho hb hf hd =>
      obtain ⟨o, b, ms, rfl, rfl, rfl, hms⟩ := tokens_eq_cons_cons.1 htokens
      obtain ⟨f, d, ps, rfl, rfl, rfl, hps⟩ := tokens_eq_cons_cons.1 hms
      obtain rfl := tokens_eq_nil.1 hps
      exact orderClause_eq ho hb hf (direction_ascending hd rest)
    | descending ho hb hf hd =>
      obtain ⟨o, b, ms, rfl, rfl, rfl, hms⟩ := tokens_eq_cons_cons.1 htokens
      obtain ⟨f, d, ps, rfl, rfl, rfl, hps⟩ := tokens_eq_cons_cons.1 hms
      obtain rfl := tokens_eq_nil.1 hps
      exact orderClause_eq ho hb hf (direction_descending hd rest)
  | limit hl ht =>
    obtain ⟨l, t, ms, rfl, rfl, rfl, hms⟩ := tokens_eq_cons_cons.1 htokens
    obtain rfl := tokens_eq_nil.1 hms
    exact complete_countClause hl ht .limit rest
  | offset ho ht =>
    obtain ⟨o, t, ms, rfl, rfl, rfl, hms⟩ := tokens_eq_cons_cons.1 htokens
    obtain rfl := tokens_eq_nil.1 hms
    exact complete_countClause ho ht .offset rest

/-! ## The clauses in a row -/

theorem rankedClause_eq_ok {mode : Mode} {last k : Nat} {ts rest : List Lexeme} {c : TailClause} :
    rankedClause mode last k ts = .ok (c, rest) ↔
      tailClause k ts = .ok (c, rest) ∧ (mode = .strict → k ≠ 0 → last < k) := by
  unfold rankedClause
  by_cases hlate : k ≠ 0 ∧ k ≤ last ∧ mode = .strict
  · obtain ⟨hzero, hle, hmode⟩ := hlate
    rw [if_pos ⟨hzero, hle, hmode⟩]
    constructor
    · intro h
      cases h
    · rintro ⟨-, hrise⟩
      exact absurd (hrise hmode hzero) (by omega)
  · rw [if_neg hlate]
    constructor
    · intro h
      exact ⟨h, fun hmode hzero => Nat.lt_of_not_le fun hle => hlate ⟨hzero, hle, hmode⟩⟩
    · rintro ⟨h, -⟩
      exact h

theorem rank_pos (c : TailClause) : rank c ≠ 0 := by
  cases c <;> exact Nat.succ_ne_zero _

/-- Reading behind a clause goes on behind its last lexeme. -/
theorem behindClause_clause {used rest : List Lexeme} {v : Option TailClause} {reports : List Diagnostic}
    (h : used ≠ []) : behindClause ⟨v, reports, rest⟩ (used ++ rest) = rest := by
  have hpos : 0 < used.length := List.length_pos_iff.2 h
  have hshorter : rest.length < (used ++ rest).length := by
    rw [List.length_append]
    omega
  exact if_pos hshorter

/-- One step: a clause is read without reports, and what is behind it is. -/
theorem tailClauses_step {mode : Mode} {text : List Char} {last : Nat} {q q' : Query}
    {ts : List Lexeme} (hne : ts ≠ []) :
    tailClauses mode text last q ts = .ok ⟨q', []⟩ ↔
      ∃ used rest c, ts = used ++ rest ∧ Clause (tokens used) c ∧
        tailClause (rank c) ts = .ok (c, rest) ∧ (mode = .strict → last < rank c) ∧
        tailClauses mode text (max last (rank c)) (q.apply c) rest = .ok ⟨q', []⟩ := by
  rw [tailClauses_eq mode text last q hne, settled_bind_eq_clean]
  constructor
  · rintro ⟨v, rest, hsettle, hlater⟩
    obtain ⟨c, rfl, hread⟩ := settle_eq_clean.1 hsettle
    obtain ⟨hclause, hrise⟩ := rankedClause_eq_ok.1 hread
    obtain ⟨used, rfl, hused⟩ := sound_tailClause hclause
    -- the rank that was looked for is that of the clause that was found
    rw [clauseRank_clause hused rest] at hclause hrise hlater
    rw [behindClause_clause (clause_ne_nil hused)] at hlater
    exact ⟨used, rest, c, rfl, hused, hclause, fun hmode => hrise hmode (rank_pos c), hlater⟩
  · rintro ⟨used, rest, c, rfl, hused, hclause, hrise, hlater⟩
    refine ⟨some c, rest, ?_, ?_⟩
    · rw [settle_eq_clean, clauseRank_clause hused rest]
      exact ⟨c, rfl, rankedClause_eq_ok.2 ⟨hclause, fun hmode _ => hrise hmode⟩⟩
    · rw [clauseRank_clause hused rest, behindClause_clause (clause_ne_nil hused)]
      exact hlater

theorem sound_tailClauses {mode : Mode} {text : List Char} {last : Nat} {q q' : Query}
    {ts : List Lexeme} (h : tailClauses mode text last q ts = .ok ⟨q', []⟩) :
    ∃ cs, Tail mode last (tokens ts) cs ∧ q' = cs.foldl apply q := by
  -- by the number of lexemes, as no clause is empty
  induction hlength : ts.length using Nat.strongRecOn generalizing last q ts with
  | ind n ih =>
    by_cases hne : ts = []
    · subst hne
      rw [tailClauses] at h
      cases h
      exact ⟨[], .nil, rfl⟩
    · obtain ⟨used, rest, c, rfl, hused, -, hrise, hlater⟩ := (tailClauses_step hne).1 h
      have hpos : 0 < used.length := List.length_pos_iff.2 (clause_ne_nil hused)
      have hshorter : rest.length < n := by
        rw [← hlength, List.length_append]
        omega
      obtain ⟨cs, hcs, rfl⟩ := ih rest.length hshorter hlater rfl
      refine ⟨c :: cs, ?_, rfl⟩
      rw [tokens_append]
      exact .cons hused hrise hcs

theorem complete_tailClauses {mode : Mode} {text : List Char} {last : Nat} {q : Query}
    {ts : List Lexeme} {cs : List TailClause} (h : Tail mode last (tokens ts) cs) :
    tailClauses mode text last q ts = .ok ⟨cs.foldl apply q, []⟩ := by
  generalize htokens : tokens ts = us at h
  induction h generalizing ts q with
  | nil =>
    obtain rfl := tokens_eq_nil.1 htokens
    rw [tailClauses]
    rfl
  | cons hclause hrise hlater ih =>
    obtain ⟨used, rest, rfl, rfl, rfl⟩ := tokens_eq_append.1 htokens
    have hne : used ++ rest ≠ [] := by simp [clause_ne_nil hclause]
    exact (tailClauses_step hne).2 ⟨used, rest, _, rfl, hclause,
      complete_tailClause hclause (tail_atTail hlater).noDirection, hrise, ih rfl⟩

end EvidenceGraph.Query
