/-
# `EvidenceGraph.Proofs.Query.Skipping` — where skipping ends.

Skipping stops at a keyword or at a clause outside all parentheses, within some lexemes or at the depth of
parentheses that they leave (`skip_cases`). So it passes lexemes whose parentheses are balanced if there is a stop at
none of them (`skip_clear`), and inside parentheses whatever is no parenthesis (`skip_inside`).
-/
import EvidenceGraph.Proofs.Query.Clauses

namespace EvidenceGraph.Query

/-! ## Depth of parentheses -/

/-- A token that is no parenthesis. -/
def Token.Flat (t : Token) : Prop := t ≠ .leftParen ∧ t ≠ .rightParen

instance (t : Token) : Decidable t.Flat := inferInstanceAs (Decidable (_ ∧ _))

theorem Token.Flat.nesting {t : Token} (h : t.Flat) (depth : Nat) : t.nesting depth = depth := by
  cases t with
  | leftParen => exact absurd rfl h.1
  | rightParen => exact absurd rfl h.2
  | word | quoted | comparison | comma => rfl

/-- The depth of parentheses behind some tokens. -/
def depthBehind (depth : Nat) (ts : List Token) : Nat := ts.foldl Token.nesting depth

@[simp] theorem depthBehind_nil (depth : Nat) : depthBehind depth [] = depth := rfl

@[simp] theorem depthBehind_cons (depth : Nat) (t : Token) (ts : List Token) :
    depthBehind depth (t :: ts) = depthBehind (t.nesting depth) ts := rfl

@[simp] theorem depthBehind_append (depth : Nat) (ts us : List Token) :
    depthBehind depth (ts ++ us) = depthBehind (depthBehind depth ts) us := List.foldl_append

theorem depthBehind_flat {ts : List Token} (h : ∀ t ∈ ts, t.Flat) (depth : Nat) : depthBehind depth ts = depth := by
  induction ts with
  | nil => rfl
  | cons t ts ih =>
    rw [depthBehind_cons, (h t List.mem_cons_self).nesting]
    exact ih fun u hu => h u (List.mem_cons_of_mem t hu)

theorem nesting_mono {d e : Nat} (h : d ≤ e) (t : Token) : t.nesting d ≤ t.nesting e := by
  cases t with
  | leftParen => exact Nat.succ_le_succ h
  | rightParen => exact Nat.sub_le_sub_right h 1
  | word | quoted | comparison | comma => exact h

theorem depthBehind_mono {d e : Nat} (h : d ≤ e) (ts : List Token) : depthBehind d ts ≤ depthBehind e ts := by
  induction ts generalizing d e with
  | nil => exact h
  | cons t ts ih => exact ih (nesting_mono h t)

/-- Whatever is left of balanced lexemes closes at least as many parentheses as it opens. -/
theorem balanced_suffix {ls rest : List Lexeme} (h : depthBehind 0 (tokens ls) = 0) (hrest : rest <:+ ls) :
    depthBehind 0 (tokens rest) = 0 := by
  obtain ⟨pre, rfl⟩ := hrest
  rw [tokens_append, depthBehind_append] at h
  have hle : depthBehind 0 (tokens rest) ≤ depthBehind (depthBehind 0 (tokens pre)) (tokens rest) :=
    depthBehind_mono (Nat.zero_le _) _
  omega

/-! ## Keywords among lexemes -/

/-- Lexemes without the keyword `k`. -/
def Lacks (k : Keyword) (ts : List Lexeme) : Prop := ∀ t ∈ ts, t.token.isKeyword k = false

/-- Nothing, or the keyword `k` and what follows it. -/
def Leads (k : Keyword) (ts : List Lexeme) : Prop := ∀ t ∈ ts.head?, t.token.isKeyword k

/-- One keyword is no other one. -/
theorem atKeyword_other {k j : Keyword} {ts : List Lexeme} (h : atKeyword k ts) (hne : k ≠ j) :
    atKeyword j ts = false := by
  obtain ⟨t, rest, rfl, ht⟩ := atKeyword_iff.1 h
  exact Bool.eq_false_iff.2 (not_isKeyword ht hne)

theorem Lacks.suffix {k : Keyword} {ts rest : List Lexeme} (h : Lacks k ts) (hrest : rest <:+ ts) :
    Lacks k rest :=
  fun t ht => h t (hrest.mem ht)

/-- The first keyword `k` among some lexemes, and what stands before it. -/
theorem exists_first_keyword {k : Keyword} {ls : List Lexeme} (h : ∃ t ∈ ls, t.token.isKeyword k) :
    ∃ front behind, ls = front ++ behind ∧ Lacks k front ∧ atKeyword k behind := by
  induction ls with
  | nil =>
    obtain ⟨t, ht, -⟩ := h
    cases ht
  | cons t ls ih =>
    cases ht : t.token.isKeyword k with
    | true => exact ⟨[], t :: ls, rfl, nofun, ht⟩
    | false =>
      obtain ⟨u, hu, huk⟩ := h
      have hmem : u ∈ ls := by
        rcases List.mem_cons.1 hu with rfl | hmem
        · rw [ht] at huk
          cases huk
        · exact hmem
      obtain ⟨front, behind, rfl, hlacks, hbehind⟩ := ih ⟨u, hmem, huk⟩
      refine ⟨t :: front, behind, rfl, ?_, hbehind⟩
      intro v hv
      rcases List.mem_cons.1 hv with rfl | hv
      · exact ht
      · exact hlacks v hv

/-- There is no keyword `k` among some lexemes, or there is a first one. -/
theorem exists_split (k : Keyword) (ls : List Lexeme) :
    Lacks k ls ∨ ∃ front behind, ls = front ++ behind ∧ Lacks k front ∧ atKeyword k behind := by
  by_cases h : ∃ t ∈ ls, t.token.isKeyword k
  · exact .inr (exists_first_keyword h)
  · left
    intro t ht
    exact Bool.eq_false_iff.2 fun hk => h ⟨t, ht, hk⟩

/-! ## Stops -/

/-- The keywords that start a clause behind the conditions. -/
def clauseKeywords : List Keyword := [.order, .limit, .offset]

/-- No clause starts at another token. -/
theorem not_atTailClause {t : Lexeme} (h : ∀ k ∈ clauseKeywords, t.token.isKeyword k = false)
    (rest : List Lexeme) : atTailClause (t :: rest) = false := by
  have horder : atKeyword .order (t :: rest) = false := h .order (by decide)
  have hlimit : atKeyword .limit (t :: rest) = false := h .limit (by decide)
  have hoffset : atKeyword .offset (t :: rest) = false := h .offset (by decide)
  simp [atTailClause, horder, hlimit, hoffset]

theorem not_atStop {stops : List Keyword} {t : Lexeme} {rest : List Lexeme}
    (hstops : ∀ k ∈ stops, t.token.isKeyword k = false) (htail : atTailClause (t :: rest) = false) :
    atStop stops (t :: rest) = false := by
  have hnone : stops.any (fun k => atKeyword k (t :: rest)) = false := by
    rw [List.any_eq_false]
    intro k hk
    simpa [atKeyword] using hstops k hk
  rw [atStop, hnone, htail]
  rfl

theorem skip_stop {stops : List Keyword} {ts : List Lexeme} (h : atStop stops ts) : skip stops 0 ts = ts := by
  cases ts with
  | nil => rfl
  | cons t ts => simp [skip, h]

/-- A keyword among the stops, outside parentheses. -/
theorem skip_keyword {stops : List Keyword} {k : Keyword} (hk : k ∈ stops) {ts : List Lexeme}
    (h : atKeyword k ts) : skip stops 0 ts = ts := by
  refine skip_stop ?_
  simp only [atStop, Bool.or_eq_true, List.any_eq_true]
  exact .inl ⟨k, hk, h⟩

/-- Nothing or a clause, outside parentheses. -/
theorem skip_atTail {stops : List Keyword} {ts : List Lexeme} (h : AtTail ts) : skip stops 0 ts = ts := by
  rcases h with rfl | h
  · rfl
  · refine skip_stop ?_
    simp [atStop, h]

/-! ## What is passed -/

/-- Skipping stops within some lexemes or passes them all. -/
theorem skip_cases (stops : List Keyword) (ls rest : List Lexeme) (depth : Nat) :
    (∃ pre post, ls = pre ++ post ∧ post ≠ [] ∧ atStop stops (post ++ rest) ∧
        skip stops depth (ls ++ rest) = post ++ rest) ∨
      skip stops depth (ls ++ rest) = skip stops (depthBehind depth (tokens ls)) rest := by
  induction ls generalizing depth with
  | nil => exact .inr rfl
  | cons t ls ih =>
    by_cases hstop : (decide (depth = 0) && atStop stops (t :: (ls ++ rest))) = true
    · left
      refine ⟨[], t :: ls, rfl, List.cons_ne_nil t ls, (Bool.and_eq_true_iff.1 hstop).2, ?_⟩
      rw [List.cons_append, skip, if_pos hstop]
    · have hstep : skip stops depth (t :: ls ++ rest) = skip stops (t.token.nesting depth) (ls ++ rest) := by
        rw [List.cons_append, skip, if_neg hstop]
      rw [hstep]
      rcases ih (t.token.nesting depth) with ⟨pre, post, rfl, hne, hat, hskip⟩ | hskip
      · exact .inl ⟨t :: pre, post, rfl, hne, hat, hskip⟩
      · exact .inr hskip

/-- Skipping passes no more than balanced lexemes if there is a stop behind them. -/
theorem skip_to {stops : List Keyword} {ls rest : List Lexeme} (hbalanced : depthBehind 0 (tokens ls) = 0)
    (hrest : skip stops 0 rest = rest) : ∃ post, post <:+ ls ∧ skip stops 0 (ls ++ rest) = post ++ rest := by
  rcases skip_cases stops ls rest 0 with ⟨pre, post, rfl, -, -, hskip⟩ | hskip
  · exact ⟨post, List.suffix_append pre post, hskip⟩
  · rw [hbalanced, hrest] at hskip
    exact ⟨[], List.nil_suffix, hskip⟩

/-- No clause starts within some lexemes, with others behind them. -/
def NoClause : List Lexeme → List Lexeme → Prop
  | [], _ => True
  | t :: ls, rest => atTailClause (t :: (ls ++ rest)) = false ∧ NoClause ls rest

theorem noClause_append {ls ms rest : List Lexeme} :
    NoClause (ls ++ ms) rest ↔ NoClause ls (ms ++ rest) ∧ NoClause ms rest := by
  induction ls with
  | nil => simp [NoClause]
  | cons t ls ih => simp only [List.cons_append, NoClause, ih, List.append_assoc, and_assoc]

theorem NoClause.suffix {ls post rest : List Lexeme} (h : NoClause ls rest) (hpost : post <:+ ls) :
    NoClause post rest := by
  obtain ⟨pre, rfl⟩ := hpost
  exact (noClause_append.1 h).2

/-- Lexemes that are no keywords of clauses start none. -/
theorem noClause_of_words {ls : List Lexeme} (h : ∀ t ∈ ls, ∀ k ∈ clauseKeywords, t.token.isKeyword k = false)
    (rest : List Lexeme) : NoClause ls rest := by
  induction ls with
  | nil => trivial
  | cons t ls ih =>
    exact ⟨not_atTailClause (h t List.mem_cons_self) _, ih fun u hu => h u (List.mem_cons_of_mem t hu)⟩

theorem NoClause.not_atTailClause {ls rest : List Lexeme} (h : NoClause ls rest) (hne : ls ≠ []) :
    atTailClause (ls ++ rest) = false := by
  cases ls with
  | nil => exact absurd rfl hne
  | cons t ls => exact h.1

/-- Balanced lexemes are passed if no clause starts within them and none of them is a keyword to stop at. -/
theorem skip_clear {stops : List Keyword} {ls rest : List Lexeme} (hbalanced : depthBehind 0 (tokens ls) = 0)
    (hclause : NoClause ls rest) (hwords : ∀ t ∈ ls, ∀ k ∈ stops, t.token.isKeyword k = false) :
    skip stops 0 (ls ++ rest) = skip stops 0 rest := by
  rcases skip_cases stops ls rest 0 with ⟨pre, post, rfl, hne, hat, -⟩ | hskip
  · obtain ⟨t, post, rfl⟩ := List.exists_cons_of_ne_nil hne
    have hstop : atStop stops (t :: post ++ rest) = false :=
      not_atStop (hwords t (List.mem_append_right pre List.mem_cons_self))
        ((hclause.suffix (List.suffix_append pre _)).not_atTailClause hne)
    rw [hstop] at hat
    cases hat
  · rw [hskip, hbalanced]

/-- So are lexemes outside parentheses that are no keywords to stop at. -/
theorem skip_flat {stops : List Keyword} {ls : List Lexeme} (hflat : ∀ t ∈ ls, t.token.Flat)
    (hwords : ∀ t ∈ ls, ∀ k ∈ stops ++ clauseKeywords, t.token.isKeyword k = false) (rest : List Lexeme) :
    skip stops 0 (ls ++ rest) = skip stops 0 rest := by
  refine skip_clear (depthBehind_flat (forall_mem_tokens.2 hflat) 0)
    (noClause_of_words (fun t ht k hk => ?_) rest) fun t ht k hk => ?_
  · exact hwords t ht k (List.mem_append_right stops hk)
  · exact hwords t ht k (List.mem_append_left clauseKeywords hk)

/-- Inside parentheses nothing is a stop. -/
theorem skip_inside {stops : List Keyword} {ls : List Lexeme} (h : ∀ t ∈ ls, t.token.Flat) (depth : Nat)
    (rest : List Lexeme) : skip stops (depth + 1) (ls ++ rest) = skip stops (depth + 1) rest := by
  induction ls with
  | nil => rfl
  | cons t ls ih =>
    have hdepth : (decide (depth + 1 = 0) && atStop stops (t :: (ls ++ rest))) = false := rfl
    rw [List.cons_append, skip, hdepth, if_neg Bool.false_ne_true, (h t List.mem_cons_self).nesting]
    exact ih fun u hu => h u (List.mem_cons_of_mem t hu)

/-- A group in parentheses is passed as a whole. -/
theorem skip_group {stops : List Keyword} {l r : Lexeme} {inside : List Lexeme} (hl : l.token = .leftParen)
    (hinside : ∀ t ∈ inside, t.token.Flat) (hr : r.token = .rightParen) (rest : List Lexeme) :
    skip stops 0 (l :: (inside ++ r :: rest)) = skip stops 0 rest := by
  have hword (k : Keyword) : l.token.isKeyword k = false := by
    rw [hl]
    rfl
  have hstop : atStop stops (l :: (inside ++ r :: rest)) = false :=
    not_atStop (fun k _ => hword k) (not_atTailClause (fun k _ => hword k) _)
  have hopen : skip stops 0 (l :: (inside ++ r :: rest)) = skip stops 1 (inside ++ r :: rest) := by
    rw [skip, hstop, Bool.and_false, if_neg Bool.false_ne_true, hl]
    rfl
  have hclose : skip stops 1 (r :: rest) = skip stops 0 rest := by
    have hdepth : (decide (1 = 0) && atStop stops (r :: rest)) = false := rfl
    rw [skip, hdepth, if_neg Bool.false_ne_true, hr]
    rfl
  rw [hopen, skip_inside hinside 0, hclose]

/-! ## What cannot be read -/

/-- A part that cannot be read is skipped and reported. -/
theorem settle_miss {α : Type} {text : List Char} {stops : List Keyword} {reader : Reader α}
    {ts gap : List Lexeme} {fault : Fault} (h : reader ts = .error ⟨fault, gap⟩) :
    settle .lenient text stops reader ts =
      .ok ⟨none, [⟨fragment text ts (skip stops 0 gap), fault⟩], skip stops 0 gap⟩ := by
  simp only [settle, h]

end EvidenceGraph.Query
