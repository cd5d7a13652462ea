/-
# `EvidenceGraph.Proofs.Query.Acceptance` — which texts are queries, and what they mean.

A strict reading lets the ranks of the clauses behind the conditions rise, so that what stands there is an
order, a limit and an offset, each of which may be missing (`tail_behind_conditions`). With what is known
of lexemes this gives the texts: a text is accepted exactly if its quotes are closed and its tokens are a
sentence of the grammar, and it is read as the query that the sentence means.

That lenient readings agree with strict ones is stated here too, so that it has a text of each kind beside
it.
-/
import EvidenceGraph.Proofs.Query.Phrases

namespace EvidenceGraph.Query

open EvidenceGraph.Text Grammar

/-! ## Clauses whose ranks rise -/

/-- Behind rank `last`, a clause of the next rank may come or be left out. -/
theorem tail_strict_iff {last : Nat} {ts : List Token} {cs : List TailClause} :
    Tail .strict last ts cs ↔
      Tail .strict (last + 1) ts cs ∨
        ∃ used rest c later, ts = used ++ rest ∧ cs = c :: later ∧ Clause used c ∧
          rank c = last + 1 ∧ Tail .strict (last + 1) rest later := by
  constructor
  · intro h
    cases h with
    | nil => exact .inl .nil
    | @cons _ used rest c later hclause hrise hlater =>
      have hlt : last < rank c := hrise rfl
      rw [Nat.max_eq_right (Nat.le_of_lt hlt)] at hlater
      by_cases hnext : rank c = last + 1
      · rw [hnext] at hlater
        exact .inr ⟨used, rest, c, later, rfl, rfl, hclause, hnext, hlater⟩
      · left
        -- a later rank, so the next one is left out
        refine .cons hclause (fun _ => by omega) ?_
        rw [Nat.max_eq_right (by omega)]
        exact hlater
  · rintro (h | ⟨used, rest, c, later, rfl, rfl, hclause, hnext, hlater⟩)
    · cases h with
      | nil => exact .nil
      | cons hclause hrise hlater =>
        have hlt := hrise rfl
        refine .cons hclause (fun _ => by omega) ?_
        rw [Nat.max_eq_right (by omega)] at hlater ⊢
        exact hlater
    · refine .cons hclause (fun _ => by omega) ?_
      rw [hnext, Nat.max_eq_right (by omega)]
      exact hlater

/-- No clause comes behind an offset. -/
theorem tail_behind_offset {ts : List Token} {cs : List TailClause} :
    Tail .strict 3 ts cs ↔ ts = [] ∧ cs = [] := by
  constructor
  · intro h
    cases h with
    | nil => exact ⟨rfl, rfl⟩
    | @cons _ _ _ c _ _ hrise _ =>
      have hrank : rank c ≤ 3 := by cases c <;> simp [rank]
      exact absurd (hrise rfl) (by omega)
  · rintro ⟨rfl, rfl⟩
    exact .nil

section Behind

variable {ts : List Token} {fields : List String} {conditions : List Condition}
  {orderBy : Option String} {order : Order} {limit : Option UInt64} {q : Query}

/-- Behind a limit there may be an offset. -/
theorem tail_behind_limit :
    (∃ cs, Tail .strict 2 ts cs ∧ q = cs.foldl apply ⟨fields, conditions, orderBy, order, limit, 0⟩) ↔
      ∃ n, Offset ts n ∧ q = ⟨fields, conditions, orderBy, order, limit, n⟩ := by
  constructor
  · rintro ⟨cs, h, rfl⟩
    rcases tail_strict_iff.1 h with h | ⟨used, rest, c, later, rfl, rfl, hclause, hrank, hlater⟩
    · obtain ⟨rfl, rfl⟩ := tail_behind_offset.1 h
      exact ⟨0, .absent, rfl⟩
    · obtain ⟨rfl, rfl⟩ := tail_behind_offset.1 hlater
      cases hclause with
      | order | limit => cases hrank
      | offset ho ht => exact ⟨_, .present ho ht, rfl⟩
  · rintro ⟨n, h, rfl⟩
    cases h with
    | absent => exact ⟨[], .nil, rfl⟩
    | present ho ht =>
      exact ⟨[.offset n], tail_strict_iff.2 (.inr ⟨_, [], _, [], rfl, rfl, .offset ho ht, rfl, .nil⟩), rfl⟩

/-- Behind an order there may be a limit, and what may be behind a limit. -/
theorem tail_behind_order :
    (∃ cs, Tail .strict 1 ts cs ∧ q = cs.foldl apply ⟨fields, conditions, orderBy, order, none, 0⟩) ↔
      ∃ us vs m n, ts = us ++ vs ∧ Limit us m ∧ Offset vs n ∧
        q = ⟨fields, conditions, orderBy, order, m, n⟩ := by
  constructor
  · rintro ⟨cs, h, rfl⟩
    rcases tail_strict_iff.1 h with h | ⟨used, rest, c, later, rfl, rfl, hclause, hrank, hlater⟩
    · obtain ⟨n, hoffset, hq⟩ := tail_behind_limit.1 ⟨cs, h, rfl⟩
      exact ⟨[], ts, none, n, rfl, .absent, hoffset, hq⟩
    · cases hclause with
      | order | offset => cases hrank
      | @limit _ _ m hl ht =>
        obtain ⟨n, hoffset, hq⟩ := tail_behind_limit.1 ⟨later, hlater, rfl⟩
        exact ⟨_, rest, some m, n, rfl, .present hl ht, hoffset, hq⟩
  · rintro ⟨us, vs, m, n, rfl, hlimit, hoffset, rfl⟩
    cases hlimit with
    | absent =>
      obtain ⟨cs, hcs, hq⟩ := tail_behind_limit.2 ⟨n, hoffset, rfl⟩
      exact ⟨cs, tail_strict_iff.2 (.inl hcs), hq⟩
    | present hl ht =>
      obtain ⟨cs, hcs, hq⟩ := tail_behind_limit.2 ⟨n, hoffset, rfl⟩
      exact ⟨_ :: cs, tail_strict_iff.2 (.inr ⟨_, vs, _, cs, rfl, rfl, .limit hl ht, rfl, hcs⟩), hq⟩

/-- Behind the conditions there may be an order, and what may be behind an order. -/
theorem tail_behind_conditions :
    (∃ cs, Tail .strict 0 ts cs ∧ q = cs.foldl apply ⟨fields, conditions, none, .ascending, none, 0⟩) ↔
      ∃ us vs ws o d m n, ts = us ++ vs ++ ws ∧ OrderBy us o d ∧ Limit vs m ∧ Offset ws n ∧
        q = ⟨fields, conditions, o, d, m, n⟩ := by
  constructor
  · rintro ⟨cs, h, rfl⟩
    rcases tail_strict_iff.1 h with h | ⟨used, rest, c, later, rfl, rfl, hclause, hrank, hlater⟩
    · obtain ⟨vs, ws, m, n, rfl, hlimit, hoffset, hq⟩ := tail_behind_order.1 ⟨cs, h, rfl⟩
      exact ⟨[], vs, ws, none, .ascending, m, n, rfl, .absent, hlimit, hoffset, hq⟩
    · cases hclause with
      | limit | offset => cases hrank
      | @order _ field d horder =>
        obtain ⟨vs, ws, m, n, rfl, hlimit, hoffset, hq⟩ := tail_behind_order.1 ⟨later, hlater, rfl⟩
        exact ⟨used, vs, ws, some field, d, m, n, by rw [List.append_assoc], horder, hlimit, hoffset, hq⟩
  · rintro ⟨us, vs, ws, o, d, m, n, rfl, horder, hlimit, hoffset, rfl⟩
    rw [List.append_assoc]
    cases o with
    | none =>
      cases horder
      obtain ⟨cs, hcs, hq⟩ := tail_behind_order.2 ⟨vs, ws, m, n, rfl, hlimit, hoffset, rfl⟩
      exact ⟨cs, tail_strict_iff.2 (.inl hcs), hq⟩
    | some field =>
      obtain ⟨cs, hcs, hq⟩ := tail_behind_order.2 ⟨vs, ws, m, n, rfl, hlimit, hoffset, rfl⟩
      exact ⟨_ :: cs, tail_strict_iff.2 (.inr ⟨us, _, _, cs, rfl, rfl, .order horder, rfl, hcs⟩), hq⟩

end Behind

/-- Strict readings know the sentences of the grammar. -/
theorem phrases_strict_iff {ts : List Token} {q : Query} : Phrases .strict ts q ↔ Sentence ts q := by
  constructor
  · rintro ⟨hs, hnames, hf, hknown, hfilter, hlater⟩
    obtain ⟨us, vs, ws, o, d, m, n, rfl, horder, hlimit, hoffset, hq⟩ :=
      tail_behind_conditions.1 ⟨_, hlater, rfl⟩
    rw [hq, ← List.append_assoc, ← List.append_assoc]
    exact .mk hs hnames hf (hknown rfl) hfilter horder hlimit hoffset
  · rintro ⟨hs, hnames, hf, hknown, hfilter, horder, hlimit, hoffset⟩
    obtain ⟨cs, hcs, hq⟩ :=
      tail_behind_conditions.2 ⟨_, _, _, _, _, _, _, rfl, horder, hlimit, hoffset, rfl⟩
    have hphrases := Phrases.mk hs hnames hf (fun _ => hknown) hfilter hcs
    rw [← hq] at hphrases
    simpa only [List.append_assoc] using hphrases

/-! ## Texts -/

/-- A text that means a query: its quotes are closed, and its tokens are a sentence with this meaning. -/
structure Means (source : String) (q : Query) : Prop where
  closed : (lex (trimmed source)).openQuote = none
  sentence : Sentence (tokens (lex (trimmed source)).lexemes) q

theorem openQuoteReports_eq_nil {text : List Char} {lexed : Lexed} :
    openQuoteReports text lexed = [] ↔ lexed.openQuote = none := by
  cases h : lexed.openQuote <;> simp [openQuoteReports, h]

/-- No lexemes are no query. -/
theorem parseLexemes_eq_clean {mode : Mode} {text : List Char} {ts : List Lexeme} {q : Query} :
    parseLexemes mode text ts = .ok ⟨q, []⟩ ↔ Phrases mode (tokens ts) q := by
  unfold parseLexemes
  cases ts with
  | nil =>
    constructor
    · intro h
      obtain ⟨reports, hreports, heq⟩ := except_map_eq_ok.1 h
      cases mode <;> cases hreports
      cases heq
    · intro h
      cases h
  | cons t ts => exact clauses_eq_clean

/-- A text is read without reports exactly if its quotes are closed and its tokens are a query. -/
theorem parseIn_eq_clean {mode : Mode} {source : String} {q : Query} :
    parseIn mode source = .ok ⟨q, []⟩ ↔
      (lex (trimmed source)).openQuote = none ∧
        Phrases mode (tokens (lex (trimmed source)).lexemes) q := by
  rw [← @openQuoteReports_eq_nil (trimmed source)]
  by_cases hquotes : openQuoteReports (trimmed source) (lex (trimmed source)) = []
  · rw [parseIn_eq fun _ => hquotes, map_after_eq_clean, parseLexemes_eq_clean]
  · constructor
    · intro h
      cases mode with
      | strict =>
        obtain ⟨found, later, hreports⟩ := List.exists_cons_of_ne_nil hquotes
        rw [parseIn_strict_of_open hreports] at h
        cases h
      | lenient =>
        have hread : parseIn .lenient source = _ := parseIn_eq nofun
        rw [hread, map_after_eq_clean] at h
        exact absurd h.1 hquotes
    · rintro ⟨hnone, -⟩
      exact absurd hnone hquotes

theorem parseStrict_eq_ok_iff_means {source : String} {q : Query} :
    parseStrict source = .ok q ↔ Means source q := by
  rw [parseStrict_eq_ok, parseIn_eq_clean, phrases_strict_iff]
  exact ⟨fun ⟨hclosed, hsentence⟩ => ⟨hclosed, hsentence⟩, fun h => ⟨h.closed, h.sentence⟩⟩

/-- The texts that a strict reading accepts are exactly those that mean a query, and it returns the query
that they mean. Every other text is refused with a fault. -/
theorem parseStrict_accepts_grammar (source : String) :
    (∀ q, parseStrict source = .ok q ↔ Means source q) ∧
      ((∃ found, parseStrict source = .error found) ↔ ∀ q, ¬ Means source q) := by
  refine ⟨fun q => parseStrict_eq_ok_iff_means, ?_⟩
  constructor
  · rintro ⟨found, hfound⟩ q hmeans
    have haccepted : parseStrict source = .ok q := parseStrict_eq_ok_iff_means.2 hmeans
    rw [hfound] at haccepted
    cases haccepted
  · intro hnone
    cases hparse : parseStrict source with
    | error found => exact ⟨found, rfl⟩
    | ok q => exact absurd (parseStrict_eq_ok_iff_means.1 hparse) (hnone q)

/-- The two modes agree on every text. What is accepted strictly is read leniently as the same query, and
nothing is reported. The message of a strict fault is that of the first lenient report, or one of the two
that only strict readings give. So a text with any lenient report is refused strictly. -/
theorem strict_lenient_agree (source : String) :
    (∀ q, parseStrict source = .ok q → parse source = ⟨q, []⟩) ∧
      (∀ found, parseStrict source = .error found →
        (∃ first later, (parse source).diagnostics = first :: later ∧
          first.fault.message = found.fault.message) ∨
        found.fault.message = "unknown source, expected `evidence`" ∨
        found.fault.message = "clause repeated or out of order") ∧
      ((parse source).diagnostics ≠ [] → ∃ found, parseStrict source = .error found) := by
  refine ⟨fun q h => parse_of_strict h, fun found h => ?_, fun hreported => ?_⟩
  · rcases fault_of_strict h with ⟨first, later, hp, hfault⟩ | honly
    · exact .inl ⟨first, later, hp, by rw [hfault]⟩
    · right
      generalize found.fault = fault at honly
      cases honly with
      | unknownSource => exact .inl rfl
      | clauseOutOfOrder => exact .inr rfl
  · cases hstrict : parseStrict source with
    | error found => exact ⟨found, rfl⟩
    | ok q =>
      rw [parse_of_strict hstrict] at hreported
      exact absurd rfl hreported

/-- A text of each kind: accepted, faulty in both modes, and refused by strict readings only. -/
theorem strict_lenient_agree_on_three :
    parse "SELECT * FROM evidence LIMIT 1;" = ⟨{ limit := some 1 }, []⟩ ∧
      (∃ found, parseStrict "SELECT a," = .error found) ∧
      ∃ found, parseStrict "SELECT * FROM papers" = .error found ∧
        (found.fault.message = "unknown source, expected `evidence`" ∨
          found.fault.message = "clause repeated or out of order") := by
  have htokens : tokens (lex (trimmed "SELECT * FROM evidence LIMIT 1;")).lexemes =
      .word "SELECT" :: ([.word "*"] ++ .word "FROM" :: .word "evidence" ::
        ([] ++ [] ++ [.word "LIMIT", .word "1"] ++ [])) := by decide +kernel
  have hsentence : Sentence (tokens (lex (trimmed "SELECT * FROM evidence LIMIT 1;")).lexemes)
      { limit := some 1 } := by
    rw [htokens]
    exact .mk rfl (.last (.word (by decide))) rfl rfl .absent .absent (.present rfl (.word rfl)) .absent
  have haccepted : parseStrict "SELECT * FROM evidence LIMIT 1;" = .ok { limit := some 1 } :=
    parseStrict_eq_ok_iff_means.2 ⟨by decide +kernel, hsentence⟩
  have hreported : (parse "SELECT a,").diagnostics ≠ [] := by decide +kernel
  refine ⟨(strict_lenient_agree _).1 _ haccepted, (strict_lenient_agree _).2.2 hreported, ?_⟩
  have hsilent : (parse "SELECT * FROM papers").diagnostics = [] := by decide +kernel
  cases hrefused : parseStrict "SELECT * FROM papers" with
  | error found =>
    refine ⟨found, rfl, ?_⟩
    rcases (strict_lenient_agree _).2.1 found hrefused with ⟨first, later, hreport, -⟩ | honly
    · rw [hsilent] at hreport
      cases hreport
    · exact honly
  | ok q =>
    have hfault : (parseStrict "SELECT * FROM papers").isOk = false := by decide +kernel
    rw [hrefused] at hfault
    cases hfault

end EvidenceGraph.Query
