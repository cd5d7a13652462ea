/-
# `EvidenceGraph.Proofs.Query.Integers` — integers in queries are read exactly.

A bare word without a point is a truth value, an integer of 64 bits or a text, and which of these it is can be
seen from its letters, sign and digits. A limit or an offset takes exactly the words that are counts below
`2 ^ 64`, wherever its clause stands and in both modes (`TakesCounts`). A number beyond the limits of its type
never becomes another number: it is left a text, or it is a fault of its clause. What is written of a query
reads back with the same integers, limit and offset.
-/
import EvidenceGraph.Proofs.Decimal.Places
import EvidenceGraph.Proofs.Query.Faithful
import EvidenceGraph.Proofs.Query.Tails

namespace EvidenceGraph.Query

open EvidenceGraph.Text
open Decimal (Signed Counting)

/-! ## Bare words -/

/-- Only the two names of truth values are read as such. -/
theorem ofBare_eq_bool {w : String} {b : Bool} :
    Literal.ofBare w = .bool b ↔ sameWord w (if b then "true" else "false") := by
  constructor
  · intro h
    unfold Literal.ofBare at h
    repeat' split at h
    all_goals cases h
    all_goals assumption
  · intro h
    cases b with
    | true => exact if_pos h
    | false =>
      -- no word is a case of both names
      have htrue : ¬ sameWord w "true" := fun htrue => absurd (sameWord_of_same htrue h) (by decide)
      rw [Literal.ofBare, if_neg htrue]
      exact if_pos h

/-- Exactly the words that read as one are integers. -/
theorem ofBare_eq_int {w : String} {i : Int64} : Literal.ofBare w = .int i ↔ Decimal.readInt64 w = some i := by
  constructor
  · intro h
    unfold Literal.ofBare at h
    repeat' split at h
    all_goals cases h
    assumption
  · intro h
    obtain ⟨n, hn, -⟩ := Option.bind_eq_some_iff.1 h
    obtain ⟨d, hd, hdigit⟩ := (Decimal.integer?_eq_some_iff.1 hn).exists_isDigit
    have hpoint : w.toList.contains '.' = false := by
      refine Bool.eq_false_iff.2 fun hpoint => ?_
      rcases Decimal.isDigit_or_sign_of_integer? hn (List.contains_iff_mem.1 hpoint) with h | h | h <;>
        revert h <;> decide
    rw [ofBare_of_isMark hd (Decimal.isMark_of_isDigit hdigit), hpoint, h]
    rfl

/-- A word without a point that is neither is a text, as it stands. -/
theorem ofBare_eq_text {w : String} (hpoint : '.' ∉ w.toList) (htrue : sameWord w "true" = false)
    (hfalse : sameWord w "false" = false) (hint : Decimal.readInt64 w = none) : Literal.ofBare w = .text w := by
  rw [ofBare_of_not_sameWord htrue hfalse, if_neg (by simpa using hpoint), hint]
  rfl

/-! ## Counts -/

/-- How the clause of the keyword `k` with the given rank is read, behind clauses of lower ranks if strictly. If the
word behind the keyword is a count below `2 ^ 64`, this value is put into the query. If not, a strict reading stops
with the fault of the clause, and a lenient one reports it and goes on where skipping stops, with the query as it
was. -/
structure TakesCounts (k : Keyword) (rank : Nat) (put : Query → UInt64 → Query) : Prop where
  accepted : ∀ {mode : Mode} {last : Nat} {t u : Lexeme} {w : String} {n : UInt64}
    (text : List Char) (q : Query) (rest : List Lexeme),
    t.token.isKeyword k → u.token = .word w → (mode = .strict → last < rank) → Counting w.toList n.toNat →
      tailClauses mode text last q (t :: u :: rest) = tailClauses mode text (max last rank) (put q n) rest
  stopped : ∀ {last : Nat} {t u : Lexeme} {w : String} (text : List Char) (q : Query) (rest : List Lexeme),
    t.token.isKeyword k → u.token = .word w → last < rank → (∀ m, Counting w.toList m → 2 ^ 64 ≤ m) →
      tailClauses .strict text last q (t :: u :: rest) =
        .error ⟨fragment text (t :: u :: rest) rest, .missingCount k⟩
  reported : ∀ {t u : Lexeme} {w : String} (text : List Char) (last : Nat) (q : Query) (rest : List Lexeme),
    t.token.isKeyword k → u.token = .word w → (∀ m, Counting w.toList m → 2 ^ 64 ≤ m) →
      tailClauses .lenient text last q (t :: u :: rest) =
        (tailClauses .lenient text (max last rank) q (skip [] 0 (u :: rest))).map
          (Parsed.after [⟨fragment text (t :: u :: rest) (skip [] 0 (u :: rest)), .missingCount k⟩])

theorem readCount_of_counting {w : String} {n : UInt64} (h : Counting w.toList n.toNat) :
    Decimal.readCount w = some n :=
  Decimal.readCount_eq_some_iff.2 ⟨_, h, n.toNat_lt, rfl⟩

theorem readCount_eq_none {w : String} (h : ∀ m, Counting w.toList m → 2 ^ 64 ≤ m) :
    Decimal.readCount w = none := by
  refine Option.eq_none_iff_forall_ne_some.2 fun n hn => ?_
  obtain ⟨m, hm, hlt, -⟩ := Decimal.readCount_eq_some_iff.1 hn
  exact absurd (h m hm) (Nat.not_le.2 hlt)

/-- A strict reading of the clauses ends with the first one that cannot be read. -/
theorem tailClauses_stop {text : List Char} {last : Nat} {q : Query} {ts gap : List Lexeme} {fault : Fault}
    (hne : ts ≠ []) (h : rankedClause .strict last (clauseRank ts) ts = .error ⟨fault, gap⟩) :
    tailClauses .strict text last q ts = .error ⟨fragment text ts gap.tail, fault⟩ := by
  have hsettle : settle .strict text [] (rankedClause .strict last (clauseRank ts)) ts =
      .error ⟨fragment text ts gap.tail, fault⟩ := by simp only [settle, h]
  rw [tailClauses_eq .strict text last q hne, hsettle]
  rfl

section

variable {k : Keyword} {rank : Nat} {make : UInt64 → TailClause}

/-- The clause of a count fails at a word that is none. -/
theorem countClause_of_no_count {t u : Lexeme} {w : String} (make : UInt64 → TailClause) (rest : List Lexeme)
    (ht : t.token.isKeyword k) (hu : u.token = .word w) (hnone : ∀ m, Counting w.toList m → 2 ^ 64 ≤ m) :
    countClause k make (t :: u :: rest) = .error ⟨.missingCount k, u :: rest⟩ := by
  refine countClause_miss make ht ?_
  rintro v ⟨⟩
  rw [hu]
  exact readCount_eq_none hnone

/-- What holds of both counts: their clauses differ in their keyword, their rank, and what they set. -/
theorem takesCounts
    (hrank : ∀ (t : Lexeme) (rest : List Lexeme), t.token.isKeyword k → clauseRank (t :: rest) = rank)
    (hclause : tailClause rank = countClause k make) : TakesCounts k rank fun q n => q.apply (make n) where
  accepted {mode last t u w n} text q rest ht hu hdue hcount := by
    have hnumber : Grammar.Count u.token n := hu ▸ .word (readCount_of_counting hcount)
    have hread : rankedClause mode last (clauseRank ([t, u] ++ rest)) ([t, u] ++ rest) = .ok (make n, rest) := by
      rw [rankedClause_eq_ok, List.cons_append, hrank t _ ht, hclause]
      exact ⟨complete_countClause ht hnumber make rest, fun hmode _ => hdue hmode⟩
    have htaken := tailClauses_read text q (List.cons_ne_nil t [u]) hread
    rwa [List.cons_append, hrank t _ ht] at htaken
  stopped {last t u w} text q rest ht hu hdue hnone := by
    have hmiss : rankedClause .strict last (clauseRank (t :: u :: rest)) (t :: u :: rest) =
        .error ⟨.missingCount k, u :: rest⟩ := by
      rw [hrank t _ ht, rankedClause, if_neg (by omega), hclause]
      exact countClause_of_no_count make rest ht hu hnone
    rw [tailClauses_stop (List.cons_ne_nil t _) hmiss, List.tail_cons]
  reported {t u w} text last q rest ht hu hnone := by
    have hmiss : tailClause (clauseRank (t :: u :: rest)) (t :: u :: rest) =
        .error ⟨.missingCount k, u :: rest⟩ := by
      rw [hrank t _ ht, hclause]
      exact countClause_of_no_count make rest ht hu hnone
    have hshort := Nat.lt_succ_of_le (skip_suffix [] 0 (u :: rest)).length_le
    rw [tailClauses_miss text last q hmiss hshort, hrank t _ ht]

end

theorem takesCounts_limit : TakesCounts .limit 2 fun q n => { q with limit := some n } :=
  takesCounts (fun _ rest ht => (clauseRank_of_keyword rest).2.1 ht) rfl

theorem takesCounts_offset : TakesCounts .offset 3 fun q n => { q with offset := n } :=
  takesCounts (fun _ rest ht => (clauseRank_of_keyword rest).2.2 ht) rfl

/-! ## Numbers in canonical texts -/

/-- Integers are read back, and nothing else is read back as one. -/
theorem Literal.reread_eq_int {v : Literal} {i : Int64} : v.reread = .int i ↔ v = .int i := by
  cases v with
  | float x =>
    rw [Literal.reread, ofBare_eq_int, Decimal.readInt64_display]
    exact iff_of_false nofun nofun
  | bool | int | text | list => rfl

theorem getElem?_reread_eq_int {q : Query} {j : Nat} {field : String} {op : Operator} {i : Int64} :
    q.reread.conditions[j]? = some ⟨field, op, .int i⟩ ↔ q.conditions[j]? = some ⟨field, op, .int i⟩ := by
  rw [reread, List.getElem?_map, Option.map_eq_some_iff]
  constructor
  · rintro ⟨⟨f, o, v⟩, hc, heq⟩
    obtain ⟨rfl, rfl, hv⟩ := Condition.mk.inj heq
    obtain rfl : v = .int i := Literal.reread_eq_int.1 hv
    exact hc
  · intro hc
    exact ⟨_, hc, rfl⟩

/-! ## Exactness -/

/-- A word without a point is an integer exactly if it is an optional sign and digits that stand for a number of
64 bits, it is a truth value exactly if it is one of their names in any case, and any other one is a text as it
stands. A limit and an offset take over exactly the words that are an optional plus sign and digits that stand for a
number below `2 ^ 64`. The canonical text of a query of the right shape is read in both modes with the integers, the
limit and the offset of the query. -/
theorem integers_read_exactly :
    (∀ w : String, '.' ∉ w.toList →
      (∀ i, Literal.ofBare w = .int i ↔
        ∃ n, Signed w.toList n ∧ -2 ^ 63 ≤ n ∧ n < 2 ^ 63 ∧ i.toInt = n) ∧
      (∀ b, Literal.ofBare w = .bool b ↔ sameWord w (if b then "true" else "false")) ∧
      (sameWord w "true" = false → sameWord w "false" = false →
        (∀ n, Signed w.toList n → ¬ (-2 ^ 63 ≤ n ∧ n < 2 ^ 63)) → Literal.ofBare w = .text w)) ∧
    TakesCounts .limit 2 (fun q n => { q with limit := some n }) ∧
    TakesCounts .offset 3 (fun q n => { q with offset := n }) ∧
    ∀ q : Query, q.Shaped → ∃ q', parseStrict q.display = .ok q' ∧ parse q.display = ⟨q', []⟩ ∧
      q'.limit = q.limit ∧ q'.offset = q.offset ∧
      ∀ (j : Nat) (field : String) (op : Operator) (i : Int64),
        q'.conditions[j]? = some ⟨field, op, .int i⟩ ↔ q.conditions[j]? = some ⟨field, op, .int i⟩ := by
  refine ⟨fun w hpoint => ⟨fun i => ?_, fun b => ofBare_eq_bool, fun htrue hfalse hnone => ?_⟩,
    takesCounts_limit, takesCounts_offset, fun q hq => ?_⟩
  · rw [ofBare_eq_int, Decimal.readInt64_eq_some_iff]
  · refine ofBare_eq_text hpoint htrue hfalse (Option.eq_none_iff_forall_ne_some.2 fun i hi => ?_)
    obtain ⟨n, hn, hlow, hhigh, -⟩ := Decimal.readInt64_eq_some_iff.1 hi
    exact hnone n hn ⟨hlow, hhigh⟩
  · have haccepted := parseStrict_display hq
    exact ⟨q.reread, haccepted, parse_of_strict haccepted, rfl, rfl, fun _ _ _ _ => getElem?_reread_eq_int⟩

/-- Numbers at the limits of their types and next to them, with signs, and with zeros before them. -/
theorem integers_read_exactly_at_limits :
    Literal.ofBare "-9223372036854775808" = .int Int64.minValue ∧
      Literal.ofBare "+009223372036854775808" = .text "+009223372036854775808" ∧
      tailClauses .strict [] 1 {} [⟨.word "limit", 0, 5⟩, ⟨.word "+0018446744073709551615", 6, 29⟩] =
        .ok ⟨{ limit := some 18446744073709551615 }, []⟩ ∧
      (∃ shown,
        tailClauses .strict [] 2 {} [⟨.word "OFFSET", 0, 6⟩, ⟨.word "18446744073709551616", 7, 27⟩] =
          .error ⟨shown, .missingCount .offset⟩) ∧
      let q : Query :=
        { conditions := [⟨"a", .compare .lt, .int Int64.minValue⟩]
          limit := some 18446744073709551615
          offset := 18446744073709551615 }
      ∃ q', parseStrict q.display = .ok q' ∧ q'.limit = q.limit ∧ q'.offset = q.offset ∧
        q'.conditions[0]? = some ⟨"a", .compare .lt, .int Int64.minValue⟩ := by
  obtain ⟨hbare, hlimit, hoffset, hwritten⟩ := integers_read_exactly
  have hleast : Signed "-9223372036854775808".toList (-2 ^ 63) := Decimal.integer?_eq_some_iff.1 (by decide)
  have hbeyond : ∀ n, Signed "+009223372036854775808".toList n → ¬ (-2 ^ 63 ≤ n ∧ n < 2 ^ 63) := by
    intro n hn
    have hread : Decimal.integer? "+009223372036854775808".toList = some (2 ^ 63) := by decide
    rw [Decimal.integer?_eq_some_iff.2 hn, Option.some.injEq] at hread
    omega
  have hgreatest : Counting "+0018446744073709551615".toList (18446744073709551615 : UInt64).toNat :=
    Decimal.counting_iff.2 (by decide +kernel)
  have htooGreat : ∀ m, Counting "18446744073709551616".toList m → 2 ^ 64 ≤ m := by
    intro m hm
    have hread : Decimal.natural? "18446744073709551616".toList = some (2 ^ 64) := by decide +kernel
    have hplus : "18446744073709551616".toList.head? ≠ some '+' := by decide
    rw [Decimal.counting_iff, if_neg hplus, hread, Option.some.injEq] at hm
    exact Nat.le_of_eq hm
  refine ⟨((hbare _ (by decide)).1 _).2 ⟨_, hleast, by decide, by decide, Int64.toInt_minValue⟩,
    (hbare _ (by decide)).2.2 (by decide) (by decide) hbeyond, ?_, ?_, ?_⟩
  · rw [hlimit.accepted [] {} [] (by decide) rfl (fun _ => by decide) hgreatest, tailClauses]
  · exact ⟨_, hoffset.stopped [] {} [] (by decide) rfl (by decide) htooGreat⟩
  · intro q
    have hword : BareWord "a" := bareWord_iff.2 (.inr (by decide))
    have hcondition : Condition.Shaped ⟨"a", .compare .lt, .int Int64.minValue⟩ :=
      .onField hword (by decide) (.compare .lt (.int _))
    have hshaped : q.Shaped :=
      { select_ne := by decide
        select := List.forall_mem_singleton.2 ⟨bareWord_iff.2 (.inr (by decide)), by decide⟩
        conditions := List.forall_mem_singleton.2 hcondition
        orderBy := by
          rintro field ⟨⟩
        order := fun _ => rfl }
    obtain ⟨q', haccepted, -, hq'limit, hq'offset, hconditions⟩ := hwritten q hshaped
    exact ⟨q', haccepted, hq'limit, hq'offset, (hconditions 0 _ _ _).2 rfl⟩

end EvidenceGraph.Query
