/-
# `EvidenceGraph.Proofs.Query.Lenient` — the steps of a lenient reading.

At a fault a lenient reading skips to a place where it can go on, and reports what it has passed. Here this is said
once for each loop: for the clauses behind the conditions (`tailClauses_clause`, `tailClauses_miss`) and for the
conditions (`conditionList_miss`, `conditionList_missing`). The clauses never touch the conditions that were read
before them (`tailClauses_keeps`).
-/
import EvidenceGraph.Proofs.Query.Phrases
import EvidenceGraph.Proofs.Query.Skipping

namespace EvidenceGraph.Query

open EvidenceGraph.Text Grammar

/-! ## Clauses behind the conditions -/

/-- To lenient readings a clause is never late. -/
theorem rankedClause_lenient (last k : Nat) : rankedClause .lenient last k = tailClause k :=
  if_neg fun hlate => nomatch hlate.2.2

/-- A clause that is read is taken over, and reading goes on behind it. -/
theorem tailClauses_read {mode : Mode} {last : Nat} {used rest : List Lexeme} {c : TailClause}
    (text : List Char) (q : Query) (hused : used ≠ [])
    (h : rankedClause mode last (clauseRank (used ++ rest)) (used ++ rest) = .ok (c, rest)) :
    tailClauses mode text last q (used ++ rest) =
      tailClauses mode text (max last (clauseRank (used ++ rest))) (q.apply c) rest := by
  have hne : used ++ rest ≠ [] := List.append_ne_nil_of_left_ne_nil hused rest
  rw [tailClauses_eq mode text last q hne, settle_eq_clean.2 ⟨c, rfl, h⟩]
  show Except.map _ (tailClauses mode text _ (q.apply c) (behindClause _ (used ++ rest))) = _
  rw [behindClause_clause hused]
  cases tailClauses mode text (max last (clauseRank (used ++ rest))) (q.apply c) rest <;> rfl

/-- In lenient readings every clause is taken over. -/
theorem tailClauses_clause {text : List Char} {last : Nat} {q : Query} {used rest : List Lexeme}
    {c : TailClause} (h : Clause (tokens used) c) (hrest : NoDirection rest) :
    tailClauses .lenient text last q (used ++ rest) =
      tailClauses .lenient text (max last (rank c)) (q.apply c) rest := by
  have hread : rankedClause .lenient last (clauseRank (used ++ rest)) (used ++ rest) = .ok (c, rest) := by
    rw [rankedClause_lenient, clauseRank_clause h rest]
    exact complete_tailClause h hrest
  rw [tailClauses_read text q (clause_ne_nil h) hread, clauseRank_clause h rest]

/-- What is no clause is reported, and reading goes on where skipping stops. -/
theorem tailClauses_miss (text : List Char) (last : Nat) (q : Query) {ts gap : List Lexeme} {fault : Fault}
    (h : tailClause (clauseRank ts) ts = .error ⟨fault, gap⟩) (hshort : (skip [] 0 gap).length < ts.length) :
    tailClauses .lenient text last q ts =
      (tailClauses .lenient text (max last (clauseRank ts)) q (skip [] 0 gap)).map
        (Parsed.after [⟨fragment text ts (skip [] 0 gap), fault⟩]) := by
  have hne : ts ≠ [] := List.ne_nil_of_length_pos (Nat.zero_lt_of_lt hshort)
  rw [tailClauses_eq .lenient text last q hne, rankedClause_lenient, settle_miss h]
  show Except.map _ (tailClauses .lenient text _ q (behindClause _ ts)) = _
  rw [behindClause, if_pos hshort]

theorem apply_conditions (q : Query) (c : TailClause) : (q.apply c).conditions = q.conditions := by
  cases c <;> rfl

/-- Whatever is taken over or skipped behind the conditions, they stay as they are. -/
theorem tailClauses_keeps {mode : Mode} {text : List Char} {last : Nat} {q : Query} {ts : List Lexeme} {p : Parsed}
    (h : tailClauses mode text last q ts = .ok p) : p.query.conditions = q.conditions := by
  -- by the number of lexemes, as at least one is passed at each step
  induction hlength : ts.length using Nat.strongRecOn generalizing last q ts p with
  | ind n ih =>
    by_cases hne : ts = []
    · subst hne
      rw [tailClauses] at h
      cases h
      rfl
    · rw [tailClauses_eq mode text last q hne] at h
      obtain ⟨found, -, hlater⟩ := except_bind_eq_ok.1 h
      obtain ⟨later, hread, rfl⟩ := except_map_eq_ok.1 hlater
      have hshorter : (behindClause found ts).length < n := hlength ▸ length_behindClause found hne
      have hkept := ih _ hshorter hread rfl
      show later.query.conditions = q.conditions
      rw [hkept]
      cases found.value with
      | none => rfl
      | some c => exact apply_conditions q c

/-- A lenient reading of the clauses has a result, with the conditions that it started from. -/
theorem exists_tailClauses (text : List Char) (last : Nat) (q : Query) (ts : List Lexeme) :
    ∃ p, tailClauses .lenient text last q ts = .ok p ∧ p.query.conditions = q.conditions := by
  obtain ⟨p, hp⟩ := (tailClauses_agrees text last q ts).lenient_ok
  exact ⟨p, hp, tailClauses_keeps hp⟩

/-! ## Conditions -/

/-- Where nothing or a clause comes in place of a condition, this is reported and nothing is skipped. -/
theorem conditionList_missing (text : List Char) {ts : List Lexeme} (h : AtTail ts) :
    conditionList .lenient text ts = .ok ⟨[], [⟨fragment text ts ts.tail, .missingCondition⟩], ts⟩ := by
  have hstart : (ts.isEmpty || atTailClause ts) = true := by
    rcases h with rfl | h
    · rfl
    · simp [h]
  rw [conditionList_eq, if_pos hstart]
  rfl

theorem boundedCondition_miss {ts : List Lexeme} {found : Miss} (h : condition ts = .error found) :
    boundedCondition ts = .error found := Reader.bind_of_error h

/-- What is no condition is reported, and reading goes on behind `AND` if skipping stops there. -/
theorem conditionList_miss (text : List Char) {ts gap : List Lexeme} {fault : Fault}
    (hstart : ts ≠ [] ∧ ¬ atTailClause ts) (h : boundedCondition ts = .error ⟨fault, gap⟩) :
    conditionList .lenient text ts =
      (if atKeyword .and (skip [.and] 0 gap) then conditionList .lenient text (skip [.and] 0 gap).tail
        else .ok ⟨[], [], skip [.and] 0 gap⟩).map fun later =>
          ⟨later.value, ⟨fragment text ts (skip [.and] 0 gap), fault⟩ :: later.reports, later.rest⟩ := by
  rw [conditionList_eq, if_neg (by simp [hstart]), settle_miss h]
  rfl

end EvidenceGraph.Query
