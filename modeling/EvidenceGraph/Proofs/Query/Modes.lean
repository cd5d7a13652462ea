/-
# `EvidenceGraph.Proofs.Query.Modes` — strict and lenient reading agree.

Both modes run the same readers over the same lexemes. As long as nothing is wrong they stand at the same
lexeme with the same part of the query, and the lenient one has reported nothing. At the first fault the
strict reading ends, and the lenient one makes its first report, with the same fault. Two faults are found
by strict readings only: a source other than `evidence`, and a clause that comes twice or too late.

`Agrees` says this of a pair of results, and `Agrees.bind` carries it over one part of the query to the
next. Beside it stand the parts of `parseIn` in the form that is used here, each of them a reading of
something followed by a reading of the rest.
-/
import Mathlib.Tactic.Tauto
import EvidenceGraph.Proofs.Query.Reading

namespace EvidenceGraph.Query

open EvidenceGraph.Text

/-! ## Two results that agree -/

/-- The faults that only a strict reading finds. -/
inductive Fault.StrictOnly : Fault → Prop
  | unknownSource : StrictOnly .unknownSource
  | clauseOutOfOrder : StrictOnly .clauseOutOfOrder

variable {α β γ δ : Type}

/-- The results of a strict and of a lenient reading, the second of which comes with reports: they are the
same and nothing is reported, or the strict reading ends with the fault of the first report, or with one
that only strict readings find. -/
inductive Agrees (reports : β → List Diagnostic) : Except Diagnostic β → Except Diagnostic β → Prop
  | clean {b : β} : reports b = [] → Agrees reports (.ok b) (.ok b)
  | reported {found first : Diagnostic} {later : List Diagnostic} {b : β} :
      reports b = first :: later → first.fault = found.fault → Agrees reports (.error found) (.ok b)
  | strictOnly {found : Diagnostic} {b : β} :
      found.fault.StrictOnly → Agrees reports (.error found) (.ok b)

/-- A lenient reading always has a result. -/
theorem Agrees.lenient_ok {reports : β → List Diagnostic} {strict lenient : Except Diagnostic β}
    (h : Agrees reports strict lenient) : ∃ b, lenient = .ok b := by
  cases h <;> exact ⟨_, rfl⟩

/-- What keeps the reports keeps the agreement. -/
theorem Agrees.map {reports : β → List Diagnostic} {total : γ → List Diagnostic} {k : β → γ}
    {strict lenient : Except Diagnostic β} (h : Agrees reports strict lenient)
    (hk : ∀ b, total (k b) = reports b) : Agrees total (strict.map k) (lenient.map k) := by
  cases h with
  | clean hb => exact .clean (by rw [hk, hb])
  | reported hb hfault => exact .reported (by rw [hk, hb]) hfault
  | strictOnly honly => exact .strictOnly honly

/-- Results that agree, followed by results that agree, agree when put together, if the reports of both
are put together in this order. -/
theorem Agrees.bind {first : β → List Diagnostic} {second : γ → List Diagnostic}
    {total : δ → List Diagnostic} {strict lenient : Except Diagnostic β}
    {f g : β → Except Diagnostic γ} {join : β → γ → δ}
    (h : Agrees first strict lenient) (hnext : ∀ b, lenient = .ok b → Agrees second (f b) (g b))
    (hjoin : ∀ b c, total (join b c) = first b ++ second c) :
    Agrees total (strict >>= fun b => (f b).map (join b)) (lenient >>= fun b => (g b).map (join b)) := by
  cases h with
  | @clean b hb =>
    show Agrees total ((f b).map (join b)) ((g b).map (join b))
    exact (hnext b rfl).map fun c => by rw [hjoin, hb, List.nil_append]
  | @reported found head later b hb hfault =>
    -- the lenient reading goes on, but its first report is made
    obtain ⟨c, hc⟩ := (hnext b rfl).lenient_ok
    show Agrees total (.error found) ((g b).map (join b))
    rw [hc]
    have hreports : total (join b c) = head :: (later ++ second c) := by rw [hjoin, hb]; rfl
    exact .reported hreports hfault
  | @strictOnly found b honly =>
    obtain ⟨c, hc⟩ := (hnext b rfl).lenient_ok
    show Agrees total (.error found) ((g b).map (join b))
    rw [hc]
    exact .strictOnly honly

/-! ## Parts of a query -/

/-- Two readers that differ only in that the first one may stop with a fault of strict readings. -/
def Reader.Stricter (strict lenient : Reader α) : Prop :=
  ∀ ts, strict ts = lenient ts ∨ ∃ found, strict ts = .error found ∧ found.fault.StrictOnly

theorem Reader.Stricter.refl (r : Reader α) : Reader.Stricter r r := fun _ => .inl rfl

theorem settle_agrees {strict lenient : Reader α} (h : Reader.Stricter strict lenient)
    (text : List Char) (stops : List Keyword) (ts : List Lexeme) :
    Agrees Settled.reports (settle .strict text stops strict ts)
      (settle .lenient text stops lenient ts) := by
  unfold settle
  cases hlenient : lenient ts with
  | ok read =>
    rcases h ts with hsame | ⟨found, hstrict, honly⟩
    · rw [hsame, hlenient]
      exact .clean rfl
    · rw [hstrict]
      exact .strictOnly honly
  | error found =>
    rcases h ts with hsame | ⟨found, hstrict, honly⟩
    · rw [hsame, hlenient]
      exact .reported rfl rfl
    · rw [hstrict]
      exact .strictOnly honly

theorem reportHere_agrees (text : List Char) (fault : Fault) (ts : List Lexeme) :
    Agrees id (reportHere .strict text fault ts) (reportHere .lenient text fault ts) :=
  .reported rfl rfl

theorem Reader.Stricter.bind {r : Reader α} {strict lenient : α → Reader β}
    (h : ∀ a, Reader.Stricter (strict a) (lenient a)) :
    Reader.Stricter (r >>= strict) (r >>= lenient) := by
  intro ts
  cases hr : r ts with
  | error found =>
    left
    rw [Reader.bind_of_error hr, Reader.bind_of_error hr]
  | ok read =>
    obtain ⟨a, rest⟩ := read
    rw [Reader.bind_of_ok hr, Reader.bind_of_ok hr]
    exact h a rest

theorem sourceClause_stricter : Reader.Stricter (sourceClause .strict) (sourceClause .lenient) := by
  refine .bind fun _ => .bind fun table => fun ts => ?_
  by_cases hknown : sameWord table sourceTable = false
  · right
    exact ⟨⟨.unknownSource, ts⟩, by rw [if_pos ⟨rfl, hknown⟩]; rfl, .unknownSource⟩
  · left
    simp [hknown]

theorem rankedClause_stricter (lastRank rank : Nat) :
    Reader.Stricter (rankedClause .strict lastRank rank) (rankedClause .lenient lastRank rank) := by
  intro ts
  unfold rankedClause
  by_cases hlate : rank ≠ 0 ∧ rank ≤ lastRank
  · right
    exact ⟨⟨.clauseOutOfOrder, ts⟩, by rw [if_pos ⟨hlate.1, hlate.2, rfl⟩]; rfl, .clauseOutOfOrder⟩
  · left
    rw [if_neg (by tauto), if_neg (by simp)]

/-! ## The conditions -/

/-- The list of conditions, one condition and then the rest of the list. -/
theorem conditionList_eq (mode : Mode) (text : List Char) (ts : List Lexeme) :
    conditionList mode text ts =
      if ts.isEmpty || atTailClause ts then
        (reportHere mode text .missingCondition ts).map fun reports => ⟨[], reports, ts⟩
      else
        settle mode text [.and] boundedCondition ts >>= fun found =>
          (if atKeyword .and found.rest then conditionList mode text found.rest.tail
            else .ok ⟨[], [], found.rest⟩).map fun later =>
              ⟨found.value.toList ++ later.value, found.reports ++ later.reports, later.rest⟩ := by
  rw [conditionList]
  split
  · rfl
  · split
    · next hsettle =>
      conv => rhs; rw [hsettle]
      rfl
    · next found hsettle =>
      conv => rhs; rw [hsettle]
      split
      · next hrest => simp [Bind.bind, Except.bind, Except.map, atKeyword, hrest]
      · next t rest hrest =>
        by_cases hand : t.token.isKeyword .and
        · simp [Bind.bind, Except.bind, atKeyword, hrest, hand]
        · simp [Bind.bind, Except.bind, Except.map, atKeyword, hrest, hand]

/-- Behind a condition and its `AND` there are fewer lexemes. -/
theorem length_behind_and {mode : Mode} {text : List Char} {ts : List Lexeme}
    {found : Settled (Option Condition)} (h : settle mode text [.and] boundedCondition ts = .ok found)
    (hand : atKeyword .and found.rest) : found.rest.tail.length < ts.length := by
  cases hrest : found.rest with
  | nil =>
    rw [hrest] at hand
    cases hand
  | cons t rest => exact length_behind_condition h hrest

theorem conditionList_agrees (text : List Char) (ts : List Lexeme) :
    Agrees Settled.reports (conditionList .strict text ts) (conditionList .lenient text ts) := by
  -- by the number of lexemes, as `AND` is passed behind each condition but the last
  induction hlength : ts.length using Nat.strongRecOn generalizing ts with
  | ind n ih =>
    rw [conditionList_eq .strict, conditionList_eq .lenient]
    split
    · exact (reportHere_agrees text .missingCondition ts).map fun _ => rfl
    · refine (settle_agrees (.refl boundedCondition) text [.and] ts).bind ?_ fun _ _ => rfl
      intro found hfound
      split
      · next hand => exact ih _ (hlength ▸ length_behind_and hfound hand) _ rfl
      · exact .clean rfl

theorem filterClause_agrees (text : List Char) (ts : List Lexeme) :
    Agrees Settled.reports (filterClause .strict text ts) (filterClause .lenient text ts) := by
  unfold filterClause
  split
  · exact conditionList_agrees text ts.tail
  · exact .clean rfl

/-! ## The clauses -/

/-- A parsed query with reports in front of its own. -/
def Parsed.after (reports : List Diagnostic) (p : Parsed) : Parsed :=
  ⟨p.query, reports ++ p.diagnostics⟩

/-- The lexemes from which reading goes on behind a settled clause: at least one is passed. -/
def behindClause (found : Settled (Option TailClause)) (ts : List Lexeme) : List Lexeme :=
  if found.rest.length < ts.length then found.rest else ts.tail

theorem length_behindClause {ts : List Lexeme} (found : Settled (Option TailClause)) (hne : ts ≠ []) :
    (behindClause found ts).length < ts.length := by
  unfold behindClause
  split
  · assumption
  · have hpos : 0 < ts.length := List.length_pos_iff.2 hne
    rw [List.length_tail]
    omega

/-- The clauses behind the conditions, one clause and then the rest of them. -/
theorem tailClauses_eq (mode : Mode) (text : List Char) (lastRank : Nat) (q : Query)
    {ts : List Lexeme} (hne : ts ≠ []) :
    tailClauses mode text lastRank q ts =
      settle mode text [] (rankedClause mode lastRank (clauseRank ts)) ts >>= fun found =>
        (tailClauses mode text (max lastRank (clauseRank ts)) (found.value.elim q q.apply)
          (behindClause found ts)).map fun later => later.after found.reports := by
  cases ts with
  | nil => exact absurd rfl hne
  | cons t more =>
    rw [tailClauses]
    cases settle mode text [] (rankedClause mode lastRank (clauseRank (t :: more))) (t :: more) <;> rfl

theorem tailClauses_agrees (text : List Char) (lastRank : Nat) (q : Query) (ts : List Lexeme) :
    Agrees Parsed.diagnostics (tailClauses .strict text lastRank q ts)
      (tailClauses .lenient text lastRank q ts) := by
  induction hlength : ts.length using Nat.strongRecOn generalizing lastRank q ts with
  | ind n ih =>
    by_cases hne : ts = []
    · subst hne
      rw [tailClauses, tailClauses]
      exact .clean rfl
    · rw [tailClauses_eq .strict text lastRank q hne, tailClauses_eq .lenient text lastRank q hne]
      refine (settle_agrees (rankedClause_stricter lastRank _) text [] ts).bind ?_ fun _ _ => rfl
      intro found _
      exact ih _ (hlength ▸ length_behindClause found hne) _ _ _ rfl

/-- A query, part by part: what is selected, the source, the conditions and the clauses behind them. -/
theorem clauses_eq (mode : Mode) (text : List Char) (ts : List Lexeme) :
    clauses mode text ts =
      settle mode text [.source, .filter] selectClause ts >>= fun selected =>
        (settle mode text [.filter] (sourceClause mode) selected.rest >>= fun source =>
          (filterClause mode text source.rest >>= fun filter =>
            (tailClauses mode text 0
              { select := selected.value.getD ["*"], conditions := filter.value } filter.rest).map
                (Parsed.after filter.reports)).map (Parsed.after source.reports)).map
                  (Parsed.after selected.reports) := by
  unfold clauses
  cases settle mode text [.source, .filter] selectClause ts with
  | error => rfl
  | ok selected =>
    show (settle mode text [.filter] (sourceClause mode) selected.rest >>= _) = Except.map _ (_ >>= _)
    cases settle mode text [.filter] (sourceClause mode) selected.rest with
    | error => rfl
    | ok source =>
      show (filterClause mode text source.rest >>= _) = Except.map _ (Except.map _ (_ >>= _))
      cases filterClause mode text source.rest with
      | error => rfl
      | ok filter =>
        show (tailClauses mode text 0 _ filter.rest >>= _) = Except.map _ (Except.map _ (Except.map _ _))
        cases tailClauses mode text 0
            { select := selected.value.getD ["*"], conditions := filter.value } filter.rest with
        | error => rfl
        | ok later => simp [Except.map, Bind.bind, Except.bind, Pure.pure, Except.pure, Parsed.after]

theorem clauses_agrees (text : List Char) (ts : List Lexeme) :
    Agrees Parsed.diagnostics (clauses .strict text ts) (clauses .lenient text ts) := by
  rw [clauses_eq .strict, clauses_eq .lenient]
  refine (settle_agrees (.refl selectClause) text _ ts).bind (fun selected _ => ?_) fun _ _ => rfl
  refine (settle_agrees sourceClause_stricter text _ _).bind (fun source _ => ?_) fun _ _ => rfl
  refine (filterClause_agrees text _).bind (fun filter _ => ?_) fun _ _ => rfl
  exact tailClauses_agrees text 0 _ filter.rest

/-! ## Whole texts -/

/-- Read the lexemes of a text. -/
def parseLexemes (mode : Mode) (text : List Char) (ts : List Lexeme) : Except Diagnostic Parsed :=
  if ts.isEmpty then (reportHere mode text .emptyQuery []).map fun reports => ⟨{}, reports⟩
  else clauses mode text ts

theorem parseLexemes_agrees (text : List Char) (ts : List Lexeme) :
    Agrees Parsed.diagnostics (parseLexemes .strict text ts) (parseLexemes .lenient text ts) := by
  unfold parseLexemes
  split
  · exact (reportHere_agrees text .emptyQuery []).map fun _ => rfl
  · exact clauses_agrees text ts

/-- A strict reading stops at an open quote before it looks at the lexemes. -/
theorem parseIn_strict_of_open {source : String} {found : Diagnostic} {later : List Diagnostic}
    (h : openQuoteReports (trimmed source) (lex (trimmed source)) = found :: later) :
    parseIn .strict source = .error found := by
  simp only [parseIn, h]

/-- Otherwise the lexemes are read, behind the report on an open quote. -/
theorem parseIn_eq {mode : Mode} {source : String}
    (h : mode = .strict → openQuoteReports (trimmed source) (lex (trimmed source)) = []) :
    parseIn mode source =
      (parseLexemes mode (trimmed source) (lex (trimmed source)).lexemes).map
        (Parsed.after (openQuoteReports (trimmed source) (lex (trimmed source)))) := by
  unfold parseIn parseLexemes
  cases mode with
  | strict =>
    simp only [h rfl]
    split
    · rfl
    · rfl
  | lenient =>
    simp only
    split
    · rfl
    · rfl

/-- On every text the two modes agree. -/
theorem parseIn_agrees (source : String) :
    Agrees Parsed.diagnostics (parseIn .strict source) (parseIn .lenient source) := by
  have hbody := parseLexemes_agrees (trimmed source) (lex (trimmed source)).lexemes
  have hlenient : parseIn .lenient source = _ := parseIn_eq nofun
  cases hquotes : openQuoteReports (trimmed source) (lex (trimmed source)) with
  | nil =>
    rw [hlenient, parseIn_eq fun _ => hquotes, hquotes]
    exact hbody.map fun _ => rfl
  | cons found later =>
    -- an open quote is reported first, whatever the lexemes are
    obtain ⟨p, hp⟩ := hbody.lenient_ok
    rw [parseIn_strict_of_open hquotes, hlenient, hp, hquotes]
    exact .reported rfl rfl

/-- What a strict reading accepts has no reports. -/
theorem diagnostics_of_strict {source : String} {p : Parsed} (h : parseIn .strict source = .ok p) :
    p.diagnostics = [] := by
  have hagrees := parseIn_agrees source
  rw [h] at hagrees
  generalize parseIn .lenient source = lenient at hagrees
  cases hagrees with
  | clean hp => exact hp

theorem parseStrict_eq_ok {source : String} {q : Query} :
    parseStrict source = .ok q ↔ parseIn .strict source = .ok ⟨q, []⟩ := by
  unfold parseStrict
  constructor
  · intro h
    cases hp : parseIn .strict source with
    | error found =>
      rw [hp] at h
      cases h
    | ok p =>
      rw [hp] at h
      cases h
      rw [← diagnostics_of_strict hp]
  · intro h
    rw [h]
    rfl

theorem parseStrict_eq_error {source : String} {found : Diagnostic} :
    parseStrict source = .error found ↔ parseIn .strict source = .error found := by
  unfold parseStrict
  cases parseIn .strict source <;> simp [Except.map]

/-- A query that is accepted strictly is read leniently without reports. -/
theorem parse_of_strict {source : String} {q : Query} (h : parseStrict source = .ok q) :
    parse source = ⟨q, []⟩ := by
  have hagrees := parseIn_agrees source
  rw [parseStrict_eq_ok.1 h] at hagrees
  unfold parse
  generalize parseIn .lenient source = lenient at hagrees ⊢
  cases hagrees with
  | clean => rfl

/-- A fault of a strict reading is that of the first lenient report, or one of strict readings only. -/
theorem fault_of_strict {source : String} {found : Diagnostic}
    (h : parseStrict source = .error found) :
    (∃ first later, (parse source).diagnostics = first :: later ∧ first.fault = found.fault) ∨
      found.fault.StrictOnly := by
  have hagrees := parseIn_agrees source
  rw [parseStrict_eq_error.1 h] at hagrees
  unfold parse
  generalize parseIn .lenient source = lenient at hagrees ⊢
  cases hagrees with
  | reported hp hfault => exact .inl ⟨_, _, hp, hfault⟩
  | strictOnly honly => exact .inr honly

end EvidenceGraph.Query
