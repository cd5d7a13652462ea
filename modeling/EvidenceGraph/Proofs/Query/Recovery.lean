/-
# `EvidenceGraph.Proofs.Query.Recovery` — conditions that cannot be read.

A reader of a condition never takes an `AND`, whatever it succeeds or fails with (`spares_condition`). So what
is no condition between two of them fails before the second one, also if a condition stands at its front, and
skipping passes the rest of it and nothing more (`settle_damaged`). By induction on the parts between the `AND`s
each that is a condition is kept, and each that is not is reported by its text (`conditionList_parts`).
-/
import EvidenceGraph.Proofs.Query.Phrases
import EvidenceGraph.Proofs.Query.Skipping

namespace EvidenceGraph.Query

open EvidenceGraph.Text Grammar

/-! ## Readers before a keyword -/

namespace Reader

variable {α β : Type} {k : Keyword} {ls behind : List Lexeme}

/-- Of `ls` and what is `behind` it only lexemes of `ls` were taken. -/
def Spared (ls behind : List Lexeme) (outcome : Except Miss (α × List Lexeme)) : Prop :=
  ∃ rest, rest <:+ ls ∧ left outcome = rest ++ behind

/-- A reader that stops before the first keyword `k`, if not earlier. -/
def Spares (k : Keyword) (r : Reader α) : Prop :=
  ∀ ls behind, Lacks k ls → Leads k behind → Spared ls behind (r (ls ++ behind))

theorem spared_bind {r : Reader α} {next : α → Reader β} (hr : Spared ls behind (r (ls ++ behind)))
    (hnext : ∀ a rest, rest <:+ ls → Spared rest behind (next a (rest ++ behind))) :
    Spared ls behind ((r >>= next) (ls ++ behind)) := by
  obtain ⟨rest, hrest, hleft⟩ := hr
  cases hread : r (ls ++ behind) with
  | error found =>
    rw [bind_of_error hread]
    rw [hread] at hleft
    exact ⟨rest, hrest, hleft⟩
  | ok read =>
    obtain ⟨a, mid⟩ := read
    rw [hread] at hleft
    obtain rfl : mid = rest ++ behind := hleft
    obtain ⟨last, hlast, hdone⟩ := hnext a rest hrest
    rw [bind_of_ok hread]
    exact ⟨last, hlast.trans hrest, hdone⟩

theorem spares_pure (a : α) : Spares k (pure a : Reader α) :=
  fun ls _ _ _ => ⟨ls, List.suffix_rfl, rfl⟩

theorem spares_miss (fault : Fault) : Spares k (miss fault : Reader α) :=
  fun ls _ _ _ => ⟨ls, List.suffix_rfl, rfl⟩

theorem spares_bind {r : Reader α} {next : α → Reader β} (hr : Spares k r) (hnext : ∀ a, Spares k (next a)) :
    Spares k (r >>= next) :=
  fun ls behind hls hbehind =>
    spared_bind (hr ls behind hls hbehind) fun a _ hrest => hnext a _ _ (hls.suffix hrest) hbehind

/-- One lexeme is taken if it is accepted, and the keyword is not. -/
theorem spares_item {accept : Token → Option α} {fault : Fault}
    (haccept : ∀ t, t.isKeyword k → accept t = none) : Spares k (item accept fault) := by
  intro ls behind _ hbehind
  cases ls with
  | nil =>
    refine ⟨[], List.suffix_rfl, ?_⟩
    cases behind with
    | nil => rfl
    | cons a rest =>
      have hnone := haccept a.token (hbehind a rfl)
      simp [item, hnone, left]
  | cons t ls =>
    cases ha : accept t.token with
    | none => exact ⟨t :: ls, List.suffix_rfl, by simp [item, ha, left]⟩
    | some a => exact ⟨ls, List.suffix_cons t ls, by simp [item, ha, left]⟩

/-- A lexeme that was looked at and is not the keyword may be passed. -/
theorem spared_advance {r : Reader α} (hr : Spares k r) (hls : Lacks k ls) (hbehind : Leads k behind)
    {t : Lexeme} {rest : List Lexeme} (hnext : ls ++ behind = t :: rest)
    (ht : t.token.isKeyword k = false) : Spared ls behind (r (ls ++ behind).tail) := by
  cases ls with
  | nil =>
    have hand : t.token.isKeyword k = true := hbehind t (by rw [← List.nil_append behind, hnext]; rfl)
    rw [ht] at hand
    cases hand
  | cons l ls =>
    obtain ⟨last, hlast, hleft⟩ := hr ls behind (hls.suffix (List.suffix_cons l ls)) hbehind
    exact ⟨last, hlast.trans (List.suffix_cons l ls), hleft⟩

/-- The induction is on the number of lexemes before the keyword, as two of them are taken for each further
item. -/
theorem spares_moreItems {accept : Token → Option α} {fault : Fault}
    (haccept : ∀ t, t.isKeyword k → accept t = none) : Spares k (moreItems accept fault) := by
  intro ls behind hls hbehind
  induction hlength : ls.length using Nat.strongRecOn generalizing ls with
  | ind n ih =>
    cases ls with
    | nil =>
      have hcomma : NoComma ([] ++ behind) := by
        intro t ht heq
        have hand := hbehind t ht
        rw [heq] at hand
        cases hand
      rw [moreItems_stop hcomma]
      exact ⟨[], List.suffix_rfl, rfl⟩
    | cons c ls =>
      by_cases hc : c.token = .comma
      · have hbehindComma : Lacks k ls := hls.suffix (List.suffix_cons c ls)
        have hitems : Spared ls behind (items accept fault (ls ++ behind)) := by
          refine spared_bind (spares_item haccept ls behind hbehindComma hbehind) fun a rest hrest => ?_
          have hshorter : rest.length < n := by
            have hle := hrest.length_le
            rw [← hlength, List.length_cons]
            omega
          have hmore := ih _ hshorter _ (hbehindComma.suffix hrest) rfl
          exact spared_bind hmore fun _ last _ => ⟨last, List.suffix_rfl, rfl⟩
        obtain ⟨last, hlast, hleft⟩ := hitems
        rw [List.cons_append, moreItems_comma hc]
        exact ⟨last, hlast.trans (List.suffix_cons c ls), hleft⟩
      · have hcomma : NoComma (c :: ls ++ behind) := by
          rintro t ⟨⟩
          exact hc
        rw [moreItems_stop hcomma]
        exact ⟨c :: ls, List.suffix_rfl, rfl⟩

theorem spares_items {accept : Token → Option α} {fault : Fault}
    (haccept : ∀ t, t.isKeyword k → accept t = none) : Spares k (items accept fault) :=
  spares_bind (spares_item haccept) fun _ => spares_bind (spares_moreItems haccept) fun _ => spares_pure _

end Reader

/-! ### Conditions -/

open Reader

/-- A test that excepts `AND` from the words. -/
theorem refuses_and {α : Type} {accept : Token → Option α} {value : String → α}
    (h : ∀ w, accept (.word w) = if Keyword.and.isSpelled w then none else some (value w)) (t : Token)
    (ht : t.isKeyword .and) : accept t = none := by
  obtain ⟨w, rfl, hw⟩ := isKeyword_iff.1 ht
  rw [h, if_pos hw]

theorem nodeIdWord?_and (t : Token) (h : t.isKeyword .and) : nodeIdWord? t = none := by
  obtain ⟨w, rfl, hw⟩ := isKeyword_iff.1 h
  refine if_neg fun hname => ?_
  have hsame : sameWord Keyword.and.spelling nodeIdField := sameWord_of_same hw hname
  revert hsame
  decide

theorem spares_sign {token : Token} {fault : Fault} (h : token.isKeyword .and = false) :
    Spares .and (sign token fault) := by
  refine spares_item fun t ht => if_neg ?_
  rintro rfl
  rw [h] at ht
  cases ht

theorem spares_relationArgument (kind : Relation) : Spares .and (relationArgument kind) :=
  spares_bind (spares_sign rfl) fun _ => spares_bind (spares_item nodeIdWord?_and) fun _ =>
    spares_bind (spares_sign rfl) fun _ => spares_bind (spares_item (refuses_and fun _ => rfl)) fun _ =>
      spares_bind (spares_sign rfl) fun _ => spares_pure _

theorem spares_inItems : Spares .and inItems := by
  intro ls behind hls hbehind
  unfold inItems
  rw [ahead_bind]
  split
  · next hparen =>
    obtain ⟨t, rest, hnext, ht⟩ := atLeftParen_iff.1 hparen
    rw [advance_bind]
    refine spared_advance ?_ hls hbehind hnext (by rw [ht]; rfl)
    exact spares_bind (spares_items (refuses_and fun _ => rfl)) fun _ => spares_bind (spares_sign rfl) fun _ =>
      spares_pure _
  · exact spares_bind (spares_item (refuses_and fun _ => rfl)) (fun _ => spares_pure _) ls behind hls hbehind

theorem spares_comparisonOn (field : String) : Spares .and (comparisonOn field) := by
  intro ls behind hls hbehind
  unfold comparisonOn
  rw [ahead_bind]
  cases hsymbol : comparison? (ls ++ behind) with
  | some c =>
    obtain ⟨t, rest, hnext, ht⟩ := comparison?_eq_some.1 hsymbol
    dsimp only
    rw [advance_bind]
    refine spared_advance ?_ hls hbehind hnext (by rw [ht]; rfl)
    exact spares_bind (spares_item (refuses_and fun _ => rfl)) fun _ => spares_pure _
  | none =>
    dsimp only
    split
    · next hin =>
      obtain ⟨t, rest, hnext, ht⟩ := atKeyword_iff.1 hin
      rw [advance_bind]
      refine spared_advance ?_ hls hbehind hnext (Bool.eq_false_iff.2 (not_isKeyword ht (by decide)))
      exact spares_bind spares_inItems fun _ => spares_pure _
    · split
      · next hcontains =>
        obtain ⟨t, rest, hnext, ht⟩ := atKeyword_iff.1 hcontains
        rw [advance_bind]
        refine spared_advance ?_ hls hbehind hnext (Bool.eq_false_iff.2 (not_isKeyword ht (by decide)))
        exact spares_bind (spares_item (refuses_and fun _ => rfl)) fun _ => spares_pure _
      · exact spares_miss _ ls behind hls hbehind

/-- No reader of a condition takes an `AND`. -/
theorem spares_condition : Spares .and condition := by
  refine spares_bind (spares_item (refuses_and fun _ => rfl)) fun field => ?_
  intro ls behind hls hbehind
  rw [ahead_bind]
  cases Relation.named? field with
  | none => exact spares_comparisonOn field ls behind hls hbehind
  | some kind =>
    cases atLeftParen (ls ++ behind) with
    | true => exact spares_relationArgument kind ls behind hls hbehind
    | false => exact spares_comparisonOn field ls behind hls hbehind

/-! ## What is no condition -/

/-- A token at which nothing that is skipped ends, and which opens or closes no parenthesis. -/
structure Token.Plain (t : Token) : Prop where
  not_left : t ≠ .leftParen
  not_right : t ≠ .rightParen
  not_stop : ∀ k ∈ [Keyword.and, .order, .limit, .offset], t.isKeyword k = false

theorem Token.plain_iff {t : Token} :
    t.Plain ↔ t ≠ .leftParen ∧ t ≠ .rightParen ∧
      ∀ k ∈ [Keyword.and, .order, .limit, .offset], t.isKeyword k = false :=
  ⟨fun h => ⟨h.not_left, h.not_right, h.not_stop⟩, fun ⟨hleft, hright, hstop⟩ => ⟨hleft, hright, hstop⟩⟩

instance (t : Token) : Decidable t.Plain := decidable_of_iff' _ Token.plain_iff

/-- One or more plain tokens that are not, taken together, a condition. -/
structure Damaged (ts : List Token) : Prop where
  ne_nil : ts ≠ []
  plain : ∀ t ∈ ts, t.Plain
  not_condition : ∀ c, ¬ Grammar.Condition ts c

theorem Token.Plain.flat {t : Token} (h : t.Plain) : t.Flat := ⟨h.not_left, h.not_right⟩

/-- No clause starts at a plain token. -/
theorem Token.Plain.not_atTailClause {t : Lexeme} (h : t.token.Plain) (rest : List Lexeme) :
    atTailClause (t :: rest) = false :=
  Query.not_atTailClause (fun k hk => h.not_stop k (List.mem_cons_of_mem .and hk)) rest

theorem Damaged.lexeme_plain {ls : List Lexeme} (h : Damaged (tokens ls)) : ∀ t ∈ ls, t.token.Plain :=
  fun _ ht => h.plain _ (List.mem_map_of_mem ht)

theorem Damaged.lacks_and {ls : List Lexeme} (h : Damaged (tokens ls)) : Lacks .and ls :=
  fun t ht => (h.lexeme_plain t ht).not_stop .and (by decide)

/-- Skipping passes plain lexemes up to `AND`. -/
theorem skip_plain {gap behind : List Lexeme} (hgap : ∀ t ∈ gap, t.token.Plain) (hbehind : Leads .and behind) :
    skip [.and] 0 (gap ++ behind) = behind := by
  rw [skip_flat (fun t ht => (hgap t ht).flat) fun t ht => (hgap t ht).not_stop]
  cases behind with
  | nil => rfl
  | cons a rest => exact skip_keyword List.mem_cons_self (hbehind a rfl)

/-- The fault is met before `AND`: if a condition is at the front, then something plain follows it. -/
theorem miss_of_damaged {ls behind : List Lexeme} (h : Damaged (tokens ls)) (hbehind : Leads .and behind) :
    ∃ fault gap, gap <:+ ls ∧ boundedCondition (ls ++ behind) = .error ⟨fault, gap ++ behind⟩ := by
  obtain ⟨gap, hgap, hleft⟩ := spares_condition ls behind h.lacks_and hbehind
  cases hread : condition (ls ++ behind) with
  | error found =>
    obtain ⟨fault, rest⟩ := found
    rw [hread] at hleft
    obtain rfl : rest = gap ++ behind := hleft
    exact ⟨fault, gap, hgap, bind_of_error hread⟩
  | ok read =>
    obtain ⟨c, mid⟩ := read
    rw [hread] at hleft
    obtain rfl : mid = gap ++ behind := hleft
    obtain ⟨used, hused, hcondition⟩ := sound_condition hread
    rw [← List.append_assoc] at hused
    obtain rfl : ls = used ++ gap := List.append_cancel_right hused
    cases gap with
    | nil =>
      rw [List.append_nil] at h
      exact absurd hcondition (h.not_condition c)
    | cons t gap =>
      have hplain : t.token.Plain := h.lexeme_plain t (by simp)
      have hand : atKeyword .and (t :: gap ++ behind) = false := hplain.not_stop .and (by decide)
      have htail : atTailClause (t :: gap ++ behind) = false := hplain.not_atTailClause (gap ++ behind)
      refine ⟨.textAfterCondition, t :: gap, hgap, ?_⟩
      show (condition >>= _) _ = _
      rw [bind_of_ok hread, ahead_bind, hand, htail]
      rfl

/-- A report on some lexemes shows the text from the first one to the last one. -/
theorem fragment_append (text : List Char) (first : Lexeme) (more behind : List Lexeme) :
    fragment text (first :: more ++ behind) behind = slice text first.start (more.getLast?.getD first).stop := by
  have hlength : (first :: more ++ behind).length - behind.length - 1 = more.length := by
    rw [List.length_append, List.length_cons]
    omega
  show slice text first.start
    (((more ++ behind).take ((first :: more ++ behind).length - behind.length - 1)).getLast?.getD first).stop = _
  rw [hlength, List.take_left]

/-- What is no condition is reported by its whole text, and nothing behind it is skipped. -/
theorem settle_damaged (text : List Char) {first : Lexeme} {more behind : List Lexeme}
    (h : Damaged (tokens (first :: more))) (hbehind : Leads .and behind) :
    ∃ fault, settle .lenient text [.and] boundedCondition (first :: more ++ behind) =
      .ok ⟨none, [⟨slice text first.start (more.getLast?.getD first).stop, fault⟩], behind⟩ := by
  obtain ⟨fault, gap, hgap, hmiss⟩ := miss_of_damaged h hbehind
  have hskip := skip_plain (fun t ht => h.lexeme_plain t (hgap.mem ht)) hbehind
  refine ⟨fault, ?_⟩
  rw [settle_miss hmiss, hskip, fragment_append]

/-! ## Parts between `AND`s -/

/-- Lexemes of a text that are a condition, or are none and have the text `piece`. -/
inductive Part (text : List Char) : List Lexeme → Option Condition → String → Prop
  | kept {ls : List Lexeme} {c : Condition} {piece : String} :
      Grammar.Condition (tokens ls) c → Part text ls (some c) piece
  | damaged {first : Lexeme} {more : List Lexeme} :
      Damaged (tokens (first :: more)) →
      Part text (first :: more) none (slice text first.start (more.getLast?.getD first).stop)

/-- The conditions among some parts. -/
def keptConditions (parts : List (String × Option Condition)) : List Condition := parts.filterMap Prod.snd

/-- The texts of those parts that are no conditions. -/
def damagedPieces (parts : List (String × Option Condition)) : List String :=
  (parts.filter fun part => part.2.isNone).map Prod.fst

/-- Parts with `AND` between them. -/
inductive Parts (text : List Char) : List Lexeme → List (String × Option Condition) → Prop
  | last {ls : List Lexeme} {c : Option Condition} {piece : String} :
      Part text ls c piece → Parts text ls [(piece, c)]
  | more {ls later : List Lexeme} {a : Lexeme} {c : Option Condition} {piece : String}
      {parts : List (String × Option Condition)} :
      Part text ls c piece → a.token.isKeyword .and → Parts text later parts →
      Parts text (ls ++ a :: later) ((piece, c) :: parts)

/-- One part: kept without a report, or dropped with one. -/
theorem settle_part {text : List Char} {ls behind : List Lexeme} {c : Option Condition} {piece : String}
    (h : Part text ls c piece) (hbehind : Leads .and behind) :
    (ls ++ behind ≠ [] ∧ ¬ atTailClause (ls ++ behind)) ∧
      ∃ reports, settle .lenient text [.and] boundedCondition (ls ++ behind) = .ok ⟨c, reports, behind⟩ ∧
        reports.map Diagnostic.fragment = damagedPieces [(piece, c)] := by
  cases h with
  | @kept _ c _ hc =>
    have hbound : atKeyword .and behind ∨ AtTail behind := by
      cases behind with
      | nil => exact .inr (.inl rfl)
      | cons a rest => exact .inl (hbehind a rfl)
    refine ⟨condition_not_atTailClause hc, [], ?_, rfl⟩
    exact settle_eq_clean.2 ⟨c, rfl, boundedCondition_eq_ok.2 ⟨complete_condition hc, hbound⟩⟩
  | @damaged first more hdamaged =>
    have hplain : first.token.Plain := hdamaged.lexeme_plain first List.mem_cons_self
    obtain ⟨fault, hsettled⟩ := settle_damaged text hdamaged hbehind
    refine ⟨⟨nofun, ?_⟩, _, hsettled, rfl⟩
    rw [List.cons_append, hplain.not_atTailClause]
    exact Bool.false_ne_true

theorem keptConditions_cons (piece : String) (c : Option Condition) (parts : List (String × Option Condition)) :
    keptConditions ((piece, c) :: parts) = c.toList ++ keptConditions parts := by
  cases c <;> rfl

theorem damagedPieces_cons (part : String × Option Condition) (parts : List (String × Option Condition)) :
    damagedPieces (part :: parts) = damagedPieces [part] ++ damagedPieces parts := by
  obtain ⟨piece, c⟩ := part
  cases c <;> rfl

/-- One part, and then the rest of the list if `AND` follows. -/
theorem conditionList_part {text : List Char} {ls behind : List Lexeme} {c : Option Condition} {piece : String}
    (h : Part text ls c piece) (hbehind : Leads .and behind) {cs : List Condition} {reports : List Diagnostic}
    (hlater : (if atKeyword .and behind then conditionList .lenient text behind.tail else .ok ⟨[], [], behind⟩) =
      .ok ⟨cs, reports, []⟩) :
    ∃ found, conditionList .lenient text (ls ++ behind) = .ok ⟨c.toList ++ cs, found ++ reports, []⟩ ∧
      found.map Diagnostic.fragment = damagedPieces [(piece, c)] := by
  obtain ⟨⟨hne, htail⟩, found, hsettled, hfound⟩ := settle_part h hbehind
  refine ⟨found, ?_, hfound⟩
  rw [conditionList_eq, if_neg (by simp [hne, htail]), hsettled]
  show Except.map _ (if atKeyword .and behind then _ else _) = _
  rw [hlater]
  rfl

/-- Part by part, conditions are kept, and what is none is reported. -/
theorem conditionList_parts {text : List Char} {ls : List Lexeme} {parts : List (String × Option Condition)}
    (h : Parts text ls parts) :
    ∃ reports, conditionList .lenient text ls = .ok ⟨keptConditions parts, reports, []⟩ ∧
      reports.map Diagnostic.fragment = damagedPieces parts := by
  induction h with
  | @last ls c piece hpart =>
    have hend : Leads .and [] := nofun
    obtain ⟨found, hfound, hpieces⟩ := conditionList_part hpart hend rfl
    rw [List.append_nil] at hfound
    refine ⟨found ++ [], ?_, by rw [List.append_nil, hpieces]⟩
    rw [hfound, keptConditions_cons]
    rfl
  | @more ls later a c piece parts hpart ha _ ih =>
    obtain ⟨reports, hreports, hlater⟩ := ih
    have hand : atKeyword .and (a :: later) := ha
    have hbehind : Leads .and (a :: later) := by
      rintro t ⟨⟩
      exact ha
    obtain ⟨found, hfound, hpieces⟩ := conditionList_part hpart hbehind ((if_pos hand).trans hreports)
    refine ⟨found ++ reports, ?_, ?_⟩
    · rw [hfound, keptConditions_cons]
    · rw [List.map_append, hpieces, hlater, ← damagedPieces_cons]

end EvidenceGraph.Query
