/-
# `EvidenceGraph.Proofs.Query.RoundTrip` — canonical text reads back.

Trimming takes nothing away from canonical text: it starts with a keyword, and ends in a quote, a
parenthesis, a letter or a digit. So what is known of its tokens holds of the text as a whole: the canonical
text of a query of the right shape means the query with its values reread (`means_reread`), which is the
query itself if it is well-formed (`means_display`).
-/
import EvidenceGraph.Proofs.Query.Acceptance
import EvidenceGraph.Proofs.Query.Canonical

namespace EvidenceGraph.Query

open EvidenceGraph.Text

/-! ## Trimming -/

/-- A text whose last character is not trimmed. -/
def Solid (cs : List Char) : Prop := ∃ before c, cs = before ++ [c] ∧ isBlank c = false ∧ c ≠ ';'

theorem solid_of_last {before : List Char} {c : Char} (hblank : isBlank c = false) (hc : c ≠ ';') :
    Solid (before ++ [c]) :=
  ⟨before, c, rfl, hblank, hc⟩

/-- What stands before the last character does not matter. -/
theorem Solid.behind {cs : List Char} (h : Solid cs) (ds : List Char) : Solid (ds ++ cs) := by
  obtain ⟨before, c, rfl, hblank, hc⟩ := h
  exact ⟨ds ++ before, c, (List.append_assoc ..).symm, hblank, hc⟩

/-- The same behind two words, each with a blank. -/
theorem Solid.behind_words {cs : List Char} (h : Solid cs) (w v : List Char) :
    Solid (w ++ ' ' :: (v ++ ' ' :: cs)) := by
  have hvalue : Solid (v ++ ' ' :: cs) := (h.behind [' ']).behind v
  exact (hvalue.behind [' ']).behind w

theorem Solid.before {cs ds : List Char} (h : Solid cs) (hds : ds = [] ∨ Solid ds) :
    Solid (cs ++ ds) := by
  rcases hds with rfl | hds
  · rwa [List.append_nil]
  · exact hds.behind cs

theorem solid_of_isNumberChar {cs : List Char} (hne : cs ≠ [])
    (h : ∀ c ∈ cs, Decimal.isNumberChar c) : Solid cs := by
  obtain ⟨hword, hc⟩ := isWordChar_of_isNumberChar (h _ (List.getLast_mem hne))
  rw [← List.dropLast_concat_getLast hne]
  exact solid_of_last (isWordChar_not_blank hword) hc

theorem solid_writeNat (n : Nat) : Solid (Decimal.writeNat n) :=
  solid_of_isNumberChar (Decimal.writeNat_ne_nil n) fun _ hc =>
    Decimal.isNumberChar_of_isDigit (Decimal.isDigit_writeNat hc)

theorem solid_writeQuoted (s : String) : Solid (writeQuoted s) := by
  have hquote : isBlank (Quoted.quoteFor s.toList) = false ∧ Quoted.quoteFor s.toList ≠ ';' := by
    unfold Quoted.quoteFor
    split <;> decide
  exact (solid_of_last hquote.1 hquote.2).behind [Quoted.quoteFor s.toList]

theorem solid_literal {v : Literal} (h : v.Scalar) : Solid v.write := by
  cases h with
  | bool b =>
    cases b with
    | true => exact ⟨['t', 'r', 'u'], 'e', rfl, by decide, by decide⟩
    | false => exact ⟨['f', 'a', 'l', 's'], 'e', rfl, by decide, by decide⟩
  | int i =>
    exact solid_of_isNumberChar (Decimal.writeInt_ne_nil i.toInt) fun _ hc =>
      Decimal.isNumberChar_of_mem_writeInt hc
  | float x =>
    exact solid_of_isNumberChar (Decimal.display_ne_nil x) fun _ hc =>
      Decimal.isNumberChar_of_mem_display hc
  | text s => exact solid_writeQuoted s

theorem solid_condition {c : Condition} (h : c.Shaped) : Solid c.write := by
  have hparen : ∀ before, Solid (before ++ [')']) := fun before =>
    solid_of_last (by decide) (by decide)
  cases h with
  | onField _ _ htakes =>
    cases htakes with
    | compare symbol hvalue => exact (solid_literal hvalue).behind_words _ _
    | isIn _ => exact ((hparen _).behind ['(']).behind_words _ _
    | contains s => exact (solid_writeQuoted s).behind_words _ _
  | relation kind id =>
    have hargument : Solid (nodeIdField.toList ++ '=' :: (writeQuoted id ++ [')'])) :=
      ((hparen (writeQuoted id)).behind ['=']).behind _
    exact (hargument.behind ['(']).behind kind.name.toList

theorem solid_furtherConditions {cs : List Condition} (h : ∀ c ∈ cs, c.Shaped) :
    (cs.flatMap fun c => " AND ".toList ++ c.write) = [] ∨
      Solid (cs.flatMap fun c => " AND ".toList ++ c.write) := by
  induction cs with
  | nil => exact .inl rfl
  | cons c cs ih =>
    have hfirst : Solid (" AND ".toList ++ c.write) :=
      (solid_condition (h c List.mem_cons_self)).behind _
    exact .inr (hfirst.before (ih fun d hd => h d (List.mem_cons_of_mem c hd)))

theorem solid_conditions {cs : List Condition} (h : ∀ c ∈ cs, c.Shaped) :
    writeConditions cs = [] ∨ Solid (writeConditions cs) := by
  cases cs with
  | nil => exact .inl rfl
  | cons c cs =>
    have hfirst : Solid (" WHERE ".toList ++ c.write) :=
      (solid_condition (h c List.mem_cons_self)).behind _
    exact .inr (hfirst.before (solid_furtherConditions fun d hd => h d (List.mem_cons_of_mem c hd)))

/-- What stands before the order, the limit and the offset does not matter if it is solid. -/
theorem Solid.before_page {cs : List Char} (h : Solid cs) (q : Query) :
    Solid (cs ++ q.writeOrder ++ q.writeLimit ++ q.writeOffset) := by
  have horder : q.writeOrder = [] ∨ Solid q.writeOrder := by
    unfold writeOrder
    cases q.orderBy with
    | none => exact .inl rfl
    | some field =>
      right
      have hdirection : Solid q.order.symbol.toList := by
        cases q.order with
        | ascending => exact ⟨['A', 'S'], 'C', rfl, by decide, by decide⟩
        | descending => exact ⟨['D', 'E', 'S'], 'C', rfl, by decide, by decide⟩
      exact (hdirection.behind [' ']).behind _
  have hlimit : q.writeLimit = [] ∨ Solid q.writeLimit := by
    unfold writeLimit
    cases q.limit with
    | none => exact .inl rfl
    | some n => exact .inr ((solid_writeNat n.toNat).behind _)
  have hoffset : q.writeOffset = [] ∨ Solid q.writeOffset := by
    unfold writeOffset
    split
    · exact .inl rfl
    · exact .inr ((solid_writeNat q.offset.toNat).behind _)
  exact ((h.before horder).before hlimit).before hoffset

theorem solid_write {q : Query} (h : q.Shaped) : Solid q.write := by
  have hsource : Solid " FROM evidence".toList :=
    ⟨" FROM evidenc".toList, 'e', rfl, by decide, by decide⟩
  exact ((hsource.behind _).before (solid_conditions h.conditions)).before_page q

theorem trimEndWhile_of_last {p : Char → Bool} {before : List Char} {c : Char} (h : p c = false) :
    trimEndWhile p (before ++ [c]) = before ++ [c] := by
  simp [trimEndWhile, h]

/-- A text that is solid once its blanks are trimmed has no semicolons behind it to trim. -/
theorem trimmed_of_trim {source : String} (h : Solid (trim source.toList)) :
    trimmed source = trim source.toList := by
  obtain ⟨before, d, hshape, hblank, hsemicolon⟩ := h
  have hend : trimEndWhile (fun c => c == ';') (before ++ [d]) = before ++ [d] :=
    trimEndWhile_of_last (by simpa using hsemicolon)
  rw [trimmed, hshape, hend, trimEndWhile_of_last hblank]

theorem Solid.dropWhile_isBlank {cs : List Char} (h : Solid cs) : Solid (cs.dropWhile isBlank) := by
  obtain ⟨before, d, rfl, hblank, hsemicolon⟩ := h
  rw [List.dropWhile_append]
  split
  · have hstop : [d].dropWhile isBlank = [d] := by simp [hblank]
    rw [hstop]
    exact ⟨[], d, rfl, hblank, hsemicolon⟩
  · exact solid_of_last hblank hsemicolon

/-- Trimming takes only the blanks before a text that is solid at its end. -/
theorem trimmed_ofList {cs : List Char} (h : Solid cs) : trimmed (String.ofList cs) = cs.dropWhile isBlank := by
  have hsolid := h.dropWhile_isBlank
  have htrim : trim (String.ofList cs).toList = cs.dropWhile isBlank := by
    obtain ⟨before, d, hshape, hblank, -⟩ := hsolid
    rw [String.toList_ofList, trim, hshape, trimEndWhile_of_last hblank]
  rw [trimmed_of_trim (by rwa [htrim]), htrim]

/-- Trimming takes nothing away from a text that starts with no blank and is solid at its end. -/
theorem trimmed_of_solid {c : Char} {cs : List Char} (hc : isBlank c = false) (h : Solid (c :: cs)) :
    trimmed (String.ofList (c :: cs)) = c :: cs := by
  rw [trimmed_ofList h]
  simp [hc]

/-! ## Reading back -/

/-- The canonical text of a query of the right shape means the query with its values reread. -/
theorem means_reread {q : Query} (h : q.Shaped) : Means q.display q.reread := by
  obtain ⟨ts, hts, hsentence⟩ := chunk_query h
  obtain ⟨hclosed, htokens⟩ := hts.spells 0
  have htrimmed : trimmed q.display = q.write := trimmed_of_solid (by decide) (solid_write h)
  constructor
  · rw [htrimmed]
    exact hclosed
  · rw [htrimmed, lex, htokens]
    exact hsentence

/-- The canonical text of a well-formed query means this query. -/
theorem means_display {q : Query} (h : q.WellFormed) : Means q.display q := by
  obtain ⟨hshaped, hreread⟩ := wellFormed_iff.1 h
  have hmeans := means_reread hshaped
  rwa [hreread] at hmeans

/-- The canonical text of a well-formed query reads back as this query in both modes, and nothing is
reported. -/
theorem parse_display {q : Query} (h : q.WellFormed) :
    parseStrict q.display = .ok q ∧ parse q.display = ⟨q, []⟩ := by
  have haccepted : parseStrict q.display = .ok q := parseStrict_eq_ok_iff_means.2 (means_display h)
  exact ⟨haccepted, parse_of_strict haccepted⟩

/-- Keywords for fields, both quotes in one string, a semicolon, a binary64 value and the largest offset. -/
theorem parse_display_crowded :
    let q : Query :=
      { select := ["*", "limit"]
        conditions :=
          [⟨"order", .compare .ge, .float 0.5⟩, ⟨"!", .isIn, .list ["it's \"AND\"", ";"]⟩,
            ⟨"contradicts", .contains, .text "' ; "⟩, .ofRelation .supports "a)b"]
        orderBy := some "confidence"
        order := .descending
        limit := some 10
        offset := 18446744073709551615 }
    parseStrict q.display = .ok q ∧ parse q.display = ⟨q, []⟩ := by
  have hword {w : String} (h : w.toList ≠ [] ∧ w.toList.all isWordChar) : BareWord w :=
    bareWord_iff.2 (.inr h)
  refine parse_display ⟨by decide, ?_, ?_, ?_, nofun⟩
  · intro w hw
    simp only [List.mem_cons, List.not_mem_nil, or_false] at hw
    rcases hw with rfl | rfl
    · exact ⟨hword (by decide), by decide⟩
    · exact ⟨hword (by decide), by decide⟩
  · intro c hc
    simp only [List.mem_cons, List.not_mem_nil, or_false] at hc
    rcases hc with rfl | rfl | rfl | rfl
    · have hpoint : '.' ∈ (Decimal.display 0.5).toList := by decide +kernel
      have hread : Decimal.readFloat (Decimal.display 0.5) = some 0.5 := by decide +kernel
      exact .comparison .ge (hword (by decide)) (by decide) (.float hpoint hread)
    · exact .isIn (bareWord_iff.2 (.inl rfl)) (by decide) (by decide)
    · exact .contains _ (hword (by decide)) (by decide)
    · exact .relation .supports _
  · intro w hw
    cases hw
    exact ⟨hword (by decide), by decide⟩

end EvidenceGraph.Query
