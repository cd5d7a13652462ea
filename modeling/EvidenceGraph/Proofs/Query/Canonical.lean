/-
# `EvidenceGraph.Proofs.Query.Canonical` — the canonical text of a query has the query's tokens.

A query is well-formed if its names are words that may stand where they do, its operators have values of
their kind, and its binary64 values are written with a point and read back. No string needs a condition, as
it is always quoted. Without what is asked of binary64 values a query still has the right shape: its
canonical text is put together from chunks whose tokens are phrases of the grammar, and only values are
read as others. Main statements: `chunk_query`, and `wellFormed_iff`, the well-formed queries are those of
the right shape whose values are all read as they are.
-/
import EvidenceGraph.Proofs.Query.Spelling

namespace EvidenceGraph.Query

open EvidenceGraph.Text Grammar

/-! ## Well-formed queries -/

/-- A value that a comparison can have. That a binary64 value reads back from its own text is asked of
each of them. -/
inductive Literal.Comparable : Literal → Prop
  | bool (b : Bool) : Comparable (.bool b)
  | int (i : Int64) : Comparable (.int i)
  | float {x : Float} :
      '.' ∈ (Decimal.display x).toList → Decimal.readFloat (Decimal.display x) = some x →
      Comparable (.float x)
  | text (s : String) : Comparable (.text s)

/-- A condition with a word for its field and a value of the kind that its operator takes. -/
inductive Condition.WellFormed : Condition → Prop
  | comparison {field : String} {value : Literal} (c : Comparison) :
      BareWord field → Keyword.and.isSpelled field = false → value.Comparable →
      WellFormed ⟨field, .compare c, value⟩
  | isIn {field : String} {items : List String} :
      BareWord field → Keyword.and.isSpelled field = false → items ≠ [] →
      WellFormed ⟨field, .isIn, .list items⟩
  | contains {field : String} (s : String) :
      BareWord field → Keyword.and.isSpelled field = false → WellFormed ⟨field, .contains, .text s⟩
  | relation (kind : Relation) (id : String) : WellFormed (.ofRelation kind id)

/-- A query whose canonical text reads back. -/
structure WellFormed (q : Query) : Prop where
  select_ne : q.select ≠ []
  select : ∀ w ∈ q.select, BareWord w ∧ Keyword.source.isSpelled w = false
  conditions : ∀ c ∈ q.conditions, c.WellFormed
  orderBy : ∀ w ∈ q.orderBy, BareWord w ∧ isStructural w = false
  order : q.orderBy = none → q.order = .ascending

/-! ## Queries of the right shape -/

/-- A value of any kind that a comparison can have. -/
inductive Literal.Scalar : Literal → Prop
  | bool (b : Bool) : Scalar (.bool b)
  | int (i : Int64) : Scalar (.int i)
  | float (x : Float) : Scalar (.float x)
  | text (s : String) : Scalar (.text s)

/-- The values that an operator on a field takes. -/
inductive Operator.Takes : Operator → Literal → Prop
  | compare {value : Literal} (c : Comparison) : value.Scalar → Takes (.compare c) value
  | isIn {items : List String} : items ≠ [] → Takes .isIn (.list items)
  | contains (s : String) : Takes .contains (.text s)

/-- A condition with a word for its field and a value of the kind that its operator takes, whatever its
binary64 value is. -/
inductive Condition.Shaped : Condition → Prop
  | onField {field : String} {op : Operator} {value : Literal} :
      BareWord field → Keyword.and.isSpelled field = false → op.Takes value → Shaped ⟨field, op, value⟩
  | relation (kind : Relation) (id : String) : Shaped (.ofRelation kind id)

/-- A query whose canonical text is a query, though not always the same one. -/
structure Shaped (q : Query) : Prop where
  select_ne : q.select ≠ []
  select : ∀ w ∈ q.select, BareWord w ∧ Keyword.source.isSpelled w = false
  conditions : ∀ c ∈ q.conditions, c.Shaped
  orderBy : ∀ w ∈ q.orderBy, BareWord w ∧ isStructural w = false
  order : q.orderBy = none → q.order = .ascending

/-- The value that the canonical text of a value is read as. -/
def Literal.reread : Literal → Literal
  | .float x => .ofBare (Decimal.display x)
  | value => value

/-- A condition with the value that its canonical text is read as. -/
def Condition.reread (c : Condition) : Condition := { c with value := c.value.reread }

/-- A query with the values that its canonical text is read as. -/
def reread (q : Query) : Query := { q with conditions := q.conditions.map Condition.reread }

/-! ## Literals -/

theorem isWordChar_of_isDigit {c : Char} (h : c.isDigit) : isWordChar c := by
  have hother {d : Char} (hd : d.isDigit = false) : c ≠ d := Decimal.ne_of_isDigit h hd
  have hsign : isSign c = false := by
    simp only [isSign, Bool.or_eq_false_iff, beq_eq_false_iff_ne]
    refine ⟨⟨⟨⟨⟨⟨⟨⟨?_, ?_⟩, ?_⟩, ?_⟩, ?_⟩, ?_⟩, ?_⟩, ?_⟩, ?_⟩ <;> exact hother rfl
  have hblank : isBlank c = false := by
    simp only [Char.isDigit, Bool.and_eq_true, decide_eq_true_eq] at h
    have hlow : 48 ≤ c.toNat := h.1
    have hhigh : c.toNat ≤ 57 := h.2
    simp [isBlank, blankRanges]
    omega
  simp [isWordChar, hblank, hsign]

/-- Numbers are written with characters of words, none of them a semicolon. -/
theorem isWordChar_of_isNumberChar {c : Char} (h : Decimal.isNumberChar c) :
    isWordChar c ∧ c ≠ ';' := by
  rcases Bool.or_eq_true_iff.1 h with hdigit | hletter
  · exact ⟨isWordChar_of_isDigit hdigit, Decimal.ne_of_isDigit hdigit rfl⟩
  · have hall : (['.', '-', 'e', 'i', 'n', 'f', 'N', 'a'].all fun d =>
        isWordChar d && d != ';') = true := by decide
    simpa using List.all_eq_true.1 hall c (List.contains_iff_mem.1 hletter)

theorem isWord_of_isNumberChar {w : String} (hne : w.toList ≠ [])
    (h : ∀ c ∈ w.toList, Decimal.isNumberChar c) : IsWord w :=
  .inr ⟨hne, List.all_eq_true.2 fun c hc => (isWordChar_of_isNumberChar (h c hc)).1⟩

/-- A word that is no truth value is read as a number, if it reads as one. -/
theorem ofBare_of_not_sameWord {w : String} (htrue : sameWord w "true" = false)
    (hfalse : sameWord w "false" = false) :
    Literal.ofBare w =
      if w.toList.contains '.' then ((Decimal.readFloat w).map Literal.float).getD (.text w)
      else ((Decimal.readInt64 w).map Literal.int).getD (.text w) := by
  simp only [Literal.ofBare, htrue, hfalse]
  cases Decimal.readFloat w <;> cases Decimal.readInt64 w <;> rfl

/-- So is a word with a mark in it. -/
theorem ofBare_of_isMark {w : String} {c : Char} (hc : c ∈ w.toList) (hmark : Decimal.isMark c) :
    Literal.ofBare w =
      if w.toList.contains '.' then ((Decimal.readFloat w).map Literal.float).getD (.text w)
      else ((Decimal.readInt64 w).map Literal.int).getD (.text w) :=
  ofBare_of_not_sameWord (Decimal.not_sameWord_of_isMark hc hmark (by decide))
    (Decimal.not_sameWord_of_isMark hc hmark (by decide))

theorem ofBare_writeInt (i : Int64) :
    Literal.ofBare (String.ofList (Decimal.writeInt i.toInt)) = .int i := by
  obtain ⟨c, hc, hmark⟩ := Decimal.exists_isMark_writeInt i.toInt
  have hpoint : (Decimal.writeInt i.toInt).contains '.' = false := by
    rw [Bool.eq_false_iff]
    intro hpoint
    rcases Decimal.eq_minus_or_isDigit_of_mem_writeInt (by simpa using hpoint) with h | h
    · exact absurd h (by decide)
    · exact absurd h (by decide)
  rw [ofBare_of_isMark (by rw [String.toList_ofList]; exact hc) hmark, String.toList_ofList, hpoint,
    Decimal.readInt64_writeInt]
  rfl

/-- Only a word with a point is read as a binary64 value. -/
theorem ofBare_eq_float {w : String} {x : Float} :
    Literal.ofBare w = .float x ↔ '.' ∈ w.toList ∧ Decimal.readFloat w = some x := by
  by_cases hpoint : '.' ∈ w.toList
  · rw [ofBare_of_isMark hpoint rfl, if_pos (by simpa using hpoint)]
    cases Decimal.readFloat w <;> simp [hpoint]
  · have hother : ∀ y, Literal.ofBare w ≠ .float y := by
      intro y
      unfold Literal.ofBare
      rw [if_neg (by simpa using hpoint : ¬ w.toList.contains '.' = true)]
      repeat' split
      all_goals nofun
    simp [hpoint, hother x]

/-- Each structural keyword has a letter that no number has. -/
theorem not_isSpelled_display (x : Float) : ∀ k ∈ Keyword.structural, k.isSpelled (Decimal.display x) = false := by
  intro k hk
  refine Decimal.not_sameWord_display x ?_
  revert k
  decide

/-- A token that structures no query. -/
def Token.Silent (t : Token) : Prop := ∀ k ∈ Keyword.structural, t.isKeyword k = false

/-- A word that is read as a value and spells no keyword is one token with this value. -/
theorem chunk_bare {w : String} {v : Literal} (hword : IsWord w)
    (hsilent : ∀ k ∈ Keyword.structural, k.isSpelled w = false) (hread : Literal.ofBare w = v) :
    ∃ t, Chunk w.toList [t] ∧ Value t v ∧ t.Silent := by
  have hname : Name [.and] (.word w) w := .word fun k hk => hsilent k (by rw [List.mem_singleton.1 hk]; decide)
  exact ⟨.word w, chunk_word hword, hread ▸ .word hname, hsilent⟩

/-- The canonical text of a value is one token, and no keyword. -/
theorem chunk_literal {v : Literal} (h : v.Scalar) : ∃ t, Chunk v.write [t] ∧ Value t v.reread ∧ t.Silent := by
  cases h with
  | bool b =>
    have hword : IsWord (String.ofList (writeBool b)) := by
      right
      rw [String.toList_ofList]
      cases b <;> decide
    have hsilent : ∀ k ∈ Keyword.structural, k.isSpelled (String.ofList (writeBool b)) = false := by
      cases b <;> decide
    have hread : Literal.ofBare (String.ofList (writeBool b)) = .bool b := by cases b <;> rfl
    have hchunk := chunk_bare hword hsilent hread
    rwa [String.toList_ofList] at hchunk
  | int i =>
    obtain ⟨c, hc, hmark⟩ := Decimal.exists_isMark_writeInt i.toInt
    rw [← @String.toList_ofList (Decimal.writeInt i.toInt)] at hc
    have hword : IsWord (String.ofList (Decimal.writeInt i.toInt)) := by
      refine isWord_of_isNumberChar (List.ne_nil_of_mem hc) fun d hd => ?_
      exact Decimal.isNumberChar_of_mem_writeInt (by rwa [String.toList_ofList] at hd)
    have hchunk := chunk_bare hword (fun k _ => not_isSpelled_of_isMark hc hmark k) (ofBare_writeInt i)
    rwa [String.toList_ofList] at hchunk
  | float x =>
    have hword : IsWord (Decimal.display x) := isWord_of_isNumberChar (Decimal.display_ne_nil x)
      fun c hc => Decimal.isNumberChar_of_mem_display hc
    exact chunk_bare hword (not_isSpelled_display x) rfl
  | text s => exact ⟨.quoted s, chunk_quoted s, .quoted s, fun _ _ => rfl⟩

/-! ## Lists and conditions -/

/-- Items with commas between them, the text of each being one token. -/
theorem chunk_separated {α : Type} {one : Token → α → Prop} {write : α → List Char} {token : α → Token}
    {items : List α} (hne : items ≠ []) (hchunk : ∀ a ∈ items, Chunk (write a) [token a])
    (hone : ∀ a ∈ items, one (token a) a) :
    ∃ ts, Chunk (writeSeparated (items.map write)) ts ∧ Separated one ts items := by
  induction items with
  | nil => exact absurd rfl hne
  | cons a items ih =>
    have hfirst := hchunk a List.mem_cons_self
    have hvalue := hone a List.mem_cons_self
    cases items with
    | nil =>
      refine ⟨[token a], ?_, .last hvalue⟩
      simpa [writeSeparated] using hfirst
    | cons b items =>
      obtain ⟨ts, hts, hmore⟩ := ih (List.cons_ne_nil b items)
        (fun c hc => hchunk c (List.mem_cons_of_mem a hc)) fun c hc => hone c (List.mem_cons_of_mem a hc)
      refine ⟨token a :: .comma :: ts, ?_, .more hvalue hmore⟩
      have hjoin := hfirst.append hts.blank.comma (.comma _)
      simpa [writeSeparated] using hjoin

/-- A string in quotes. -/
inductive Verbatim : Token → String → Prop
  | quoted (s : String) : Verbatim (.quoted s) s

/-- Strings in a list are written in quotes, each of them. -/
theorem chunk_list {items : List String} (hne : items ≠ []) :
    ∃ ts, Chunk (Literal.list items).write (.leftParen :: (ts ++ [.rightParen])) ∧
      Separated Verbatim ts items := by
  obtain ⟨ts, hts, hitems⟩ :=
    chunk_separated hne (fun s _ => chunk_quoted s) fun s _ => Verbatim.quoted s
  exact ⟨ts, hts.closed.leftParen, hitems⟩

theorem separated_item {ts : List Token} {items : List String} (h : Separated Verbatim ts items) :
    Separated Item ts items := by
  induction h with
  | last hone =>
    cases hone with
    | quoted => exact .last (.quoted _)
  | more hone _ ih =>
    cases hone with
    | quoted => exact .more (.quoted _) ih

/-- A keyword with blanks around it. -/
theorem chunk_keyword (k : Keyword) {cs : List Char} {ts : List Token} (h : Chunk cs ts) :
    Chunk (' ' :: (k.spelling.toList ++ ' ' :: cs)) (.word k.spelling :: ts) := by
  have hword : IsWord k.spelling := by
    right
    cases k <;> decide
  exact ((chunk_word hword).append_blank h).blank

theorem isKeyword_spelling (k : Keyword) : (Token.word k.spelling).isKeyword k :=
  sameWord_refl k.spelling

/-- The argument of a relation, between its parentheses. -/
theorem chunk_nodeId {cs : List Char} {ts : List Token} (h : Chunk cs ts) :
    Chunk (nodeIdField.toList ++ '=' :: cs) (.word nodeIdField :: .comparison .eq :: ts) := by
  intro rest us hrest hus
  have hequals : Spells ('=' :: (cs ++ rest)) (.comparison .eq :: (ts ++ us)) :=
    spells_scan (by decide) rfl (h rest us hrest hus)
  rw [List.append_assoc]
  -- the name is followed by its sign at once, so it is no chunk
  refine spells_word (by decide) (by decide) ?_ hequals
  intro c hc
  cases hc
  decide

/-- The tokens of the canonical text of a condition: behind its field there is no keyword but its operator. -/
inductive Printed : List Token → Condition → Prop
  | comparison {field : String} {t : Token} {value : Literal} (c : Comparison) :
      Name [.and] (.word field) field → Value t value → t.Silent →
      Printed [.word field, .comparison c, t] ⟨field, .compare c, value⟩
  | isIn {field : String} {ts : List Token} {items : List String} :
      Name [.and] (.word field) field → Separated Verbatim ts items →
      Printed (.word field :: .word Keyword.isIn.spelling :: .leftParen :: (ts ++ [.rightParen]))
        ⟨field, .isIn, .list items⟩
  | contains {field : String} (s : String) :
      Name [.and] (.word field) field →
      Printed [.word field, .word Keyword.contains.spelling, .quoted s] ⟨field, .contains, .text s⟩
  | relation (kind : Relation) (s : String) :
      Printed [.word kind.name, .leftParen, .word nodeIdField, .comparison .eq, .quoted s, .rightParen]
        (.ofRelation kind s)

theorem Printed.condition {ts : List Token} {c : Condition} (h : Printed ts c) : Grammar.Condition ts c := by
  cases h with
  | comparison symbol hname hvalue _ => exact .comparison symbol hname hvalue
  | isIn hname hitems => exact .isInList hname (isKeyword_spelling .isIn) (separated_item hitems)
  | contains s hname => exact .contains hname (isKeyword_spelling .contains) (.quoted s)
  | relation kind s => exact .relation kind (sameWord_refl _) (sameWord_refl _) (.quoted s)

/-- The canonical text of a condition has the tokens of one. -/
theorem chunk_condition {c : Condition} (h : c.Shaped) : ∃ ts, Chunk c.write ts ∧ Printed ts c.reread := by
  cases h with
  | @onField field _ _ hfield hand htakes =>
    have hname : Name [.and] (.word field) field := .word (by simpa using hand)
    have hfield := chunk_word (bareWord_iff.1 hfield)
    cases htakes with
    | compare symbol hvalue =>
      obtain ⟨t, ht, hread, hsilent⟩ := chunk_literal hvalue
      have hright := (chunk_comparison symbol).append_blank ht
      exact ⟨_, hfield.append_blank hright, .comparison symbol hname hread hsilent⟩
    | isIn hne =>
      obtain ⟨ts, hts, hitems⟩ := chunk_list hne
      have hwhole := hfield.append (chunk_keyword .isIn hts) (.blank _)
      exact ⟨_, hwhole, .isIn hname hitems⟩
    | contains s =>
      have hwhole := hfield.append (chunk_keyword .contains (chunk_quoted s)) (.blank _)
      exact ⟨_, hwhole, .contains s hname⟩
  | relation kind id =>
    have hword : IsWord kind.name := by
      right
      cases kind <;> decide
    have hargument := chunk_nodeId (chunk_quoted id).closed
    have hwhole := (chunk_word hword).append hargument.leftParen (.leftParen _)
    exact ⟨_, hwhole, .relation kind id⟩

/-! ## Clauses -/

/-- The tokens of the canonical text of one or more conditions. -/
inductive PrintedConditions : List Token → List Condition → Prop
  | last {ts : List Token} {c : Condition} : Printed ts c → PrintedConditions ts [c]
  | more {ts us : List Token} {a : Token} {c : Condition} {cs : List Condition} :
      Printed ts c → a.isKeyword .and → PrintedConditions us cs → PrintedConditions (ts ++ a :: us) (c :: cs)

theorem PrintedConditions.conjunction {ts : List Token} {cs : List Condition} (h : PrintedConditions ts cs) :
    Conjunction ts cs := by
  induction h with
  | last hc => exact .last hc.condition
  | more hc ha _ ih => exact .more hc.condition ha ih

/-- Conditions behind a keyword, `AND` between them. -/
theorem chunk_conjunction {c : Condition} {cs : List Condition} (h : ∀ d ∈ c :: cs, d.Shaped) :
    ∃ ts, Chunk (c.write ++ cs.flatMap fun d => " AND ".toList ++ d.write) ts ∧
      PrintedConditions ts ((c :: cs).map Condition.reread) := by
  induction cs generalizing c with
  | nil =>
    obtain ⟨ts, hts, hc⟩ := chunk_condition (h c List.mem_cons_self)
    refine ⟨ts, ?_, .last hc⟩
    simpa using hts
  | cons d cs ih =>
    obtain ⟨ts, hts, hc⟩ := chunk_condition (h c List.mem_cons_self)
    obtain ⟨us, hus, hmore⟩ := ih fun e he => h e (List.mem_cons_of_mem c he)
    exact ⟨_, hts.append (chunk_keyword .and hus) (.blank _), .more hc (isKeyword_spelling .and) hmore⟩

/-- The tokens of the canonical text of conditions, with the keyword if there are any. -/
inductive PrintedFilter : List Token → List Condition → Prop
  | absent : PrintedFilter [] []
  | present {ts : List Token} {cs : List Condition} :
      PrintedConditions ts cs → PrintedFilter (.word Keyword.filter.spelling :: ts) cs

theorem PrintedFilter.filter {ts : List Token} {cs : List Condition} (h : PrintedFilter ts cs) : Filter ts cs := by
  cases h with
  | absent => exact .absent
  | present hconditions => exact .present (isKeyword_spelling .filter) hconditions.conjunction

theorem chunk_conditions {cs : List Condition} (h : ∀ c ∈ cs, c.Shaped) :
    Apart (writeConditions cs) ∧
      ∃ ts, Chunk (writeConditions cs) ts ∧ PrintedFilter ts (cs.map Condition.reread) := by
  cases cs with
  | nil => exact ⟨.nil, [], .nil, .absent⟩
  | cons c cs =>
    obtain ⟨ts, hts, hconditions⟩ := chunk_conjunction h
    exact ⟨.blank _, _, chunk_keyword .filter hts, .present hconditions⟩

theorem chunk_order {q : Query} (hsome : ∀ w ∈ q.orderBy, BareWord w ∧ isStructural w = false)
    (hnone : q.orderBy = none → q.order = .ascending) :
    Apart q.writeOrder ∧ ∃ ts, Chunk q.writeOrder ts ∧ OrderBy ts q.orderBy q.order := by
  unfold writeOrder
  cases horder : q.orderBy with
  | none =>
    rw [hnone horder]
    exact ⟨.nil, [], .nil, .absent⟩
  | some field =>
    obtain ⟨hfield, hstructural⟩ := hsome field horder
    have hname : Name Keyword.structural (.word field) field :=
      .word (by simpa [isStructural] using hstructural)
    have hdirection : IsWord q.order.symbol := by
      right
      cases q.order <;> decide
    have hword : IsWord Keyword.by.spelling := .inr ⟨by decide, by decide⟩
    have hbehind := (chunk_word (bareWord_iff.1 hfield)).append_blank (chunk_word hdirection)
    have hby := (chunk_word hword).append_blank hbehind
    refine ⟨.blank _, _, chunk_keyword .order hby, ?_⟩
    cases q.order with
    | ascending =>
      exact .ascending (isKeyword_spelling .order) (isKeyword_spelling .by) hname
        (isKeyword_spelling .asc)
    | descending =>
      exact .descending (isKeyword_spelling .order) (isKeyword_spelling .by) hname
        (isKeyword_spelling .desc)

/-- The digits of a count are one token, and read as the count. -/
theorem chunk_count (n : UInt64) : ∃ t, Chunk (Decimal.writeNat n.toNat) [t] ∧ Count t n := by
  have hword : IsWord (String.ofList (Decimal.writeNat n.toNat)) := by
    refine isWord_of_isNumberChar ?_ fun c hc => ?_
    · rw [String.toList_ofList]
      exact Decimal.writeNat_ne_nil n.toNat
    · rw [String.toList_ofList] at hc
      exact Decimal.isNumberChar_of_isDigit (Decimal.isDigit_writeNat hc)
  exact ⟨_, chunk_ofList hword, .word (Decimal.readCount_writeNat n)⟩

theorem chunk_limit (q : Query) :
    Apart q.writeLimit ∧ ∃ ts, Chunk q.writeLimit ts ∧ Limit ts q.limit := by
  unfold writeLimit
  cases q.limit with
  | none => exact ⟨.nil, [], .nil, .absent⟩
  | some n =>
    obtain ⟨t, ht, hcount⟩ := chunk_count n
    exact ⟨.blank _, _, chunk_keyword .limit ht, .present (isKeyword_spelling .limit) hcount⟩

theorem chunk_offset (q : Query) :
    Apart q.writeOffset ∧ ∃ ts, Chunk q.writeOffset ts ∧ Offset ts q.offset := by
  unfold writeOffset
  split
  · next hzero =>
    rw [hzero]
    exact ⟨.nil, [], .nil, .absent⟩
  · obtain ⟨t, ht, hcount⟩ := chunk_count q.offset
    exact ⟨.blank _, _, chunk_keyword .offset ht, .present (isKeyword_spelling .offset) hcount⟩

/-! ## Whole queries -/

/-- Chunks that make a query, in front of what stands behind its source. -/
theorem chunk_select {fields : List String} {cs : List Char} {ts : List Token} (hne : fields ≠ [])
    (h : ∀ w ∈ fields, BareWord w ∧ Keyword.source.isSpelled w = false) (hcs : Chunk cs ts)
    (happart : Apart cs) :
    ∃ names, Separated (Name [.source]) names fields ∧
      Chunk ("SELECT ".toList ++
          (writeSeparated (fields.map String.toList) ++ (" FROM evidence".toList ++ cs)))
        (.word Keyword.select.spelling ::
          (names ++ .word Keyword.source.spelling :: .word sourceTable :: ts)) := by
  have hname (w : String) (hw : w ∈ fields) : Name [.source] (.word w) w :=
    .word (by simpa using (h w hw).2)
  obtain ⟨names, hnames, hselect⟩ := chunk_separated hne
    (fun w hw => chunk_word (bareWord_iff.1 (h w hw).1)) hname
  have hevidence : IsWord sourceTable := .inr ⟨by decide, by decide⟩
  have hfirst : IsWord Keyword.select.spelling := .inr ⟨by decide, by decide⟩
  have hsource := chunk_keyword .source ((chunk_word hevidence).append hcs happart)
  have hbody := hnames.append hsource (.blank _)
  exact ⟨names, hselect, (chunk_word hfirst).append_blank hbody⟩

/-- The canonical text of a query from its conditions on. -/
def writeBehindSource (q : Query) : List Char :=
  writeConditions q.conditions ++ q.writeOrder ++ q.writeLimit ++ q.writeOffset

theorem write_eq (q : Query) :
    q.write = "SELECT ".toList ++ (writeSeparated (q.select.map String.toList) ++
      (" FROM evidence".toList ++ q.writeBehindSource)) := by
  unfold write writeBehindSource
  repeat rw [List.append_assoc]

/-- Chunks for what may stand behind the source. -/
theorem chunk_behindSource {q : Query} (h : q.Shaped) :
    Apart q.writeBehindSource ∧ ∃ filter ordering limit offset,
      Chunk q.writeBehindSource (filter ++ ordering ++ limit ++ offset) ∧
        PrintedFilter filter q.reread.conditions ∧ OrderBy ordering q.orderBy q.order ∧
        Limit limit q.limit ∧ Offset offset q.offset := by
  obtain ⟨hbeforeFilter, filter, hfilter, hconditions⟩ := chunk_conditions h.conditions
  obtain ⟨hbeforeOrder, ordering, hordering, horder⟩ := chunk_order h.orderBy h.order
  obtain ⟨hbeforeLimit, limit, hlimit, hlimited⟩ := chunk_limit q
  obtain ⟨hbeforeOffset, offset, hoffset, hskipped⟩ := chunk_offset q
  have hwhole := ((hfilter.append hordering hbeforeOrder).append hlimit hbeforeLimit).append hoffset
    hbeforeOffset
  have happart := ((hbeforeFilter.append hbeforeOrder).append hbeforeLimit).append hbeforeOffset
  exact ⟨happart, _, _, _, _, hwhole, hconditions, horder, hlimited, hskipped⟩

/-- The canonical text of a query of the right shape is a query. -/
theorem chunk_query {q : Query} (h : q.Shaped) : ∃ ts, Chunk q.write ts ∧ Sentence ts q.reread := by
  obtain ⟨happart, _, _, _, _, hbehind, hconditions, horder, hlimited, hskipped⟩ := chunk_behindSource h
  obtain ⟨names, hnames, hwhole⟩ := chunk_select h.select_ne h.select hbehind happart
  rw [write_eq]
  exact ⟨_, hwhole, .mk (isKeyword_spelling .select) hnames (isKeyword_spelling .source)
    (sameWord_refl sourceTable) hconditions.filter horder hlimited hskipped⟩

/-! ## Well-formed queries among those of the right shape -/

theorem Literal.comparable_iff {v : Literal} : v.Comparable ↔ v.Scalar ∧ v.reread = v := by
  constructor
  · rintro (b | i | ⟨hpoint, hread⟩ | s)
    · exact ⟨.bool b, rfl⟩
    · exact ⟨.int i, rfl⟩
    · exact ⟨.float _, ofBare_eq_float.2 ⟨hpoint, hread⟩⟩
    · exact ⟨.text s, rfl⟩
  · rintro ⟨b | i | x | s, hreread⟩
    · exact .bool b
    · exact .int i
    · obtain ⟨hpoint, hread⟩ := ofBare_eq_float.1 hreread
      exact .float hpoint hread
    · exact .text s

theorem Condition.reread_eq_self {c : Condition} : c.reread = c ↔ c.value.reread = c.value := by
  cases c
  simp [Condition.reread]

theorem Condition.wellFormed_iff {c : Condition} : c.WellFormed ↔ c.Shaped ∧ c.reread = c := by
  rw [Condition.reread_eq_self]
  constructor
  · intro h
    cases h with
    | comparison symbol hfield hand hvalue =>
      obtain ⟨hscalar, hreread⟩ := Literal.comparable_iff.1 hvalue
      exact ⟨.onField hfield hand (.compare symbol hscalar), hreread⟩
    | isIn hfield hand hne => exact ⟨.onField hfield hand (.isIn hne), rfl⟩
    | contains s hfield hand => exact ⟨.onField hfield hand (.contains s), rfl⟩
    | relation kind id => exact ⟨.relation kind id, rfl⟩
  · rintro ⟨h, hreread⟩
    cases h with
    | onField hfield hand htakes =>
      cases htakes with
      | compare symbol hscalar =>
        exact .comparison symbol hfield hand (Literal.comparable_iff.2 ⟨hscalar, hreread⟩)
      | isIn hne => exact .isIn hfield hand hne
      | contains s => exact .contains s hfield hand
    | relation kind id => exact .relation kind id

theorem reread_eq_self {q : Query} : q.reread = q ↔ ∀ c ∈ q.conditions, c.reread = c := by
  have hconditions : q.reread = q ↔ q.conditions.map Condition.reread = q.conditions.map id := by
    cases q
    simp [reread]
  rw [hconditions, List.map_inj_left]
  rfl

/-- Well-formed queries are those of the right shape that are read as they are. -/
theorem wellFormed_iff {q : Query} : q.WellFormed ↔ q.Shaped ∧ q.reread = q := by
  rw [reread_eq_self]
  constructor
  · intro h
    have hconditions (c : Condition) (hc : c ∈ q.conditions) := Condition.wellFormed_iff.1 (h.conditions c hc)
    exact ⟨⟨h.select_ne, h.select, fun c hc => (hconditions c hc).1, h.orderBy, h.order⟩,
      fun c hc => (hconditions c hc).2⟩
  · rintro ⟨h, hreread⟩
    exact ⟨h.select_ne, h.select,
      fun c hc => Condition.wellFormed_iff.2 ⟨h.conditions c hc, hreread c hc⟩, h.orderBy, h.order⟩

end EvidenceGraph.Query
