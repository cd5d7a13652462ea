/-
# `EvidenceGraph.Proofs.Query.Reading` — what readers take off the front of a query.

For each reader of a phrase there are two statements, here and in the modules that follow. It is sound:
what it takes off the front is a phrase of the grammar with the value it returns. It is complete: a phrase
at the front is taken, all of it and no more, provided that what follows cannot be mistaken for its
continuation. Only two readers look for a continuation, the list of items for a comma and the order for
its direction. This module has the readers in sequence, those of one lexeme and the list of items.
-/
import EvidenceGraph.Proofs.Decimal.Numerals
import EvidenceGraph.Proofs.Query.Grammar

namespace EvidenceGraph.Query

open EvidenceGraph.Text

/-- The tokens of a list of lexemes. -/
def tokens (ts : List Lexeme) : List Token := ts.map Lexeme.token

@[simp] theorem tokens_nil : tokens [] = [] := rfl

@[simp] theorem tokens_cons (t : Lexeme) (ts : List Lexeme) : tokens (t :: ts) = t.token :: tokens ts :=
  rfl

@[simp] theorem tokens_append (ts us : List Lexeme) : tokens (ts ++ us) = tokens ts ++ tokens us :=
  List.map_append

theorem tokens_eq_nil {ts : List Lexeme} : tokens ts = [] ↔ ts = [] := List.map_eq_nil_iff

theorem tokens_eq_cons {ts : List Lexeme} {t : Token} {us : List Token} :
    tokens ts = t :: us ↔ ∃ l ls, ts = l :: ls ∧ l.token = t ∧ tokens ls = us :=
  List.map_eq_cons_iff

theorem tokens_eq_cons_cons {ts : List Lexeme} {t u : Token} {us : List Token} :
    tokens ts = t :: u :: us ↔
      ∃ l m ls, ts = l :: m :: ls ∧ l.token = t ∧ m.token = u ∧ tokens ls = us := by
  constructor
  · intro h
    obtain ⟨l, ls, rfl, hl, hls⟩ := tokens_eq_cons.1 h
    obtain ⟨m, ms, rfl, hm, hms⟩ := tokens_eq_cons.1 hls
    exact ⟨l, m, ms, rfl, hl, hm, hms⟩
  · rintro ⟨l, m, ls, rfl, rfl, rfl, rfl⟩
    rfl

theorem tokens_eq_append {ts : List Lexeme} {us vs : List Token} :
    tokens ts = us ++ vs ↔ ∃ xs ys, ts = xs ++ ys ∧ tokens xs = us ∧ tokens ys = vs :=
  List.map_eq_append_iff

theorem tokens_eq_singleton {ts : List Lexeme} {t : Token} : tokens ts = [t] ↔ ∃ l, ts = [l] ∧ l.token = t :=
  List.map_eq_singleton_iff

theorem forall_mem_tokens {p : Token → Prop} {ts : List Lexeme} : (∀ t ∈ tokens ts, p t) ↔ ∀ t ∈ ts, p t.token :=
  List.forall_mem_map

namespace Reader

variable {α β : Type}

/-! ## Readers in sequence -/

@[simp] theorem pure_apply (a : α) (ts : List Lexeme) : (pure a : Reader α) ts = .ok (a, ts) := rfl

/-- Behind a reader that succeeds the next one goes on. -/
theorem bind_of_ok {r : Reader α} {next : α → Reader β} {ts mid : List Lexeme} {a : α}
    (h : r ts = .ok (a, mid)) : (r >>= next) ts = next a mid := by
  simp only [Bind.bind, h]

/-- The fault of a reader ends a sequence. -/
theorem bind_of_error {r : Reader α} {next : α → Reader β} {ts : List Lexeme} {found : Miss}
    (h : r ts = .error found) : (r >>= next) ts = .error found := by
  simp only [Bind.bind, h]

/-- A sequence of readers succeeds if the first one does and the second one does on what is left. -/
theorem bind_eq_ok {r : Reader α} {next : α → Reader β} {ts rest : List Lexeme} {b : β} :
    (r >>= next) ts = .ok (b, rest) ↔
      ∃ a mid, r ts = .ok (a, mid) ∧ next a mid = .ok (b, rest) := by
  cases h : r ts with
  | error found =>
    rw [bind_of_error h]
    simp
  | ok read =>
    obtain ⟨a, mid⟩ := read
    rw [bind_of_ok h]
    constructor
    · intro hnext
      exact ⟨a, mid, rfl, hnext⟩
    · rintro ⟨a', mid', heq, hnext⟩
      cases heq
      exact hnext

@[simp] theorem ahead_bind {next : List Lexeme → Reader β} {ts : List Lexeme} :
    (ahead >>= next) ts = next ts ts := rfl

@[simp] theorem advance_bind {next : Unit → Reader β} {ts : List Lexeme} :
    (advance >>= next) ts = next () ts.tail := rfl

/-! ## One lexeme -/

theorem item_eq_ok {accept : Token → Option α} {fault : Fault} {ts rest : List Lexeme} {a : α} :
    item accept fault ts = .ok (a, rest) ↔ ∃ t, ts = t :: rest ∧ accept t.token = some a := by
  cases ts with
  | nil => simp [item]
  | cons t ts =>
    cases h : accept t.token with
    | none =>
      simp only [item, h]
      constructor
      · intro hfalse
        cases hfalse
      · rintro ⟨t', heq, hsome⟩
        cases heq
        rw [h] at hsome
        cases hsome
    | some b =>
      simp only [item, h, Except.ok.injEq, Prod.mk.injEq]
      constructor
      · rintro ⟨rfl, rfl⟩
        exact ⟨t, rfl, h⟩
      · rintro ⟨t', heq, hsome⟩
        cases heq
        rw [h] at hsome
        cases hsome
        exact ⟨rfl, rfl⟩

theorem item_cons {accept : Token → Option α} {fault : Fault} {t : Lexeme} {a : α}
    (h : accept t.token = some a) (rest : List Lexeme) :
    item accept fault (t :: rest) = .ok (a, rest) :=
  item_eq_ok.2 ⟨t, rfl, h⟩

theorem item_miss {accept : Token → Option α} {fault : Fault} {ts : List Lexeme}
    (h : ∀ t ∈ ts.head?, accept t.token = none) : item accept fault ts = .error ⟨fault, ts⟩ := by
  cases ts with
  | nil => rfl
  | cons t ts =>
    have hnone := h t rfl
    simp only [item, hnone]

theorem sign_eq_ok {token : Token} {fault : Fault} {ts rest : List Lexeme} :
    sign token fault ts = .ok ((), rest) ↔ ∃ t, ts = t :: rest ∧ t.token = token := by
  simp [sign, item_eq_ok]

theorem sign_cons {token : Token} {fault : Fault} {t : Lexeme} (h : t.token = token)
    (rest : List Lexeme) : sign token fault (t :: rest) = .ok ((), rest) :=
  sign_eq_ok.2 ⟨t, rfl, h⟩

theorem keyword_eq_ok {k : Keyword} {ts rest : List Lexeme} :
    keyword k ts = .ok ((), rest) ↔ ∃ t, ts = t :: rest ∧ t.token.isKeyword k := by
  simp [keyword, item_eq_ok]

theorem keyword_miss {k : Keyword} {ts : List Lexeme} (h : atKeyword k ts = false) :
    keyword k ts = .error ⟨.missingKeyword k, ts⟩ := by
  refine item_miss fun t ht => ?_
  cases ts with
  | nil => cases ht
  | cons u us =>
    obtain rfl : u = t := Option.some.inj ht
    exact if_neg (Bool.eq_false_iff.1 h)

theorem keyword_cons {k : Keyword} {t : Lexeme} (h : t.token.isKeyword k) (rest : List Lexeme) :
    keyword k (t :: rest) = .ok ((), rest) :=
  keyword_eq_ok.2 ⟨t, rfl, h⟩

end Reader

/-! ## Keywords -/

/-- Two spellings of one word are spellings of each other. -/
theorem sameWord_of_same {w a b : String} (ha : sameWord w a) (hb : sameWord w b) : sameWord a b := by
  simp only [sameWord, beq_iff_eq] at ha hb ⊢
  rw [← ha, hb]

/-- No word spells two keywords. -/
theorem isSpelled_unique {k k' : Keyword} {w : String} (h : k.isSpelled w) (h' : k'.isSpelled w) :
    k = k' := by
  have hsame : sameWord k.spelling k'.spelling := sameWord_of_same h h'
  -- the twelve spellings differ from each other
  revert hsame
  cases k <;> cases k' <;> decide

theorem isKeyword_iff {k : Keyword} {t : Token} : t.isKeyword k ↔ ∃ w, t = .word w ∧ k.isSpelled w := by
  cases t <;> simp [Token.isKeyword]

theorem isKeyword_unique {k k' : Keyword} {t : Token} (h : t.isKeyword k) (h' : t.isKeyword k') :
    k = k' := by
  obtain ⟨w, rfl, hw⟩ := isKeyword_iff.1 h
  exact isSpelled_unique hw h'

theorem not_isKeyword {k k' : Keyword} {t : Token} (h : t.isKeyword k) (hne : k ≠ k') :
    ¬ t.isKeyword k' := fun h' => hne (isKeyword_unique h h')

/-- A word with a mark in it spells no keyword. -/
theorem not_isSpelled_of_isMark {w : String} {c : Char} (hc : c ∈ w.toList) (hmark : Decimal.isMark c)
    (k : Keyword) : k.isSpelled w = false := by
  refine Decimal.not_sameWord_of_isMark hc hmark ?_
  cases k <;> decide

/-- A word that reads as a count spells no keyword, since it has a digit. -/
theorem not_isSpelled_of_count {k : Keyword} {w : String} {n : UInt64}
    (h : Decimal.readCount w = some n) : k.isSpelled w = false := by
  obtain ⟨c, hc, hmark⟩ := Decimal.exists_isMark_of_readCount h
  exact not_isSpelled_of_isMark hc hmark k

/-! ## What single tokens stand for -/

open Grammar

theorem name_iff {refused : List Keyword} {t : Token} {w : String} :
    Name refused t w ↔ t = .word w ∧ ∀ k ∈ refused, k.isSpelled w = false := by
  constructor
  · rintro ⟨h⟩
    exact ⟨rfl, h⟩
  · rintro ⟨rfl, h⟩
    exact .word h

/-- A test of single tokens knows exactly the tokens of a phrase, and the value of each. -/
def Accepts {α : Type} (accept : Token → Option α) (one : Token → α → Prop) : Prop :=
  ∀ t a, accept t = some a ↔ one t a

/-- The tests for names differ only in the words that they refuse. -/
theorem accepts_name {accept : Token → Option String} {refused : List Keyword}
    (hword : ∀ w, accept (.word w) = if refused.any (fun k => k.isSpelled w) then none else some w)
    (hother : ∀ t w, accept t = some w → ∃ v, t = .word v) : Accepts accept (Name refused) := by
  intro t w
  rw [name_iff]
  constructor
  · intro h
    obtain ⟨v, rfl⟩ := hother t w h
    rw [hword] at h
    split at h
    · cases h
    · next hnone =>
      cases h
      exact ⟨rfl, by simpa using hnone⟩
  · rintro ⟨rfl, hnone⟩
    rw [hword, if_neg (by simpa using hnone)]

theorem accepts_selectField : Accepts selectField? (Name [.source]) := by
  refine accepts_name (fun w => by simp [selectField?]) fun t w h => ?_
  cases t with
  | word v => exact ⟨v, rfl⟩
  | quoted | comparison | leftParen | rightParen | comma => cases h

theorem accepts_conditionField : Accepts conditionField? (Name [.and]) := by
  refine accepts_name (fun w => by simp [conditionField?]) fun t w h => ?_
  cases t with
  | word v => exact ⟨v, rfl⟩
  | quoted | comparison | leftParen | rightParen | comma => cases h

theorem accepts_orderField : Accepts orderField? (Name Keyword.structural) := by
  refine accepts_name (fun w => rfl) fun t w h => ?_
  cases t with
  | word v => exact ⟨v, rfl⟩
  | quoted | comparison | leftParen | rightParen | comma => cases h

theorem accepts_string : Accepts string? Item := by
  intro t s
  constructor
  · intro h
    cases t with
    | quoted q =>
      cases h
      exact .quoted _
    | word w => exact .word ((accepts_conditionField _ _).1 h)
    | comparison | leftParen | rightParen | comma => cases h
  · intro h
    cases h with
    | quoted => rfl
    | word hname =>
      obtain ⟨rfl, _⟩ := name_iff.1 hname
      exact (accepts_conditionField _ _).2 hname

theorem accepts_literal : Accepts literal? Value := by
  intro t v
  constructor
  · intro h
    cases t with
    | quoted q =>
      cases h
      exact .quoted _
    | word w =>
      simp only [literal?, Option.ite_none_left_eq_some, Option.some.injEq] at h
      obtain ⟨hand, rfl⟩ := h
      exact .word (name_iff.2 ⟨rfl, by simpa using hand⟩)
    | comparison | leftParen | rightParen | comma => cases h
  · intro h
    cases h with
    | quoted => rfl
    | word hname =>
      obtain ⟨rfl, hand⟩ := name_iff.1 hname
      simp [literal?, hand]

theorem accepts_count : Accepts count? Count := by
  intro t n
  constructor
  · intro h
    cases t with
    | word w => exact .word h
    | quoted | comparison | leftParen | rightParen | comma => cases h
  · rintro ⟨h⟩
    exact h

/-! ## Items with commas between them -/

section Items

variable {α : Type} {accept : Token → Option α} {fault : Fault} {one : Token → α → Prop}

/-- No comma comes next, so a list of items ends here. -/
def NoComma (ts : List Lexeme) : Prop := ∀ t ∈ ts.head?, t.token ≠ .comma

theorem moreItems_stop {ts : List Lexeme} (h : NoComma ts) :
    Reader.moreItems accept fault ts = .ok ([], ts) := by
  match ts with
  | [] => rfl
  | [t] =>
    have hcomma : t.token ≠ .comma := h t rfl
    simp [Reader.moreItems, hcomma]
  | t :: u :: ts =>
    have hcomma : t.token ≠ .comma := h t rfl
    simp [Reader.moreItems, hcomma]

/-- Behind a comma the list of items starts anew. -/
theorem moreItems_comma {c : Lexeme} (h : c.token = .comma) (ts : List Lexeme) :
    Reader.moreItems accept fault (c :: ts) = Reader.items accept fault ts := by
  cases ts with
  | nil =>
    simp only [Reader.moreItems, h, if_true]
    rfl
  | cons t ts =>
    simp only [Reader.moreItems, h, if_true]
    cases ha : accept t.token with
    | none =>
      have hmiss : Reader.item accept fault (t :: ts) = .error ⟨fault, t :: ts⟩ := by
        simp only [Reader.item, ha]
      show _ = (Reader.item accept fault >>= _) (t :: ts)
      rw [Reader.bind_of_error hmiss]
    | some a =>
      show _ = (Reader.item accept fault >>= _) (t :: ts)
      rw [Reader.bind_of_ok (Reader.item_cons ha ts)]
      cases hmore : Reader.moreItems accept fault ts with
      | error found => rw [Reader.bind_of_error hmore]
      | ok read => rw [Reader.bind_of_ok hmore, Reader.pure_apply]

theorem sound_moreItems (haccept : Accepts accept one) {ts rest : List Lexeme}
    {as : List α} (h : Reader.moreItems accept fault ts = .ok (as, rest)) :
    ∃ used, ts = used ++ rest ∧ ∀ t a, one t a → Separated one (t :: tokens used) (a :: as) := by
  -- the item before the first comma was read elsewhere, so any item will do for it
  fun_induction Reader.moreItems accept fault ts generalizing as rest with
  | case1 =>
    cases h
    exact ⟨[], rfl, fun t a ha => .last ha⟩
  | case2 t hcomma => cases h
  | case3 t hcomma =>
    cases h
    exact ⟨[], rfl, fun t a ha => .last ha⟩
  | case4 c t ts hcomma b hb more left hmore ih =>
    cases h
    obtain ⟨used, rfl, hused⟩ := ih hmore
    refine ⟨c :: t :: used, rfl, fun u a ha => ?_⟩
    rw [tokens_cons, hcomma]
    exact .more ha (hused t.token b ((haccept _ _).1 hb))
  | case5 => cases h
  | case6 => cases h
  | case7 c t ts hcomma =>
    cases h
    exact ⟨[], rfl, fun t a ha => .last ha⟩

theorem sound_items (haccept : Accepts accept one) {ts rest : List Lexeme}
    {as : List α} (h : Reader.items accept fault ts = .ok (as, rest)) :
    ∃ used, ts = used ++ rest ∧ Separated one (tokens used) as := by
  obtain ⟨a, mid, hfirst, hnext⟩ := Reader.bind_eq_ok.1 h
  obtain ⟨more, left, hmore, hpure⟩ := Reader.bind_eq_ok.1 hnext
  cases hpure
  obtain ⟨t, rfl, ha⟩ := Reader.item_eq_ok.1 hfirst
  obtain ⟨used, rfl, hused⟩ := sound_moreItems haccept hmore
  exact ⟨t :: used, rfl, hused t.token a ((haccept _ _).1 ha)⟩

theorem complete_items (haccept : Accepts accept one) {used rest : List Lexeme}
    {as : List α} (h : Separated one (tokens used) as) (hrest : NoComma rest) :
    Reader.items accept fault (used ++ rest) = .ok (as, rest) := by
  generalize hus : tokens used = us at h
  induction h generalizing used with
  | last ha =>
    obtain ⟨l, ls, rfl, rfl, hls⟩ := tokens_eq_cons.1 hus
    obtain rfl := tokens_eq_nil.1 hls
    show (Reader.item accept fault >>= _) (l :: rest) = _
    rw [Reader.bind_of_ok (Reader.item_cons ((haccept _ _).2 ha) rest),
      Reader.bind_of_ok (moreItems_stop hrest)]
    rfl
  | more ha _ ih =>
    obtain ⟨l, c, ms, rfl, rfl, hc, hms⟩ := tokens_eq_cons_cons.1 hus
    have hmore := ih hms
    rw [← moreItems_comma hc] at hmore
    show (Reader.item accept fault >>= _) (l :: (c :: (ms ++ rest))) = _
    rw [Reader.bind_of_ok (Reader.item_cons ((haccept _ _).2 ha) _), Reader.bind_of_ok hmore]
    rfl

end Items

end EvidenceGraph.Query
