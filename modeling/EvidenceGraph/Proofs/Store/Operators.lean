/-
# `EvidenceGraph.Proofs.Store.Operators` — the operators of conditions.

Ten operators meet fields of seven kinds, or none, through three helpers. All of them rest on one comparison,
which is defined between two strings and between two numbers. The laws between the operators follow from it
first for a field and a literal and then for a node; and as a condition selects from an answer what meets it
(`nodes_selected`), they are laws of answers. Truth values are the exception: they can be equal without being
comparable, so that `=` holds of them where `<=` and `>=` do not.
-/
import EvidenceGraph.Proofs.Decimal.Integers
import EvidenceGraph.Proofs.Store.History
import EvidenceGraph.Proofs.Store.Sorting

namespace EvidenceGraph

open Query
open EvidenceGraph.Decimal (level)

/-! ## Comparing numbers -/

namespace Number

/-- Whether a number is a NaN. -/
def isNaN : Number → Bool
  | .int _ => false
  | .float x => x.isNaN

/-- Comparing values is comparing their levels, since both zeros are on one level. -/
theorem compareFloats_eq_some {x y : Float} {o : Ordering} :
    compareFloats x y = some o ↔ x.isNaN = false ∧ y.isNaN = false ∧ Ord.compare (level x) (level y) = o := by
  simp only [compareFloats, Decimal.lt_iff_level, Decimal.beq_iff_level]
  cases hx : x.isNaN with
  | true => simp
  | false =>
    cases hy : y.isNaN with
    | true => simp
    | false =>
      rcases lt_trichotomy (level x) (level y) with hlt | heq | hgt
      · simp [hlt, Int.compare_eq_lt.2 hlt]
      · simp [heq]
      · simp [hgt, hgt.not_gt, Int.compare_eq_gt.2 hgt]

theorem isSome_compareFloats_iff {x y : Float} :
    (compareFloats x y).isSome ↔ x.isNaN = false ∧ y.isNaN = false := by
  rw [Option.isSome_iff_exists]
  constructor
  · rintro ⟨o, ho⟩
    obtain ⟨hx, hy, _⟩ := compareFloats_eq_some.1 ho
    exact ⟨hx, hy⟩
  · rintro ⟨hx, hy⟩
    exact ⟨_, compareFloats_eq_some.2 ⟨hx, hy, rfl⟩⟩

theorem isNaN_toFloat (a : Number) : a.toFloat.isNaN = a.isNaN := by
  cases a with
  | int i => exact Decimal.isNaN_ofInt (Decimal.natAbs_toInt_lt i)
  | float x => rfl

/-- Two numbers have an order unless one of them is a NaN. -/
theorem isSome_compare_iff {a b : Number} : (a.compare b).isSome ↔ a.isNaN = false ∧ b.isNaN = false := by
  rw [← isNaN_toFloat a, ← isNaN_toFloat b]
  cases a with
  | float x => exact isSome_compareFloats_iff
  | int i =>
    cases b with
    | float y => exact isSome_compareFloats_iff
    | int j =>
      rw [isNaN_toFloat, isNaN_toFloat]
      exact iff_of_true rfl ⟨rfl, rfl⟩

end Number

/-! ## A field and a literal -/

namespace FieldValue

/-- A field and a literal are truth values both. -/
def AreBools (value : FieldValue) (literal : Literal) : Prop := ∃ a b, value = .bool a ∧ literal = .bool b

/-- A field and a literal are truth values both, or numbers, or strings. -/
def SameKind (value : FieldValue) (literal : Literal) : Prop :=
  value.AreBools literal ∨ value.number?.isSome ∧ literal.number?.isSome ∨
    ∃ a b, value = .text a ∧ literal = .text b

/-- A field and a literal are one truth value, or two numbers that are both not a NaN, or two strings. -/
inductive Comparable : FieldValue → Literal → Prop
  | bool (b : Bool) : Comparable (.bool b) (.bool b)
  | number {value : FieldValue} {literal : Literal} {a b : Number} : value.number? = some a →
      literal.number? = some b → a.isNaN = false → b.isNaN = false → Comparable value literal
  | text (a b : String) : Comparable (.text a) (.text b)

variable {value : FieldValue} {literal : Literal}

theorem compare_of_numbers {a b : Number} (ha : value.number? = some a) (hb : literal.number? = some b) :
    value.compare literal = a.compare b := by
  unfold compare
  rw [ha, hb]

theorem compare_of_areBools (h : value.AreBools literal) : value.compare literal = none := by
  obtain ⟨a, b, rfl, rfl⟩ := h
  rfl

theorem equals_of_not_areBools (h : ¬ value.AreBools literal) :
    value.equals literal = (value.compare literal == some .eq) := by
  unfold equals
  split
  · next a b => exact absurd ⟨a, b, rfl, rfl⟩ h
  · rfl

theorem equals_iff :
    value.equals literal ↔ value.compare literal = some .eq ∨ ∃ b, value = .bool b ∧ literal = .bool b := by
  by_cases h : value.AreBools literal
  · rw [compare_of_areBools h]
    obtain ⟨a, b, rfl, rfl⟩ := h
    constructor
    · intro hequal
      obtain rfl : a = b := beq_iff_eq.1 hequal
      exact .inr ⟨a, rfl, rfl⟩
    · rintro (hnone | ⟨c, ha, hb⟩)
      · cases hnone
      · cases ha
        cases hb
        exact beq_self_eq_true a
  · have hbools : ¬ ∃ b, value = .bool b ∧ literal = .bool b := fun ⟨b, hvalue, hliteral⟩ =>
      h ⟨b, b, hvalue, hliteral⟩
    rw [equals_of_not_areBools h, beq_iff_eq, or_iff_left hbools]

/-- A field and a literal have an order if both are numbers or both are strings, and no number is a NaN. -/
theorem comparable_iff :
    value.Comparable literal ↔
      (value.compare literal).isSome ∨ ∃ b, value = .bool b ∧ literal = .bool b := by
  constructor
  · intro h
    cases h with
    | bool b => exact .inr ⟨b, rfl, rfl⟩
    | number ha hb hanum hbnum =>
      rw [compare_of_numbers ha hb]
      exact .inl (Number.isSome_compare_iff.2 ⟨hanum, hbnum⟩)
    | text a b => exact .inl rfl
  · rintro (h | ⟨b, rfl, rfl⟩)
    · unfold compare at h
      split at h
      · next a b ha hb =>
        obtain ⟨hanum, hbnum⟩ := Number.isSome_compare_iff.1 h
        exact .number ha hb hanum hbnum
      · split at h
        · exact .text _ _
        · cases h
    · exact .bool b

theorem Comparable.sameKind (h : value.Comparable literal) : value.SameKind literal := by
  cases h with
  | bool b => exact .inl ⟨b, b, rfl, rfl⟩
  | number ha hb => exact .inr (.inl ⟨by rw [ha]; rfl, by rw [hb]; rfl⟩)
  | text a b => exact .inr (.inr ⟨a, b, rfl, rfl⟩)

/-- The symbol that asks for an order. -/
def symbolOf : Ordering → Comparison
  | .lt => .lt
  | .eq => .eq
  | .gt => .gt

theorem symbolOf_ne (o : Ordering) : symbolOf o ≠ .ne := by cases o <;> decide

theorem satisfies_symbolOf_iff {o : Ordering} :
    value.satisfies (symbolOf o) literal ↔
      value.compare literal = some o ∨ o = .eq ∧ ∃ b, value = .bool b ∧ literal = .bool b := by
  cases o with
  | lt =>
    show (value.compare literal == some .lt) = true ↔ _
    simp
  | eq =>
    show value.equals literal = true ↔ _
    simp [equals_iff]
  | gt =>
    show (value.compare literal == some .gt) = true ↔ _
    simp

/-- What is less, equal or greater is only one of these. -/
theorem symbolOf_unique {o p : Ordering} (ho : value.satisfies (symbolOf o) literal)
    (hp : value.satisfies (symbolOf p) literal) : o = p := by
  rcases satisfies_symbolOf_iff.1 ho with ho | ⟨rfl, b, rfl, rfl⟩
  · rcases satisfies_symbolOf_iff.1 hp with hp | ⟨rfl, b, rfl, rfl⟩
    · exact Option.some.inj (ho.symm.trans hp)
    · cases ho
  · rcases satisfies_symbolOf_iff.1 hp with hp | ⟨rfl, _⟩
    · cases hp
    · rfl

theorem exists_symbolOf_iff :
    (∃ o, value.satisfies (symbolOf o) literal) ↔ value.Comparable literal := by
  simp only [comparable_iff, satisfies_symbolOf_iff, Option.isSome_iff_exists, exists_or, exists_eq_left]

/-- The order that `<=` and `>=` ask for beside equality. -/
theorem compare_or_equal_iff {o : Ordering} :
    (value.compare literal == some o || value.compare literal == some .eq) ↔
      (value.satisfies (symbolOf o) literal ∨ value.satisfies .eq literal) ∧ ¬ value.AreBools literal := by
  show _ ↔ (_ ∨ value.equals literal = true) ∧ _
  rw [satisfies_symbolOf_iff, equals_iff]
  by_cases h : value.AreBools literal
  · simp [compare_of_areBools h, h]
  · have hbools : ¬ ∃ b, value = .bool b ∧ literal = .bool b := fun ⟨b, hvalue, hliteral⟩ =>
      h ⟨b, b, hvalue, hliteral⟩
    simp only [Bool.or_eq_true, beq_iff_eq, hbools, and_false, or_false, h, not_false_eq_true, and_true]

/-- To be one of some strings is to equal one of them. -/
theorem isOneOf_iff {items : List String} : value.isOneOf items ↔ ∃ t ∈ items, value.equals (.text t) := by
  cases value
  case text s =>
    have hequals (t : String) : (FieldValue.text s).equals (.text t) ↔ s = t := by
      rw [equals_iff]
      show some (Ord.compare s t) = some .eq ∨ _ ↔ _
      simp
    simp [isOneOf, hequals]
  -- nothing else equals a string
  all_goals exact iff_of_false Bool.false_ne_true fun ⟨_, _, h⟩ => Bool.false_ne_true h

end FieldValue

/-! ## A node and a condition -/

namespace Store

open FieldValue

variable {s : Store} {n : Node} {field : String} {literal : Literal}

theorem meets_compare_iff {symbol : Comparison} (h : symbol ≠ .ne) :
    s.meets n ⟨field, .compare symbol, literal⟩ ↔
      ∃ value, n.resolve field = some value ∧ value.satisfies symbol literal := by
  show FieldValue.meets (n.resolve field) (.compare symbol) literal = true ↔ _
  cases n.resolve field with
  | none => simp [FieldValue.meets, h]
  | some value => simp [FieldValue.meets]

/-- An absent field is unequal to everything. -/
theorem meets_ne (s : Store) (n : Node) (field : String) (literal : Literal) :
    s.meets n ⟨field, .compare .ne, literal⟩ = !s.meets n ⟨field, .compare .eq, literal⟩ := by
  show FieldValue.meets (n.resolve field) _ literal = !FieldValue.meets (n.resolve field) _ literal
  cases n.resolve field with
  | none => rfl
  | some value => rfl

theorem meets_isIn_iff {items : List String} :
    s.meets n ⟨field, .isIn, .list items⟩ ↔ ∃ t ∈ items, s.meets n ⟨field, .compare .eq, .text t⟩ := by
  show FieldValue.meets (n.resolve field) .isIn (.list items) = true ↔
    ∃ t ∈ items, FieldValue.meets (n.resolve field) (.compare .eq) (.text t) = true
  cases n.resolve field with
  | none => simp [FieldValue.meets]
  | some value => exact FieldValue.isOneOf_iff

/-! ## Answers with one more condition -/

/-- The nodes of an answer that one more condition selects. -/
def selected (s : Store) (q : Query) (c : Condition) : List Node :=
  (s.execute { q.unpaged with conditions := q.conditions ++ [c] }).nodes

theorem nodes_selected (s : Store) (q : Query) (c : Condition) :
    s.selected q c = (s.execute q.unpaged).nodes.filter (s.meets · c) := by
  show ordered q (s.matching (q.conditions ++ [c])) = (ordered q (s.matching q.conditions)).filter _
  rw [matching_insert, List.append_nil, ordered_filter]

theorem mem_selected_iff {q : Query} {c : Condition} :
    n ∈ s.selected q c ↔ n ∈ (s.execute q.unpaged).nodes ∧ s.meets n c := by
  rw [nodes_selected, List.mem_filter]

theorem mem_selected_compare_iff {q : Query} {symbol : Comparison} (h : symbol ≠ .ne) :
    n ∈ s.selected q ⟨field, .compare symbol, literal⟩ ↔
      n ∈ (s.execute q.unpaged).nodes ∧
        ∃ value, n.resolve field = some value ∧ value.satisfies symbol literal := by
  rw [mem_selected_iff, meets_compare_iff h]

/-- A node in two parts has one order only. -/
theorem disjoint_selected (s : Store) (q : Query) (field : String) (literal : Literal) {o p : Ordering}
    (h : o ≠ p) :
    (s.selected q ⟨field, .compare (symbolOf o), literal⟩).Disjoint
      (s.selected q ⟨field, .compare (symbolOf p), literal⟩) := by
  intro n ho hp
  obtain ⟨_, value, hvalue, ho⟩ := (mem_selected_compare_iff (symbolOf_ne o)).1 ho
  obtain ⟨_, again, hagain, hp⟩ := (mem_selected_compare_iff (symbolOf_ne p)).1 hp
  obtain rfl : value = again := Option.some.inj (hvalue.symm.trans hagain)
  exact h (symbolOf_unique ho hp)

/-- The three parts together are the nodes whose field is comparable with the literal. -/
theorem exists_mem_selected_iff {q : Query} (h : n ∈ (s.execute q.unpaged).nodes) :
    (∃ o, n ∈ s.selected q ⟨field, .compare (symbolOf o), literal⟩) ↔
      ∃ value, n.resolve field = some value ∧ value.Comparable literal := by
  simp only [mem_selected_compare_iff (symbolOf_ne _), h, true_and, ← exists_symbolOf_iff]
  constructor
  · rintro ⟨o, value, hvalue, ho⟩
    exact ⟨value, hvalue, o, ho⟩
  · rintro ⟨value, hvalue, o, ho⟩
    exact ⟨o, value, hvalue, ho⟩

/-- A symbol for an order or equality selects two of the three parts, truth values apart. -/
theorem mem_selected_either_iff {q : Query} (symbol : Comparison) (o : Ordering) (hsymbol : symbol ≠ .ne)
    (h : ∀ value : FieldValue, value.satisfies symbol literal =
      (value.compare literal == some o || value.compare literal == some .eq)) :
    n ∈ s.selected q ⟨field, .compare symbol, literal⟩ ↔
      (n ∈ s.selected q ⟨field, .compare (symbolOf o), literal⟩ ∨
        n ∈ s.selected q ⟨field, .compare .eq, literal⟩) ∧
      ¬ ∃ value, n.resolve field = some value ∧ value.AreBools literal := by
  rw [mem_selected_compare_iff hsymbol, mem_selected_compare_iff (symbolOf_ne o),
    mem_selected_compare_iff (by decide)]
  cases n.resolve field with
  | none => simp
  | some value =>
    simp only [Option.some.injEq, exists_eq_left', h, compare_or_equal_iff]
    rw [← and_or_left, and_assoc]

/-- What `!=` selects is the rest of what `=` selects. -/
theorem selected_ne (s : Store) (q : Query) (field : String) (literal : Literal) :
    s.selected q ⟨field, .compare .ne, literal⟩ =
      (s.execute q.unpaged).nodes.filter fun n => !s.meets n ⟨field, .compare .eq, literal⟩ := by
  rw [nodes_selected]
  exact List.filter_congr fun n _ => meets_ne s n field literal

theorem mem_selected_isIn_iff {q : Query} {items : List String} :
    n ∈ s.selected q ⟨field, .isIn, .list items⟩ ↔
      ∃ t ∈ items, n ∈ s.selected q ⟨field, .compare .eq, .text t⟩ := by
  simp only [mem_selected_iff, meets_isIn_iff]
  constructor
  · rintro ⟨hn, t, ht, heq⟩
    exact ⟨t, ht, hn, heq⟩
  · rintro ⟨t, ht, hn, heq⟩
    exact ⟨hn, t, ht, heq⟩

end Store

/-- A field that is no match for a literal: there is none, or it is null, or of another kind. -/
def Node.Mismatched (n : Node) (field : String) (literal : Literal) : Prop :=
  n.resolve field = none ∨
    Node.attributes.lookup field = none ∧ n.content.get? field = some .null ∨
    ∃ value, n.resolve field = some value ∧ ¬ value.SameKind literal

namespace Store

theorem meets_ne_of_mismatched (s : Store) {n : Node} {field : String} {literal : Literal}
    (h : n.Mismatched field literal) : s.meets n ⟨field, .compare .ne, literal⟩ = true := by
  rw [meets_ne, Bool.not_eq_true', Bool.eq_false_iff, Ne, meets_compare_iff (by decide)]
  rintro ⟨value, hvalue, heq⟩
  rcases h with habsent | ⟨hfield, hnull⟩ | ⟨other, hother, hkind⟩
  · rw [habsent] at hvalue
    cases hvalue
  · rw [Node.resolve, hfield, hnull] at hvalue
    cases hvalue
  · obtain rfl : other = value := Option.some.inj (hother.symm.trans hvalue)
    exact hkind (FieldValue.exists_symbolOf_iff.1 ⟨.eq, heq⟩).sameKind

/-- Whatever the conditions and the order of a query are, one more condition on a field and a literal splits
its answer. By `=` and `!=` into two parts, all that cannot match being in the second one. By `<`, `=` and `>`
into three and a rest: no two of the three have a node in common, and a node is in one of them if its field and
the literal are numbers other than NaN, or strings, or the same truth value. What `<=` and `>=` select are two of
the three together, except for truth values against truth values; and what `IN` selects are the nodes that `=`
selects with an item of the list. -/
theorem operators_partition_answer (s : Store) (q : Query) (field : String) (v : Literal) :
    let answer := (s.execute q.unpaged).nodes
    let under (symbol : Comparison) := s.selected q ⟨field, .compare symbol, v⟩
    ((under .eq).Disjoint (under .ne) ∧ (under .eq ++ under .ne).Perm answer ∧
        ∀ n ∈ answer, n.Mismatched field v → n ∈ under .ne) ∧
      ((under .lt).Disjoint (under .eq) ∧ (under .eq).Disjoint (under .gt) ∧ (under .lt).Disjoint (under .gt) ∧
        ∀ n ∈ answer, n ∈ under .lt ∨ n ∈ under .eq ∨ n ∈ under .gt ↔
          ∃ value, n.resolve field = some value ∧ value.Comparable v) ∧
      (∀ n, n ∈ under .le ↔
        (n ∈ under .lt ∨ n ∈ under .eq) ∧ ¬ ∃ value, n.resolve field = some value ∧ value.AreBools v) ∧
      (∀ n, n ∈ under .ge ↔
        (n ∈ under .gt ∨ n ∈ under .eq) ∧ ¬ ∃ value, n.resolve field = some value ∧ value.AreBools v) ∧
      ∀ items n, n ∈ s.selected q ⟨field, .isIn, .list items⟩ ↔
        ∃ t ∈ items, n ∈ s.selected q ⟨field, .compare .eq, .text t⟩ := by
  intro answer under
  have hne : under .ne = answer.filter fun n => !s.meets n ⟨field, .compare .eq, v⟩ := selected_ne s q field v
  refine ⟨⟨?_, ?_, ?_⟩, ⟨?_, ?_, ?_, ?_⟩, ?_, ?_, ?_⟩
  · intro n heq hrest
    rw [hne, List.mem_filter, (mem_selected_iff.1 heq).2] at hrest
    cases hrest.2
  · have heq : under .eq = answer.filter (s.meets · ⟨field, .compare .eq, v⟩) := nodes_selected s q _
    rw [heq, hne]
    exact List.filter_append_perm _ answer
  · intro n hn hmismatched
    exact mem_selected_iff.2 ⟨hn, meets_ne_of_mismatched s hmismatched⟩
  · exact disjoint_selected s q field v (by decide : Ordering.lt ≠ .eq)
  · exact disjoint_selected s q field v (by decide : Ordering.eq ≠ .gt)
  · exact disjoint_selected s q field v (by decide : Ordering.lt ≠ .gt)
  · intro n hn
    rw [← exists_mem_selected_iff hn]
    constructor
    · rintro (hlt | heq | hgt)
      · exact ⟨.lt, hlt⟩
      · exact ⟨.eq, heq⟩
      · exact ⟨.gt, hgt⟩
    · rintro ⟨o, ho⟩
      cases o with
      | lt => exact .inl ho
      | eq => exact .inr (.inl ho)
      | gt => exact .inr (.inr ho)
  · intro n
    exact mem_selected_either_iff .le .lt (by decide) fun _ => rfl
  · intro n
    exact mem_selected_either_iff .ge .gt (by decide) fun _ => rfl
  · intro items n
    exact mem_selected_isIn_iff

/-- A truth value, a number and no field at all, against a truth value. -/
theorem operators_partition_answer_mixed :
    let x : Node := { id := "x", claimType := "claim", content := .ofList [("k", .bool true)], confidence := 1 }
    let y : Node := { id := "y", claimType := "claim", content := .ofList [("k", .int 1)], confidence := 1 }
    let z : Node := { id := "z", claimType := "claim", confidence := 1 }
    let s : Store := ofNodes [x, y, z]
    let under (symbol : Comparison) := s.selected {} ⟨"k", .compare symbol, .bool true⟩
    x ∈ under .eq ∧ x ∉ under .le ∧ y.Mismatched "k" (.bool true) ∧ y ∈ under .ne ∧
      z.Mismatched "k" (.bool true) ∧ z ∈ under .ne := by
  intro x y z s under
  have hanswer : (s.execute ({} : Query).unpaged).nodes = [x, y, z] := by
    show s.matching [] = [x, y, z]
    rw [matching, toList_ofNodes]
    rfl
  have hx : x ∈ under .eq := by
    rw [mem_selected_iff, hanswer]
    exact ⟨List.mem_cons_self, rfl⟩
  have hy : y.Mismatched "k" (.bool true) := by
    refine .inr (.inr ⟨.int 1, rfl, ?_⟩)
    rintro (⟨a, b, hbool, _⟩ | ⟨_, hnumber⟩ | ⟨a, b, htext, _⟩)
    · cases hbool
    · cases hnumber
    · cases htext
  have hz : z.Mismatched "k" (.bool true) := .inl rfl
  obtain ⟨⟨_, _, hrest⟩, _, hle, _⟩ := operators_partition_answer s {} "k" (.bool true)
  refine ⟨hx, ?_, hy, hrest y (by simp [hanswer]) hy, hz, hrest z (by simp [hanswer]) hz⟩
  rw [hle]
  exact fun hsome => hsome.2 ⟨.bool true, rfl, true, true, rfl, rfl⟩

end Store

end EvidenceGraph
