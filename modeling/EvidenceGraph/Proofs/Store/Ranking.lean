/-
# `EvidenceGraph.Proofs.Store.Ranking` — sorted numbers against compared numbers.

Sorting takes the binary64 values of all numbers; comparing takes integers as they are. A smaller number never has
a greater value (`totalOrder_ofInt_le`, and the zeros are equal for the comparison), so the two only part where
integers become one value: there the one that arrived first stays before the other, be it the smaller one or not.
That needs integers of `2 ^ 53` or more.
-/
import EvidenceGraph.Proofs.Store.Operators

namespace EvidenceGraph

open Query
open EvidenceGraph.Decimal (level natAbs_toInt_lt)
open EvidenceGraph.SortKey (totalOrder)

/-! ## Numbers -/

namespace Number

/-- The literal for a number. -/
def literal : Number → Literal
  | .int i => .int i
  | .float x => .float x

/-- Two integers, the first of which is less, that are one binary64 value. -/
def MergedBelow (a b : Number) : Prop :=
  ∃ i j : Int64, a = .int i ∧ b = .int j ∧ i.toInt < j.toInt ∧ Float.ofInt i.toInt = Float.ofInt j.toInt

theorem number?_literal (a : Number) : a.literal.number? = some a := by
  cases a <;> rfl

theorem compareFloats_swap (x y : Float) : compareFloats y x = (compareFloats x y).map Ordering.swap := by
  apply Option.ext
  intro o
  simp only [Option.map_eq_some_iff, compareFloats_eq_some]
  constructor
  · rintro ⟨hy, hx, rfl⟩
    exact ⟨_, ⟨hx, hy, rfl⟩, Int.compare_swap _ _⟩
  · rintro ⟨_, ⟨hx, hy, rfl⟩, rfl⟩
    exact ⟨hy, hx, (Int.compare_swap _ _).symm⟩

theorem compare_swap (a b : Number) : b.compare a = (a.compare b).map Ordering.swap := by
  cases a with
  | int i =>
    cases b with
    | int j => exact congrArg some (Int.compare_swap _ _).symm
    | float y => exact compareFloats_swap _ _
  | float x =>
    cases b with
    | int j => exact compareFloats_swap _ _
    | float y => exact compareFloats_swap _ _

theorem compare_eq_gt_iff {a b : Number} : b.compare a = some .gt ↔ a.compare b = some .lt := by
  rw [compare_swap a b, Option.map_eq_some_iff]
  constructor
  · rintro ⟨o, ho, hgt⟩
    rw [ho, Ordering.swap_eq_gt.1 hgt]
  · intro hlt
    exact ⟨.lt, hlt, rfl⟩

/-- An integer is not sorted behind a greater one. -/
theorem totalOrder_ofInt_le {i j : Int} (h : i ≤ j) (hi : i.natAbs < 2 ^ 64) (hj : j.natAbs < 2 ^ 64) :
    totalOrder (Float.ofInt i) ≤ totalOrder (Float.ofInt j) := by
  rcases h.eq_or_lt with rfl | hlt
  · rfl
  rw [SortKey.totalOrder_le_iff_level]
  rcases (Decimal.level_ofInt_le h hi hj).lt_or_eq with hless | hsame
  · exact .inl hless
  · -- on one level the greater one is not negative alone
    refine .inr ⟨hsame, fun hnegative => ?_⟩
    by_contra hpositive
    have hjsign := Int.sign_nonpos_iff.2 (SortKey.level_nonpos hnegative)
    have hisign := Int.sign_nonneg_iff.2 (SortKey.level_nonneg (Bool.eq_false_iff.2 hpositive))
    rw [Decimal.sign_level_ofInt hj, Int.sign_nonpos_iff] at hjsign
    rw [Decimal.sign_level_ofInt hi, Int.sign_nonneg_iff] at hisign
    omega

/-- What is sorted behind a number is less than it only if both are integers that become one value. -/
theorem compare_eq_lt_iff_of_totalOrder_le {a b : Number} (h : totalOrder a.toFloat ≤ totalOrder b.toFloat) :
    b.compare a = some .lt ↔ b.MergedBelow a := by
  have hfloats : compareFloats b.toFloat a.toFloat ≠ some .lt := by
    rw [Ne, compareFloats_eq_some, Int.compare_eq_lt]
    rintro ⟨_, _, hlt⟩
    rw [SortKey.totalOrder_le_iff_level] at h
    omega
  cases a with
  | float x =>
    have hcompare : b.compare (.float x) = compareFloats b.toFloat x := by cases b <;> rfl
    rw [hcompare]
    refine iff_of_false hfloats ?_
    rintro ⟨_, _, _, hint, _⟩
    cases hint
  | int i =>
    cases b with
    | float y =>
      refine iff_of_false hfloats ?_
      rintro ⟨_, _, hint, _⟩
      cases hint
    | int j =>
      show some (Ord.compare j.toInt i.toInt) = some .lt ↔ _
      rw [Option.some.injEq, Int.compare_eq_lt]
      constructor
      · intro hlt
        have hback := totalOrder_ofInt_le hlt.le (natAbs_toInt_lt j) (natAbs_toInt_lt i)
        exact ⟨j, i, rfl, rfl, hlt, SortKey.totalOrder_injective (le_antisymm hback h)⟩
      · rintro ⟨_, _, ⟨⟩, ⟨⟩, hlt, _⟩
        exact hlt

theorem MergedBelow.le_natAbs {i j : Int64} (h : (Number.int i).MergedBelow (.int j)) :
    2 ^ 53 ≤ i.toInt.natAbs ∧ 2 ^ 53 ≤ j.toInt.natAbs := by
  obtain ⟨_, _, ⟨⟩, ⟨⟩, hlt, hsame⟩ := h
  exact Decimal.le_natAbs_of_level_eq hlt.ne (natAbs_toInt_lt i) (natAbs_toInt_lt j) (congrArg level hsame)

end Number

/-- The number that a node has in a field. -/
def Node.numberAt (field : String) (n : Node) : Option Number := (n.resolve field).bind FieldValue.number?

/-- The comparison that fails with the value of a node for all nodes behind it, if an order is kept. -/
def Query.Order.passed : Order → Comparison
  | .ascending => .lt
  | .descending => .gt

/-- One number comes behind another in an order, and yet should not. -/
def Query.Order.Swaps (order : Order) (a b : Number) : Prop :=
  match order with
  | .ascending => b.MergedBelow a
  | .descending => a.MergedBelow b

namespace Store

theorem sortKey_of_number {n : Node} {field : String} {a : Number} (h : n.numberAt field = some a) :
    sortKey field n = .number a.toFloat := by
  obtain ⟨value, hvalue, hnumber⟩ := Option.bind_eq_some_iff.1 h
  unfold sortKey
  rw [hvalue]
  cases value <;> cases hnumber <;> rfl

/-- For a number the symbol of an order asks for the order of two numbers. -/
theorem meets_number_iff (s : Store) {n : Node} {field : String} {a b : Number} {o : Ordering}
    (h : n.numberAt field = some b) :
    s.meets n ⟨field, .compare (FieldValue.symbolOf o), a.literal⟩ ↔ b.compare a = some o := by
  obtain ⟨value, hvalue, hnumber⟩ := Option.bind_eq_some_iff.1 h
  have hbools : ¬ (o = .eq ∧ ∃ c, value = .bool c ∧ a.literal = .bool c) := by
    rintro ⟨_, c, rfl, _⟩
    cases hnumber
  rw [meets_compare_iff (FieldValue.symbolOf_ne o), hvalue]
  simp only [Option.some.injEq, exists_eq_left', FieldValue.satisfies_symbolOf_iff, or_iff_left hbools,
    FieldValue.compare_of_numbers hnumber a.number?_literal]

theorem meets_passed_iff (s : Store) (order : Order) {x y : Node} {field : String} {a b : Number}
    (hkeys : SortKey.InOrder order (sortKey field x) (sortKey field y)) (hx : x.numberAt field = some a)
    (hy : y.numberAt field = some b) :
    s.meets y ⟨field, .compare order.passed, a.literal⟩ ↔ order.Swaps a b := by
  rw [sortKey_of_number hx, sortKey_of_number hy] at hkeys
  cases order with
  | ascending =>
    cases hkeys with
    | number hle =>
      show s.meets y ⟨field, .compare (FieldValue.symbolOf .lt), a.literal⟩ ↔ b.MergedBelow a
      rw [meets_number_iff s hy, Number.compare_eq_lt_iff_of_totalOrder_le (SortKey.totalOrder_le_iff.2 hle)]
  | descending =>
    cases hkeys with
    | number hle =>
      show s.meets y ⟨field, .compare (FieldValue.symbolOf .gt), a.literal⟩ ↔ a.MergedBelow b
      rw [meets_number_iff s hy, Number.compare_eq_gt_iff,
        Number.compare_eq_lt_iff_of_totalOrder_le (SortKey.totalOrder_le_iff.2 hle)]

/-- In an answer with an order a node that stands behind another one is not less than it as a condition
compares them, or not greater if the order is decreasing, unless both have integers in the field that are one
binary64 value: those, which are all beyond `2 ^ 53`, stay as they arrived. -/
theorem sorted_numbers_compare (s : Store) (q : Query) (field : String) :
    let answer := s.execute { q.unpaged with orderBy := some field }
    (answer.nodes.Pairwise fun x y => ∀ a b, x.numberAt field = some a → y.numberAt field = some b →
        (s.meets y ⟨field, .compare q.order.passed, a.literal⟩ ↔ q.order.Swaps a b)) ∧
      ∀ i j : Int64, (Number.int i).MergedBelow (.int j) →
        2 ^ 53 ≤ i.toInt.natAbs ∧ 2 ^ 53 ≤ j.toInt.natAbs := by
  intro answer
  have hsorted := (stablySorted_sortBy field q.order (s.matching q.conditions)).pairwise
  refine ⟨hsorted.imp ?_, fun i j => Number.MergedBelow.le_natAbs⟩
  intro x y hkeys a b hx hy
  exact meets_passed_iff s q.order hkeys hx hy

/-- Nodes that are in order already and meet the conditions stay as they are. -/
theorem nodes_of_inOrder {s : Store} {q : Query} {field : String} {found : List Node}
    (hfound : s.matching q.conditions = found)
    (h : found.Pairwise fun m n => SortKey.InOrder q.order (sortKey field m) (sortKey field n)) :
    (s.execute { q.unpaged with orderBy := some field }).nodes = found := by
  show sortBy field q.order (s.matching q.conditions) = found
  rw [hfound]
  exact (stablySorted_sortBy field q.order found).eq_self SortKey.InOrder.antisymm h

/-- An integer before a binary64 value that is greater. -/
theorem sorted_numbers_compare_mixed :
    let x : Node := { id := "x", claimType := "claim", content := .ofList [("k", .int 2)], confidence := 1 }
    let y : Node := { id := "y", claimType := "claim", content := .ofList [("k", .float 2.5)], confidence := 1 }
    let s : Store := ofNodes [x, y]
    x.numberAt "k" = some (.int 2) ∧ y.numberAt "k" = some (.float 2.5) ∧
      ¬ s.meets y ⟨"k", .compare .lt, .int 2⟩ := by
  intro x y s
  have hx : x.numberAt "k" = some (.int 2) := rfl
  have hy : y.numberAt "k" = some (.float 2.5) := rfl
  have hfound : s.matching [] = [x, y] := by
    rw [matching, toList_ofNodes]
    rfl
  have hnodes : (s.execute { ({} : Query).unpaged with orderBy := some "k" }).nodes = [x, y] := by
    refine nodes_of_inOrder (q := {}) hfound (List.pairwise_pair.2 ?_)
    rw [sortKey_of_number hx, sortKey_of_number hy]
    exact .number (SortKey.totalOrder_le_iff.1 (by decide +kernel))
  have hpair := (sorted_numbers_compare s {} "k").1
  rw [hnodes, List.pairwise_pair] at hpair
  refine ⟨hx, hy, fun hless => ?_⟩
  obtain ⟨_, _, hint, _⟩ := (hpair _ _ hx hy).1 hless
  cases hint

/-- The integers `2 ^ 53 + 1` and `2 ^ 53` stay in this order, and yet the second one is less. -/
theorem sorted_numbers_pass_merged :
    let x : Node :=
      { id := "x", claimType := "claim", content := .ofList [("k", .int 9007199254740993)], confidence := 1 }
    let y : Node :=
      { id := "y", claimType := "claim", content := .ofList [("k", .int 9007199254740992)], confidence := 1 }
    let s : Store := ofNodes [x, y]
    (s.execute { orderBy := some "k" }).nodes = [x, y] ∧ x.numberAt "k" = some (.int 9007199254740993) ∧
      s.meets y ⟨"k", .compare .lt, .int 9007199254740993⟩ := by
  intro x y s
  have hx : x.numberAt "k" = some (.int 9007199254740993) := rfl
  have hy : y.numberAt "k" = some (.int 9007199254740992) := rfl
  have hfound : s.matching [] = [x, y] := by
    rw [matching, toList_ofNodes]
    rfl
  refine ⟨nodes_of_inOrder (q := {}) hfound (List.pairwise_pair.2 ?_), hx, rfl⟩
  rw [sortKey_of_number hx, sortKey_of_number hy]
  exact .number (SortKey.totalOrder_le_iff.1 (by decide +kernel))

end Store

end EvidenceGraph
