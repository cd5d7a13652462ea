/-
# `EvidenceGraph.Proofs.Store.Projecting` — what the rows of an answer hold.

A row has the selected fields and no others. Attributes are shown as in the JSON form of the node, and members of the
content as they are stored (`rows_of_selected`), with one exception: a content value passes through the value of
a field, which has integers of sixty-four bits with a sign, so an integer beyond these is shown as the nearest
binary64 value (`row_rounds_stored`).
-/
import EvidenceGraph.Proofs.Decimal.Numerals
import EvidenceGraph.Proofs.Json.Members
import EvidenceGraph.Store.Projection
import Mathlib.Data.List.Forall2

namespace EvidenceGraph

open EvidenceGraph.Json

/-! ## Values -/

/-- The integers of sixty-four bits with a sign. -/
def InRange (i : Int) : Prop := Int64.minValue.toInt ≤ i ∧ i ≤ Int64.maxValue.toInt

instance (i : Int) : Decidable (InRange i) := inferInstanceAs (Decidable (_ ∧ _))

/-- A value of the content in a projection. -/
def FieldValue.shown (j : Json) : Json := ((ofJson? j).map toJson).getD .null

theorem FieldValue.shown_of_inRange {j : Json} (h : ∀ i, j = .int i → InRange i) : shown j = j := by
  cases j with
  | int i =>
    have hrange : Decimal.int64? i = some (Int64.ofInt i) := if_pos (h i rfl)
    have hvalue := Decimal.toInt_of_int64?_eq_some hrange
    simp [shown, ofJson?, hrange, toJson, hvalue]
  | _ => rfl

theorem FieldValue.shown_of_not_inRange {i : Int} (h : ¬ InRange i) : shown (.int i) = .float (Float.ofInt i) := by
  have hrange : Decimal.int64? i = none := if_neg h
  simp [shown, ofJson?, hrange, toJson]

/-! ## Fields -/

/-- A value that an object has under a key. -/
def Json.Holds (j : Json) (key : String) (value : Json) : Prop :=
  ∃ members, j = .obj members ∧ findMember? key members = some value

namespace Node

/-- The names of the attributes of a node. -/
def attributeNames : List String := attributes.map Prod.fst

/-- Each attribute is found by its name, and is a field of the JSON form of a node. -/
theorem resolve_attribute (n : Node) {a : String × (Node → FieldValue)} (ha : a ∈ attributes) :
    n.resolve a.1 = some (a.2 n) ∧ Holds n.toJson a.1 (a.2 n).toJson := by
  simp only [attributes, List.mem_cons, List.not_mem_nil, or_false] at ha
  rcases ha with rfl | rfl | rfl | rfl | rfl | rfl | rfl | rfl | rfl
  all_goals exact ⟨rfl, _, rfl, rfl⟩

theorem resolve_content {n : Node} {f : String} (hf : f ∉ attributeNames) :
    n.resolve f = (n.content.get? f).bind FieldValue.ofJson? := by
  have hnone : attributes.lookup f = none := by
    refine List.lookup_eq_none_iff.2 fun a ha => bne_iff_ne.2 ?_
    rintro rfl
    exact hf (List.mem_map_of_mem ha)
  rw [resolve, hnone]

end Node

namespace Answer

/-! ## Rows -/

/-- A row for a node: an object with the selected fields, each once. -/
structure RowOf (fields : List String) (n : Node) (row : Json) : Prop where
  /-- The row has the selected fields and no others. -/
  keys : ∃ o : Object, row = o.toJson ∧ ∀ f, f ∈ o.members.map Prod.fst ↔ f ∈ fields
  /-- Attributes are as in the node. -/
  named : ∀ f ∈ fields, f ∈ Node.attributeNames → ∃ j, Holds n.toJson f j ∧ Holds row f j
  /-- Other fields are as in the content, but for integers that are out of range. -/
  stored : ∀ f ∈ fields, f ∉ Node.attributeNames → ∀ j, n.content.get? f = some j → (∀ i, j = .int i → InRange i) →
    Holds row f j
  /-- Integers that are out of range are rounded. -/
  rounded : ∀ f ∈ fields, f ∉ Node.attributeNames → ∀ i, n.content.get? f = some (.int i) → ¬ InRange i →
    Holds row f (.float (Float.ofInt i))
  /-- What the content does not have is null. -/
  absent : ∀ f ∈ fields, f ∉ Node.attributeNames → n.content.get? f = none → Holds row f .null

theorem rowOf_project (n : Node) (fields : List String) : RowOf fields n (n.project fields) := by
  have hget (f : String) (hf : f ∈ fields) :
      Holds (n.project fields) f (((n.resolve f).map FieldValue.toJson).getD .null) :=
    ⟨_, rfl, (Object.get?_ofList_map _ fields f).trans (if_pos hf)⟩
  have hcontent (f : String) (hf : f ∈ fields) (hname : f ∉ Node.attributeNames) :
      Holds (n.project fields) f (((n.content.get? f).map FieldValue.shown).getD .null) := by
    have hrow := hget f hf
    rw [Node.resolve_content hname] at hrow
    cases hstored : n.content.get? f with
    | none => rwa [hstored] at hrow
    | some j => rwa [hstored] at hrow
  refine ⟨⟨_, rfl, fun f => ?_⟩, fun f hf hname => ?_, fun f hf hname j hj hrange => ?_,
    fun f hf hname i hi hrange => ?_, fun f hf hname hnone => ?_⟩
  · have hvalue := Object.get?_ofList_map (fun f => ((n.resolve f).map FieldValue.toJson).getD .null) fields f
    rw [Object.get?] at hvalue
    rw [mem_keys_iff, hvalue]
    by_cases hf : f ∈ fields <;> simp [hf]
  · obtain ⟨a, ha, rfl⟩ := List.mem_map.1 hname
    obtain ⟨hresolve, hfield⟩ := n.resolve_attribute ha
    have hrow := hget a.1 hf
    rw [hresolve] at hrow
    exact ⟨_, hfield, hrow⟩
  · have hrow := hcontent f hf hname
    rwa [hj, Option.map_some, Option.getD_some, FieldValue.shown_of_inRange hrange] at hrow
  · have hrow := hcontent f hf hname
    rwa [hi, Option.map_some, Option.getD_some, FieldValue.shown_of_not_inRange hrange] at hrow
  · have hrow := hcontent f hf hname
    rwa [hnone] at hrow

/-- If fields are selected and not all of them, an answer has a row for each node, in their order. -/
theorem rows_of_selected {a : Answer} (hne : a.select ≠ []) (hstar : "*" ∉ a.select) :
    List.Forall₂ (RowOf a.select) a.nodes a.rows := by
  have hselected : Query.selectsAll a.select = false := by
    simp [Query.selectsAll, hne, hstar]
  rw [rows]
  simp only [hselected]
  rw [List.forall₂_map_right_iff, List.forall₂_same]
  exact fun n _ => rowOf_project n a.select

/-- A node with two integers in its content, and an answer that selects an attribute, both integers and a field
that is absent. -/
theorem rows_of_selected_mixed :
    let content := (Object.empty.insert "big" (.int 9223372036854775808)).insert "small" (.int 5)
    let n : Node := { id := "x", claimType := "claim", content, confidence := 1 }
    let a : Answer :=
      { nodes := [n], total := 1, query := "", select := ["node_id", "small", "big", "none"], diagnostics := [] }
    ∃ row, a.rows = [row] ∧ Holds row "node_id" (.str "x") ∧ Holds row "small" (.int 5) ∧
      Holds row "big" (.float (Float.ofInt 9223372036854775808)) ∧ Holds row "none" .null := by
  intro content n a
  have hrows : List.Forall₂ (RowOf a.select) [n] a.rows := rows_of_selected (a := a) (by decide) (by decide)
  obtain ⟨row, rest, hrow, hrest, heq⟩ := List.forall₂_cons_left_iff.1 hrows
  cases hrest
  obtain ⟨j, ⟨_, hmembers, hvalue⟩, hid⟩ := hrow.named "node_id" (by decide) (by decide)
  cases hmembers
  cases hvalue
  have hsmall := hrow.stored "small" (by decide) (by decide) (.int 5) rfl (by rintro i ⟨⟩; decide)
  have hbig := hrow.rounded "big" (by decide) (by decide) 9223372036854775808 rfl (by decide)
  exact ⟨row, heq, hid, hsmall, hbig, hrow.absent "none" (by decide) (by decide) rfl⟩

/-- The greatest integer that the content of a node can have is stored as it is, and shown as another number. -/
theorem row_rounds_stored :
    ∃ n : Node, n.content.get? "k" = some (.int 18446744073709551615) ∧
      Answer.rows { nodes := [n], total := 1, query := "SELECT k FROM evidence", select := ["k"], diagnostics := [] } =
        [.obj [("k", .float (Float.ofInt 18446744073709551615))]] ∧
      Json.float (Float.ofInt 18446744073709551615) ≠ .int 18446744073709551615 :=
  ⟨{ id := "x", claimType := "claim", confidence := 1,
     content := Object.empty.insert "k" (.int 18446744073709551615) }, rfl, rfl, nofun⟩

end Answer

end EvidenceGraph
