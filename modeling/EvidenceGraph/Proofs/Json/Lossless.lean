/-
# `EvidenceGraph.Proofs.Json.Lossless` — queries and nodes read back from JSON.

A literal is written without a mark of its kind, so it is read back as it was only because the kinds have different
forms: an integer has no fraction and a binary64 value always has one, and a list is an array even if it is empty.
Queries and nodes are read back as they were exactly if they hold no infinity and no NaN, for which JSON has no form
(`encodings_lossless`).
-/
import EvidenceGraph.Node.Encoding
import EvidenceGraph.Proofs.Decimal.Numerals
import EvidenceGraph.Proofs.Json.Shown
import EvidenceGraph.Query.Encoding

namespace EvidenceGraph

open EvidenceGraph.Json

/-! ## Fields -/

theorem count?_toNat (n : UInt64) : count? (shown (.int n.toNat)) = some n := by
  show (if (0 : Int) ≤ n.toNat then Decimal.uint64? (n.toNat : Int).toNat else none) = some n
  rw [if_pos (Int.natCast_nonneg _), Int.toNat_natCast, Decimal.uint64?_toNat]

/-- A field that may be left open is read back if its value is, and null stands for no value. -/
theorem nullable?_getD {α : Type} {decode : Json → Option α} {encode : α → Json}
    (hdecode : ∀ a, decode (shown (encode a)) = some a) (hnull : ∀ a, shown (encode a) ≠ .null) (value : Option α) :
    nullable? decode (shown ((value.map encode).getD .null)) = some value := by
  cases value with
  | none => rfl
  | some a =>
    show nullable? decode (shown (encode a)) = _
    have hvalue := hdecode a
    have hne := hnull a
    generalize shown (encode a) = j at hvalue hne
    cases j with
    | null => exact absurd rfl hne
    | _ => exact congrArg (Option.map some) hvalue

/-- A record with one part that may not be read is read back if and only if that part is. -/
theorem bind_part_eq_some_iff {α β : Type} (part : β → α) {put : α → β} (hput : ∀ a, part (put a) = a)
    {read : Option α} {b : β} (hb : put (part b) = b) :
    read.bind (fun a => some (put a)) = some b ↔ read = some (part b) := by
  rw [Option.bind_eq_some_iff]
  constructor
  · rintro ⟨a, ha, heq⟩
    rw [ha, ← Option.some.inj heq, hput]
  · intro hread
    exact ⟨part b, hread, congrArg some hb⟩

/-! ## Queries -/

namespace Query

/-- A literal that is no infinity and no NaN. -/
def Literal.IsFinite : Literal → Prop
  | .float x => Decimal.isFinite x
  | _ => True

/-- A literal is read back as the kind that it was. -/
theorem Literal.decode?_toJson (v : Literal) : Literal.decode? (shown v.toJson) = some v ↔ v.IsFinite := by
  cases v with
  | bool b => exact iff_of_true rfl trivial
  | text s => exact iff_of_true rfl trivial
  | int i =>
    refine iff_of_true ?_ trivial
    show Literal.ofJson? (.int i.toInt) = some (.int i)
    rw [ofJson?, Decimal.int64?_toInt]
  | float x => exact decode_float_iff rfl (Option.some_ne_none _).symm
  | list items =>
    refine iff_of_true ?_ trivial
    show Option.map Literal.list (list? Json.string? (shown (strings items))) = some (.list items)
    rw [list?_strings]
    rfl

theorem Operator.ofSymbol?_symbol (op : Operator) : Operator.ofSymbol? op.symbol = some op := by
  cases op with
  | compare c => cases c <;> rfl
  | relation r => cases r <;> rfl
  | _ => rfl

theorem Order.ofSymbol?_symbol (d : Order) : Order.ofSymbol? d.symbol = some d := by
  cases d <;> rfl

/-- A condition is read field by field. -/
theorem Condition.decode?_fields (field operator value : Json) :
    Condition.decode? (Json.obj [("field", field), ("operator", operator), ("value", value)]) = do
      let f ← Json.string? field
      let op ← name? Operator.ofSymbol? operator
      let v ← Literal.decode? value
      return ⟨f, op, v⟩ := by
  have hfields : fields? ["field", "operator", "value"]
      (Json.obj [("field", field), ("operator", operator), ("value", value)]) =
        some ⟨false, [("field", field), ("operator", operator), ("value", value)]⟩ :=
    fields?_zip (by decide) (show _ = [field, operator, value].length from rfl)
  rw [Condition.decode?, hfields]
  rfl

theorem Condition.decode?_toJson (c : Condition) :
    Condition.decode? (shown c.toJson) = some c ↔ c.value.IsFinite := by
  have hshown : shown c.toJson =
      .obj [("field", .str c.field), ("operator", .str c.operator.symbol), ("value", shown c.value.toJson)] := rfl
  have hoperator : name? Operator.ofSymbol? (Json.str c.operator.symbol) = some c.operator :=
    Operator.ofSymbol?_symbol c.operator
  rw [hshown, decode?_fields, hoperator, ← Literal.decode?_toJson]
  show (Literal.decode? (shown c.value.toJson)).bind (fun v => some ⟨c.field, c.operator, v⟩) = some c ↔ _
  exact bind_part_eq_some_iff Condition.value (fun _ => rfl) rfl

/-- A query is read field by field. -/
theorem decode?_fields (select conditions orderBy order limit offset : Json) :
    Query.decode? (Json.obj [("select_fields", select), ("conditions", conditions), ("order_by", orderBy),
        ("order_direction", order), ("limit", limit), ("offset", offset)]) = do
      let select ← list? Json.string? select
      let conditions ← list? Condition.decode? conditions
      let orderBy ← nullable? Json.string? orderBy
      let order ← name? Order.ofSymbol? order
      let limit ← nullable? Json.count? limit
      let offset ← Json.count? offset
      return { select, conditions, orderBy, order, limit, offset } := by
  have hfields : fields? ["select_fields", "conditions", "order_by", "order_direction", "limit", "offset"]
      (Json.obj [("select_fields", select), ("conditions", conditions), ("order_by", orderBy),
        ("order_direction", order), ("limit", limit), ("offset", offset)]) =
      some ⟨false, [("select_fields", select), ("conditions", conditions), ("order_by", orderBy),
        ("order_direction", order), ("limit", limit), ("offset", offset)]⟩ :=
    fields?_zip (by decide) (show _ = [select, conditions, orderBy, order, limit, offset].length from rfl)
  rw [Query.decode?, hfields]
  rfl

theorem decode?_toJson (q : Query) :
    Query.decode? (shown q.toJson) = some q ↔ ∀ c ∈ q.conditions, c.value.IsFinite := by
  have hshown : shown q.toJson =
      .obj [("select_fields", shown (strings q.select)),
        ("conditions", shown (.arr (q.conditions.map Condition.toJson))),
        ("order_by", shown ((q.orderBy.map .str).getD .null)), ("order_direction", .str q.order.symbol),
        ("limit", shown ((q.limit.map fun n => .int n.toNat).getD .null)), ("offset", shown (.int q.offset.toNat))] :=
    rfl
  have horderBy : nullable? Json.string? (shown ((q.orderBy.map .str).getD .null)) = some q.orderBy :=
    nullable?_getD (fun _ => rfl) nofun q.orderBy
  have horder : name? Order.ofSymbol? (Json.str q.order.symbol) = some q.order := Order.ofSymbol?_symbol q.order
  have hlimit : nullable? Json.count? (shown ((q.limit.map fun n => .int n.toNat).getD .null)) = some q.limit :=
    nullable?_getD count?_toNat nofun q.limit
  have hconditions : list? Condition.decode? (shown (.arr (q.conditions.map Condition.toJson))) = some q.conditions ↔
      ∀ c ∈ q.conditions, c.value.IsFinite :=
    list?_arr_iff.trans (forall₂_congr fun c _ => c.decode?_toJson)
  rw [hshown, decode?_fields, list?_strings, horderBy, horder, hlimit, count?_toNat, ← hconditions]
  show (list? Condition.decode? (shown (.arr (q.conditions.map Condition.toJson)))).bind
    (fun conditions => some { q with conditions }) = some q ↔ _
  exact bind_part_eq_some_iff Query.conditions (fun _ => rfl) rfl

end Query

/-! ## Nodes -/

/-- A string that is put behind all others of an increasing list. -/
theorem insertTag_last {items : List String} {tag : String} (h : ∀ t ∈ items, t < tag) :
    insertTag tag items = items ++ [tag] := by
  induction items with
  | nil => rfl
  | cons t more ih =>
    obtain ⟨hfirst, hmore⟩ := List.forall_mem_cons.1 h
    rw [insertTag, if_neg (String.lt_asymm hfirst), if_neg, ih hmore, List.cons_append]
    rintro rfl
    exact String.lt_irrefl _ hfirst

/-- A set of tags is put together again from its list. -/
theorem Tags.ofList_items (tags : Tags) : Tags.ofList tags.items = tags := by
  have hput (s : Tags) (t : String) (hlast : ∀ a ∈ s.items, a < t) : (s.insert t).items = s.items ++ [t] :=
    insertTag_last hlast
  have hitems : (Tags.ofList tags.items).items = tags.items := foldl_in_order hput Tags.empty tags.increasing
  cases h : Tags.ofList tags.items
  rw [h] at hitems
  cases tags
  cases hitems
  rfl

namespace Node

/-- A node is read field by field. -/
theorem decode?_fields (id claimType content source confidence timestamp parents children merkleHash tags : Json) :
    Node.decode? (Json.obj [("node_id", id), ("claim_type", claimType), ("content", content), ("source", source),
        ("confidence", confidence), ("timestamp", timestamp), ("parent_ids", parents), ("child_ids", children),
        ("merkle_hash", merkleHash), ("tags", tags)]) = do
      let id ← string? id
      let claimType ← string? claimType
      let content ← object? content
      let source ← string? source
      let confidence ← float? confidence
      let timestamp ← string? timestamp
      let parents ← list? string? parents
      let children ← list? string? children
      let merkleHash ← string? merkleHash
      let tags ← list? string? tags
      return { id, claimType, content, source, confidence, timestamp, parents, children, merkleHash,
               tags := .ofList tags } := by
  have hfields : fields? fieldNames
      (Json.obj [("node_id", id), ("claim_type", claimType), ("content", content), ("source", source),
        ("confidence", confidence), ("timestamp", timestamp), ("parent_ids", parents), ("child_ids", children),
        ("merkle_hash", merkleHash), ("tags", tags)]) =
      some ⟨false, [("node_id", id), ("claim_type", claimType), ("content", content), ("source", source),
        ("confidence", confidence), ("timestamp", timestamp), ("parent_ids", parents), ("child_ids", children),
        ("merkle_hash", merkleHash), ("tags", tags)]⟩ :=
    fields?_zip (by decide) (show _ =
      [id, claimType, content, source, confidence, timestamp, parents, children, merkleHash, tags].length from rfl)
  rw [Node.decode?, hfields]
  rfl

theorem decode?_toJson (n : Node) :
    Node.decode? (shown n.toJson) = some n ↔ Decimal.isFinite n.confidence ∧ n.content.toJson.Finite := by
  have hshown : shown n.toJson =
      .obj [("node_id", .str n.id), ("claim_type", .str n.claimType), ("content", shown n.content.toJson),
        ("source", .str n.source), ("confidence", shown (.float n.confidence)), ("timestamp", .str n.timestamp),
        ("parent_ids", shown (strings n.parents)), ("child_ids", shown (strings n.children)),
        ("merkle_hash", .str n.merkleHash), ("tags", shown (strings n.tags.items))] := rfl
  have hfloat : float? (shown (.float n.confidence)) = some n.confidence ↔ Decimal.isFinite n.confidence :=
    decode_float_iff rfl (Option.some_ne_none _).symm
  rw [hshown, decode?_fields, list?_strings, list?_strings, list?_strings, ← hfloat, ← object?_toJson]
  show ((object? (shown n.content.toJson)).bind fun content => (float? (shown (.float n.confidence))).bind
    fun confidence => some { n with content, confidence, tags := .ofList n.tags.items }) = some n ↔ _
  rw [Tags.ofList_items]
  -- two parts may not be read, so the records in between are followed one by one
  simp only [Option.bind_eq_some_iff]
  constructor
  · rintro ⟨content, hcontent, confidence, hconfidence, heq⟩
    rw [hcontent, hconfidence, ← Option.some.inj heq]
    exact ⟨rfl, rfl⟩
  · rintro ⟨hconfidence, hcontent⟩
    exact ⟨n.content, hcontent, n.confidence, hconfidence, rfl⟩

end Node

/-! ## Both -/

namespace Json

/-- What is written as JSON is read back as it was. The text of a value shows a finite value, which has the same text;
if that is the text of a query, the query is read from it if and only if all its literals are finite, each as the kind
that it was; and if it is the text of a node, the node is read from it if and only if its confidence and its content
are finite. -/
theorem encodings_lossless :
    (∀ j : Json, (shown j).Finite ∧ (shown j).write = j.write) ∧
    (∀ q : Query, Query.decode? (shown q.toJson) = some q ↔ ∀ c ∈ q.conditions, c.value.IsFinite) ∧
    (∀ n : Node, Node.decode? (shown n.toJson) = some n ↔
      Decimal.isFinite n.confidence ∧ n.content.toJson.Finite) :=
  ⟨fun j => ⟨finite_shown j, write_shown j⟩, Query.decode?_toJson, Node.decode?_toJson⟩

end Json

end EvidenceGraph
