/-
# `EvidenceGraph.Proofs.Store.Pairs` — relations are exactly what their history added.

No operation takes a pair out of a relation, and only the operations of a relation add pairs to it. So two
ids contradict each other exactly if the history says so, whichever of the two it names first, and one
supports another exactly if the history says that. The order of the operations and the nodes among them do
not matter.

An operation that adds a contradiction writes the pair both ways, but looks at one of the two only to tell
whether it is new. That is enough because contradictions hold both ways after any history.
-/
import EvidenceGraph.Proofs.Store.History

namespace EvidenceGraph

/-- Whether an operation adds to a relation. -/
def Operation.isRelation : Operation → Bool
  | .add _ => false
  | .contradict _ _ => true
  | .support _ _ => true

namespace Store

/-! ## One operation -/

theorem hasContradiction_addContradiction (s : Store) (a b c d : String) :
    (s.addContradiction a b).1.hasContradiction c d =
      (((c, d) == (a, b) || (c, d) == (b, a)) || s.hasContradiction c d) := by
  simp only [addContradiction, hasContradiction, Std.HashSet.contains_insert]
  grind

theorem hasSupport_addSupport (s : Store) (a b c d : String) :
    (s.addSupport a b).1.hasSupport c d = ((c, d) == (a, b) || s.hasSupport c d) := by
  simp only [addSupport, hasSupport, Std.HashSet.contains_insert]
  grind

/-- Nodes do not matter for the relations. -/
theorem relations_add (s : Store) (n : Node) :
    (s.add n).1.contradictions = s.contradictions ∧ (s.add n).1.supports = s.supports := by
  cases h : s.contains n.id with
  | true => simp [add_of_known h]
  | false => simp [add_of_new h]

theorem hasContradiction_add (s : Store) (n : Node) (a b : String) :
    (s.add n).1.hasContradiction a b = s.hasContradiction a b := by
  rw [hasContradiction, (s.relations_add n).1, hasContradiction]

theorem hasSupport_add (s : Store) (n : Node) (a b : String) :
    (s.add n).1.hasSupport a b = s.hasSupport a b := by
  rw [hasSupport, (s.relations_add n).2, hasSupport]

/-- After one more operation two ids contradict each other if it says so, or if they did before. -/
theorem hasContradiction_apply (s : Store) (op : Operation) (a b : String) :
    (s.apply op).hasContradiction a b ↔
      s.hasContradiction a b ∨ .contradict a b = op ∨ .contradict b a = op := by
  cases op with
  | add n => simp [apply, hasContradiction_add]
  | support c d =>
    show s.hasContradiction a b ↔ _
    simp
  | contradict c d =>
    show (s.addContradiction c d).1.hasContradiction a b ↔ _
    rw [hasContradiction_addContradiction]
    simp
    tauto

/-- After one more operation an id supports another if it says so, or if it did before. -/
theorem hasSupport_apply (s : Store) (op : Operation) (a b : String) :
    (s.apply op).hasSupport a b ↔ s.hasSupport a b ∨ .support a b = op := by
  cases op with
  | add n => simp [apply, hasSupport_add]
  | contradict c d =>
    show s.hasSupport a b ↔ _
    simp
  | support c d =>
    show (s.addSupport c d).1.hasSupport a b ↔ _
    rw [hasSupport_addSupport]
    simp
    tauto

/-! ## Histories -/

theorem hasContradiction_after (ops : List Operation) (a b : String) :
    (after ops).hasContradiction a b ↔ .contradict a b ∈ ops ∨ .contradict b a ∈ ops := by
  refine after_induction (P := fun ops s => s.hasContradiction a b ↔
    .contradict a b ∈ ops ∨ .contradict b a ∈ ops) ?_ ?_ ops
  · simp [hasContradiction, empty]
  · intro ops op ih
    rw [hasContradiction_apply, ih]
    simp only [List.mem_append, List.mem_singleton]
    tauto

theorem hasSupport_after (ops : List Operation) (a b : String) :
    (after ops).hasSupport a b ↔ .support a b ∈ ops := by
  refine after_induction (P := fun ops s => s.hasSupport a b ↔ .support a b ∈ ops) ?_ ?_ ops
  · simp [hasSupport, empty]
  · intro ops op ih
    rw [hasSupport_apply, ih, List.mem_append, List.mem_singleton]

/-- Contradictions hold both ways. -/
def Symmetric (s : Store) : Prop := ∀ a b, s.hasContradiction a b = s.hasContradiction b a

theorem symmetric_after (ops : List Operation) : (after ops).Symmetric := by
  intro a b
  rw [Bool.eq_iff_iff, hasContradiction_after, hasContradiction_after, Or.comm]

/-! ## What the relations hold -/

/-- The relations of a store hold what a history added to them and nothing else. An operation on them tells
whether its pair is new, and one that adds a node leaves them alone. -/
structure Relates (s : Store) (ops : List Operation) : Prop where
  contradiction_iff : ∀ a b, s.hasContradiction a b ↔ .contradict a b ∈ ops ∨ .contradict b a ∈ ops
  support_iff : ∀ a b, s.hasSupport a b ↔ .support a b ∈ ops
  symmetric : s.Symmetric
  contradiction_new : ∀ a b,
    (s.addContradiction a b).2 ↔ ¬ s.hasContradiction a b ∧ ¬ s.hasContradiction b a
  support_new : ∀ a b, (s.addSupport a b).2 ↔ ¬ s.hasSupport a b
  node_contradiction : ∀ n a b, (s.add n).1.hasContradiction a b = s.hasContradiction a b
  node_support : ∀ n a b, (s.add n).1.hasSupport a b = s.hasSupport a b

theorem relates_after (ops : List Operation) : (after ops).Relates ops where
  contradiction_iff := hasContradiction_after ops
  support_iff := hasSupport_after ops
  symmetric := symmetric_after ops
  contradiction_new a b := by
    -- the answer only says that `(a, b)` is new; the turned pair is new, too, by symmetry
    have hanswer : ((after ops).addContradiction a b).2 ↔ ¬ (after ops).hasContradiction a b := by
      simp [addContradiction, hasContradiction]
    rw [hanswer, symmetric_after ops b a, and_self]
  support_new a b := by simp [addSupport, hasSupport]
  node_contradiction := hasContradiction_add _
  node_support := hasSupport_add _

/-- Operations on relations stay when the others are left out. -/
theorem mem_filter_isRelation {ops : List Operation} {op : Operation} (h : op.isRelation) :
    op ∈ ops.filter Operation.isRelation ↔ op ∈ ops := by
  rw [List.mem_filter, and_iff_left h]

/-- After any history the relations are what it added to them; and the same operations on relations in any
order, with any nodes added before, between and after them, give the same relations. -/
theorem relations_eq_history (ops : List Operation) :
    (after ops).Relates ops ∧
      ∀ others, (others.filter Operation.isRelation).Perm (ops.filter Operation.isRelation) →
        ∀ a b, (after others).hasContradiction a b = (after ops).hasContradiction a b ∧
          (after others).hasSupport a b = (after ops).hasSupport a b := by
  refine ⟨relates_after ops, ?_⟩
  intro others hperm a b
  have hsame {op : Operation} (hop : op.isRelation) : op ∈ others ↔ op ∈ ops := by
    rw [← mem_filter_isRelation hop, hperm.mem_iff, mem_filter_isRelation hop]
  constructor
  · rw [Bool.eq_iff_iff, hasContradiction_after, hasContradiction_after, hsame rfl, hsame rfl]
  · rw [Bool.eq_iff_iff, hasSupport_after, hasSupport_after, hsame rfl]

/-- A contradiction with itself, one that is added both ways, and a support, in another order and with a
node among them. -/
theorem relations_eq_history_reordered :
    let ops : List Operation := [.contradict "a" "b", .contradict "b" "a", .contradict "c" "c", .support "a" "b"]
    let others : List Operation :=
      [.contradict "b" "a", .contradict "a" "b", .add { id := "a", claimType := "claim", confidence := 1 },
        .contradict "c" "c", .support "a" "b"]
    (others.filter Operation.isRelation).Perm (ops.filter Operation.isRelation) ∧
      (after ops).hasContradiction "b" "a" ∧ (after ops).hasContradiction "c" "c" ∧
      ¬ (after ops).hasSupport "b" "a" ∧
      ∀ a b, (after others).hasContradiction a b = (after ops).hasContradiction a b ∧
        (after others).hasSupport a b = (after ops).hasSupport a b := by
  intro ops others
  have hperm : (others.filter Operation.isRelation).Perm (ops.filter Operation.isRelation) :=
    .swap _ _ _
  obtain ⟨hrelates, hreordered⟩ := relations_eq_history ops
  refine ⟨hperm, ?_, ?_, ?_, hreordered others hperm⟩
  · exact (hrelates.contradiction_iff "b" "a").2 (.inl (by simp [ops]))
  · exact (hrelates.contradiction_iff "c" "c").2 (.inl (by simp [ops]))
  · rw [hrelates.support_iff]
    simp [ops]

end Store

end EvidenceGraph
