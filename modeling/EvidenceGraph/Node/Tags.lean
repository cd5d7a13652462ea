/-
# `EvidenceGraph.Node.Tags` — sets of tags.

A set of tags lists its strings in increasing order, each once, so two sets with the same members are
equal.
-/

namespace EvidenceGraph

/-- Put a string into an increasing list, unless it is there. -/
def insertTag (tag : String) : List String → List String
  | [] => [tag]
  | t :: more =>
    if tag < t then tag :: t :: more
    else if tag = t then t :: more
    else t :: insertTag tag more

theorem mem_insertTag {tag a : String} {items : List String} :
    a ∈ insertTag tag items ↔ a = tag ∨ a ∈ items := by
  induction items with
  | nil => simp [insertTag]
  | cons t more ih =>
    unfold insertTag
    split
    · simp
    · split
      · simp_all
      · simp only [List.mem_cons, ih]
        grind

theorem pairwise_insertTag {items : List String} (h : items.Pairwise (· < ·)) (tag : String) :
    (insertTag tag items).Pairwise (· < ·) := by
  induction items with
  | nil => simp [insertTag]
  | cons t more ih =>
    have ht := List.pairwise_cons.1 h
    unfold insertTag
    split
    · next hlt =>
      refine List.pairwise_cons.2 ⟨fun a ha => ?_, h⟩
      rcases List.mem_cons.1 ha with rfl | ha
      · exact hlt
      · exact String.lt_trans hlt (ht.1 a ha)
    · split
      · exact h
      · next hlt hne =>
        refine List.pairwise_cons.2 ⟨fun a ha => ?_, ih ht.2⟩
        rcases mem_insertTag.1 ha with rfl | ha
        · grind
        · exact ht.1 a ha

/-- A set of tags, in increasing order. -/
structure Tags where
  items : List String
  increasing : items.Pairwise (· < ·)

namespace Tags

/-- No tags. -/
def empty : Tags := ⟨[], List.Pairwise.nil⟩

instance : Inhabited Tags := ⟨empty⟩

/-- Add a tag. -/
def insert (tags : Tags) (tag : String) : Tags :=
  ⟨insertTag tag tags.items, pairwise_insertTag tags.increasing tag⟩

/-- The set of the strings of a list. -/
def ofList (items : List String) : Tags := items.foldl insert empty

/-- Whether a tag is in the set. -/
def contains (tags : Tags) (tag : String) : Bool := tags.items.contains tag

end Tags

end EvidenceGraph
