/-
# `EvidenceGraph.Proofs.Store.Sorting` — the order of an answer.

A list sorted stably by keys has the keys in order along it, and the elements of every key as they came.
Between them these two leave no choice (`StablySorted.eq`), and both pass to the elements that some test
selects. So a stable sort and a filter may change places, and an answer with one more condition is the part
of the answer without it that meets the condition, ties included.
-/
import EvidenceGraph.Proofs.Store.History
import EvidenceGraph.Proofs.Store.SortKeys

namespace EvidenceGraph

open Query

/-! ## Stable sorts -/

section Stable

variable {α κ : Type} [DecidableEq κ] {r : κ → κ → Prop} {key : α → κ}

/-- Elements of a list in the order of their keys; those of equal keys stay in the order of the list. -/
structure StablySorted (r : κ → κ → Prop) (key : α → κ) (sorted l : List α) : Prop where
  pairwise : sorted.Pairwise fun a b => r (key a) (key b)
  filter_key : ∀ k, (sorted.filter fun a => key a = k) = l.filter fun a => key a = k

namespace StablySorted

theorem mem_iff {sorted l : List α} (h : StablySorted r key sorted l) {a : α} : a ∈ sorted ↔ a ∈ l := by
  have hkey := congrArg (a ∈ ·) (h.filter_key (key a))
  simpa using hkey

/-- The elements that meet a test stay sorted, in the order in which the list has them. -/
theorem filter {sorted l : List α} (h : StablySorted r key sorted l) (p : α → Bool) :
    StablySorted r key (sorted.filter p) (l.filter p) where
  pairwise := h.pairwise.filter p
  filter_key k := by rw [List.filter_comm, h.filter_key, List.filter_comm]

/-- Without their common head two lists are still related. -/
theorem tail {x : α} {xs ys : List α} (h : StablySorted r key (x :: xs) (x :: ys)) :
    StablySorted r key xs ys where
  pairwise := h.pairwise.tail
  filter_key k := by
    have hclass := h.filter_key k
    by_cases hk : key x = k
    · rw [List.filter_cons_of_pos (by simpa using hk), List.filter_cons_of_pos (by simpa using hk)] at hclass
      exact (List.cons.inj hclass).2
    · rwa [List.filter_cons_of_neg (by simpa using hk), List.filter_cons_of_neg (by simpa using hk)] at hclass

/-- A list in order is not changed by sorting it stably. The induction is on the sorted list: the two heads
have one key, since each of them is the least, and of the elements with this key both are the first. -/
theorem eq_self (hantisymm : ∀ {a b}, r a b → r b a → a = b) {sorted l : List α}
    (h : StablySorted r key sorted l) (hl : l.Pairwise fun a b => r (key a) (key b)) : sorted = l := by
  induction sorted generalizing l with
  | nil =>
    cases l with
    | nil => rfl
    | cons y ys => exact absurd (h.mem_iff.2 List.mem_cons_self) List.not_mem_nil
  | cons x xs ih =>
    cases l with
    | nil => exact absurd (h.mem_iff.1 List.mem_cons_self) List.not_mem_nil
    | cons y ys =>
      have hkey : key x = key y := by
        rcases List.mem_cons.1 (h.mem_iff.1 List.mem_cons_self) with rfl | hx
        · rfl
        rcases List.mem_cons.1 (h.mem_iff.2 List.mem_cons_self) with rfl | hy
        · rfl
        · exact hantisymm (List.rel_of_pairwise_cons h.pairwise hy) (List.rel_of_pairwise_cons hl hx)
      have hheads := h.filter_key (key x)
      rw [List.filter_cons_of_pos (by simp), List.filter_cons_of_pos (by simp [hkey])] at hheads
      obtain rfl := (List.cons.inj hheads).1
      rw [ih h.tail hl.tail]

/-- There is one way to sort a list stably. -/
theorem eq (hantisymm : ∀ {a b}, r a b → r b a → a = b) {xs ys l : List α} (hxs : StablySorted r key xs l)
    (hys : StablySorted r key ys l) : xs = ys := by
  have hboth : StablySorted r key xs ys :=
    ⟨hxs.pairwise, fun k => (hxs.filter_key k).trans (hys.filter_key k).symm⟩
  exact hboth.eq_self hantisymm hys.pairwise

end StablySorted

/-- Sorting by merging is stable: the elements of one key are in order already, so they are a part of the
sorted list, and there are no more of them in it. -/
theorem stablySorted_mergeSort {le : α → α → Bool} (hle : ∀ a b, le a b ↔ r (key a) (key b))
    (htrans : ∀ {a b c}, r a b → r b c → r a c) (htotal : ∀ a b, r a b ∨ r b a) (l : List α) :
    StablySorted r key (l.mergeSort le) l := by
  have hletrans (a b c : α) (hab : le a b) (hbc : le b c) : le a c :=
    (hle a c).2 (htrans ((hle a b).1 hab) ((hle b c).1 hbc))
  have hletotal (a b : α) : (le a b || le b a) = true := by
    rw [Bool.or_eq_true, hle, hle]
    exact htotal (key a) (key b)
  constructor
  · exact (List.pairwise_mergeSort hletrans hletotal l).imp (hle _ _).1
  · intro k
    have hclass : (l.filter fun a => key a = k).Pairwise (le · ·) := by
      apply List.pairwise_of_forall_mem_list
      intro a ha b hb
      have hka : key a = k := by simpa using (List.mem_filter.1 ha).2
      have hkb : key b = k := by simpa using (List.mem_filter.1 hb).2
      rw [hle, hka, hkb]
      exact (htotal k k).elim id id
    have hsublist := (List.sublist_mergeSort hletrans hletotal hclass List.filter_sublist).filter
      fun a => key a = k
    rw [List.filter_filter] at hsublist
    simp only [Bool.and_self] at hsublist
    exact (hsublist.eq_of_length ((List.mergeSort_perm l le).filter _).length_eq.symm).symm

end Stable

/-- The query for all the nodes of which another one asks for a page. -/
def Query.unpaged (q : Query) : Query := { q with limit := none, offset := 0 }

namespace Store

/-! ## Sorted nodes -/

/-- To sort nodes by keys that were taken beforehand is to sort them by their keys. -/
theorem sortBy_eq (field : String) (order : Order) (nodes : List Node) :
    sortBy field order nodes =
      nodes.mergeSort fun m n => mayPrecede order (sortKey field m) (sortKey field n) := by
  have hkeyed : (nodes.mergeSort fun m n => mayPrecede order (sortKey field m) (sortKey field n)).map
      (fun n => (sortKey field n, n)) =
        (nodes.map fun n => (sortKey field n, n)).mergeSort fun a b => mayPrecede order a.1 b.1 :=
    List.map_mergeSort fun _ _ _ _ => rfl
  rw [sortBy, ← hkeyed, List.map_map]
  exact List.map_id _

theorem stablySorted_sortBy (field : String) (order : Order) (nodes : List Node) :
    StablySorted (SortKey.InOrder order) (sortKey field) (sortBy field order nodes) nodes := by
  rw [sortBy_eq]
  apply stablySorted_mergeSort
  · intro m n
    exact SortKey.mayPrecede_iff
  · exact SortKey.InOrder.trans
  · exact SortKey.InOrder.total order

theorem sortBy_filter (field : String) (order : Order) (p : Node → Bool) (nodes : List Node) :
    sortBy field order (nodes.filter p) = (sortBy field order nodes).filter p :=
  (stablySorted_sortBy field order (nodes.filter p)).eq SortKey.InOrder.antisymm
    ((stablySorted_sortBy field order nodes).filter p)

theorem ordered_perm (q : Query) (nodes : List Node) : (ordered q nodes).Perm nodes := by
  unfold ordered
  split
  · exact .refl nodes
  · rw [sortBy_eq]
    exact List.mergeSort_perm nodes _

/-- Whatever order a query asks for, its nodes may be selected before or after they are put in order. -/
theorem ordered_filter (q : Query) (p : Node → Bool) (nodes : List Node) :
    ordered q (nodes.filter p) = (ordered q nodes).filter p := by
  unfold ordered
  split
  · rfl
  · exact sortBy_filter _ _ p nodes

/-! ## Answers without a page -/

/-- All nodes that meet the conditions are in the answer, in the order that the query asks for. -/
theorem nodes_unpaged (s : Store) (q : Query) :
    (s.execute q.unpaged).nodes = ordered q (s.matching q.conditions) := rfl

/-- One more condition, wherever it stands, selects among the nodes that meet the others. -/
theorem matching_insert (s : Store) (earlier later : List Condition) (c : Condition) :
    s.matching (earlier ++ c :: later) = (s.matching (earlier ++ later)).filter (s.meets · c) := by
  unfold matching
  rw [List.filter_filter]
  apply List.filter_congr
  intro n _
  simp only [meetsAll, List.all_append, List.all_cons]
  exact Bool.and_left_comm _ _ _

theorem matching_perm (s : Store) {cs ds : List Condition} (h : cs.Perm ds) : s.matching cs = s.matching ds := by
  unfold matching meetsAll
  simp only [h.all_eq]

/-- With one more condition anywhere among those of a query, the answer without a page becomes the part of
it that meets this condition, in the same order, and counts it; and the order of the conditions only shows in
the text of the answer. -/
theorem conditions_filter_answer (s : Store) (q : Query) (earlier later : List Condition) (c : Condition) :
    let answer := s.execute { q.unpaged with conditions := earlier ++ later }
    let narrowed := s.execute { q.unpaged with conditions := earlier ++ c :: later }
    narrowed.nodes = answer.nodes.filter (s.meets · c) ∧
      narrowed.total = narrowed.nodes.length ∧
      ∀ cs : List Condition, cs.Perm (earlier ++ later) →
        { s.execute { q.unpaged with conditions := cs } with query := answer.query } = answer := by
  intro answer narrowed
  refine ⟨?_, ?_, ?_⟩
  · show ordered q (s.matching (earlier ++ c :: later)) = (ordered q (s.matching (earlier ++ later))).filter _
    rw [matching_insert, ordered_filter]
  · exact (ordered_perm q (s.matching (earlier ++ c :: later))).length_eq.symm
  · intro cs hcs
    simp only [execute, matching_perm s hcs]
    rfl

/-- Sorted by their sources downwards, `x` and `z` of one source stand as they arrived and `y` comes last. One more
condition, in front of the other, leaves the first two as they stand; and the two may change places. -/
theorem conditions_filter_answer_ties :
    let w : Node := { id := "w", claimType := "other", source := "b", confidence := 1 }
    let x : Node := { id := "x", claimType := "claim", source := "b", confidence := 1 }
    let y : Node := { id := "y", claimType := "claim", source := "a", confidence := 1 }
    let z : Node := { id := "z", claimType := "claim", source := "b", confidence := 1 }
    let s : Store := ofNodes [w, y, x, z]
    let q : Query := { orderBy := some "source", order := .descending }
    let c : Condition := ⟨"claim_type", .isIn, .list ["claim"]⟩
    let d : Condition := ⟨"source", .isIn, .list ["b", "c"]⟩
    let answer := s.execute { q.unpaged with conditions := [c] }
    let narrowed := s.execute { q.unpaged with conditions := [d, c] }
    answer.nodes = [x, z, y] ∧ narrowed.nodes = [x, z] ∧ narrowed.total = 2 ∧ [c, d].Perm [d, c] ∧
      { s.execute { q.unpaged with conditions := [c, d] } with query := narrowed.query } = narrowed := by
  intro w x y z s q c d answer narrowed
  have hmatching : s.matching [c] = [y, x, z] := by
    rw [matching, toList_ofNodes]
    rfl
  have hx : sortKey "source" x = .text "b" := rfl
  have hy : sortKey "source" y = .text "a" := rfl
  have hz : sortKey "source" z = .text "b" := rfl
  have hstable : StablySorted (SortKey.InOrder .descending) (sortKey "source") [x, z, y] [y, x, z] := by
    constructor
    · simp only [List.pairwise_cons, ← SortKey.mayPrecede_iff]
      decide
    · intro k
      by_cases hb : SortKey.text "b" = k
      · simp [← hb, hx, hy, hz]
      · simp [List.filter_cons, hx, hy, hz, hb]
  have hanswer : answer.nodes = [x, z, y] := by
    show sortBy "source" .descending (s.matching [c]) = _
    rw [hmatching]
    exact (stablySorted_sortBy _ _ _).eq SortKey.InOrder.antisymm hstable
  obtain ⟨hnodes, htotal, -⟩ := conditions_filter_answer s q [] [c] d
  have hnarrowed : narrowed.nodes = [x, z] := by
    refine hnodes.trans ?_
    show answer.nodes.filter _ = _
    rw [hanswer]
    rfl
  have hcount : narrowed.total = 2 := by
    refine htotal.trans ?_
    show narrowed.nodes.length = 2
    rw [hnarrowed]
    rfl
  have hperm : [c, d].Perm [d, c] := .swap d c []
  exact ⟨hanswer, hnarrowed, hcount, hperm, (conditions_filter_answer s q [d] [c] c).2.2 [c, d] hperm⟩

end Store

end EvidenceGraph
