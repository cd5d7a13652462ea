/-
# `EvidenceGraph.Proofs.Store.Paging` — pages of an answer.

Every page comes from a run of its own, which selects and sorts the nodes again. As the order of an answer is
fixed, ties included, each run cuts its page from one and the same list: pages of one size, put end to end,
are that list as far as they reach. No id stands twice in it after any history, so none is on two pages.
-/
import EvidenceGraph.Proofs.Store.History
import EvidenceGraph.Proofs.Store.Sorting
import Mathlib.Data.List.Nodup
import Mathlib.Data.List.Pairwise

namespace EvidenceGraph

open Query

/-- The query for another page of the same answer. -/
def Query.paged (q : Query) (limit : Option UInt64) (offset : UInt64) : Query := { q with limit, offset }

/-- The place where a page ends in a list of `n` nodes. -/
def Query.pageEnd (limit : Option UInt64) (offset : UInt64) (n : Nat) : Nat :=
  match limit with
  | none => n
  | some l => min (offset.toNat + l.toNat) n

/-! ## Pieces of a list -/

/-- Pieces of one size put end to end are the list as far as they reach. -/
theorem flatMap_pieces {α : Type} (l : List α) (k m : Nat) :
    ((List.range m).flatMap fun i => (l.drop (i * k)).take k) = l.take (m * k) := by
  induction m with
  | zero => simp
  | succ m ih =>
    rw [List.range_succ, List.flatMap_append, ih, List.flatMap_singleton, Nat.succ_mul, List.take_add]

/-- What stands once in pieces put end to end stands in one piece only. -/
theorem existsUnique_piece {α : Type} {piece : Nat → List α} {m : Nat}
    (hnodup : ((List.range m).flatMap piece).Nodup) {a : α} (ha : a ∈ (List.range m).flatMap piece) :
    ∃! i, i < m ∧ a ∈ piece i := by
  obtain ⟨i, hi, hai⟩ := List.mem_flatMap.1 ha
  refine ⟨i, ⟨List.mem_range.1 hi, hai⟩, ?_⟩
  rintro j ⟨hj, haj⟩
  by_contra hne
  have : Std.Symm (Function.onFun List.Disjoint piece) := ⟨fun _ _ h _ ha hb => h hb ha⟩
  have hdisjoint := (List.nodup_flatMap.1 hnodup).2.forall (List.mem_range.2 hj) hi hne
  exact hdisjoint haj hai

namespace Store

/-! ## One page -/

/-- A page is a piece of the answer without pages, cut off where this answer ends. -/
theorem nodes_paged (s : Store) (q : Query) (limit : Option UInt64) (offset : UInt64) :
    (s.execute (q.paged limit offset)).nodes =
      (s.execute q.unpaged).nodes.extract offset.toNat
        (pageEnd limit offset (s.execute q.unpaged).nodes.length) := by
  have hcut : (s.execute (q.paged limit offset)).nodes =
      page (q.paged limit offset) (ordered q (s.matching q.conditions)) := rfl
  rw [hcut, nodes_unpaged, List.extract_eq_take_drop]
  generalize ordered q (s.matching q.conditions) = nodes
  cases limit with
  | none =>
    show nodes.drop offset.toNat = (nodes.drop offset.toNat).take (nodes.length - offset.toNat)
    rw [← List.length_drop, List.take_length]
  | some l =>
    show (nodes.drop offset.toNat).take l.toNat =
      (nodes.drop offset.toNat).take (min (offset.toNat + l.toNat) nodes.length - offset.toNat)
    rw [List.take_eq_take_iff, List.length_drop]
    omega

theorem length_unpaged (s : Store) (q : Query) :
    (s.execute q.unpaged).nodes.length = (s.matching q.conditions).length := by
  rw [nodes_unpaged]
  exact (ordered_perm q (s.matching q.conditions)).length_eq

/-! ## Pages of one size -/

/-- The page of size `k` behind `i` others. -/
def nthPage (s : Store) (q : Query) (k : UInt64) (i : Nat) : Answer :=
  s.execute (q.paged (some k) (.ofNat (i * k.toNat)))

theorem nodes_nthPage (s : Store) (q : Query) {k : UInt64} {i : Nat} (h : i * k.toNat < 2 ^ 64) :
    (s.nthPage q k i).nodes = ((s.execute q.unpaged).nodes.drop (i * k.toNat)).take k.toNat := by
  show ((s.execute q.unpaged).nodes.drop (UInt64.ofNat (i * k.toNat)).toNat).take k.toNat = _
  rw [UInt64.toNat_ofNat_of_lt' h]

/-- Pages put end to end are the answer as far as they reach. -/
theorem flatMap_nthPage (s : Store) (q : Query) {k : UInt64} {m : Nat}
    (h : ∀ i < m, i * k.toNat < 2 ^ 64) :
    ((List.range m).flatMap fun i => (s.nthPage q k i).nodes) =
      (s.execute q.unpaged).nodes.take (m * k.toNat) := by
  rw [← flatMap_pieces]
  apply List.flatMap_congr
  intro i hi
  exact nodes_nthPage s q (h i (List.mem_range.1 hi))

theorem Indexed.nodup_unpaged {s : Store} (h : s.Indexed) (q : Query) :
    ((s.execute q.unpaged).nodes.map Node.id).Nodup := by
  have hperm := (ordered_perm q (s.matching q.conditions)).map Node.id
  rw [nodes_unpaged, hperm.nodup_iff]
  exact h.nodup.sublist (List.filter_sublist.map Node.id)

/-- On pages that make up the whole answer, every id that was found stands once. -/
theorem Indexed.existsUnique_nthPage {s : Store} (h : s.Indexed) (q : Query) {k : UInt64} {m : Nat}
    (htiled : ((List.range m).flatMap fun i => (s.nthPage q k i).nodes) = (s.execute q.unpaged).nodes)
    {found : Node} (hfound : found ∈ s.matching q.conditions) :
    ∃! i, i < m ∧ found.id ∈ (s.nthPage q k i).nodes.map Node.id := by
  have hids : ((List.range m).flatMap fun i => (s.nthPage q k i).nodes.map Node.id) =
      (s.execute q.unpaged).nodes.map Node.id := by
    rw [← htiled, List.map_flatMap]
  have hmem : found ∈ (s.execute q.unpaged).nodes := by
    rw [nodes_unpaged]
    exact (ordered_perm q (s.matching q.conditions)).mem_iff.2 hfound
  apply existsUnique_piece
  · rw [hids]
    exact h.nodup_unpaged q
  · rw [hids]
    exact List.mem_map_of_mem hmem

/-- As many pages as it takes to reach the end of `n` elements; none of them starts behind the end. -/
theorem exists_pages {n : Nat} {k : UInt64} (hk : k ≠ 0) (hn : n ≤ 2 ^ 64) :
    ∃ m, n ≤ m * k.toNat ∧ ∀ i < m, i * k.toNat < 2 ^ 64 := by
  have hpos : 0 < k.toNat := Nat.pos_of_ne_zero fun h => hk (UInt64.toNat_inj.1 h)
  refine ⟨(n + (k.toNat - 1)) / k.toNat, ?_, ?_⟩
  · have hlast := Nat.lt_div_mul_add hpos (a := n + (k.toNat - 1))
    omega
  · intro i hi
    have hstart : (i + 1) * k.toNat ≤ n + (k.toNat - 1) := (Nat.le_div_iff_mul_le hpos).1 hi
    rw [Nat.succ_mul] at hstart
    omega

/-- After any history a page has the nodes of the answer without pages from its offset to its end, and counts
all of them, whatever the limit and the offset are. Pages of one size, at offsets that are 64-bit values, are
the whole answer when put end to end, once there are enough of them to reach its end; and of every node that
meets the conditions the id is on one page and on no other. As long as the nodes can be counted by a 64-bit
value, there are enough pages. -/
theorem pages_tile_answer (ops : List Operation) (q : Query) :
    let s := after ops
    let answer := s.execute q.unpaged
    let n := answer.nodes.length
    (∀ limit offset,
        (s.execute (q.paged limit offset)).nodes =
            answer.nodes.extract offset.toNat (pageEnd limit offset n) ∧
          (s.execute (q.paged limit offset)).total = n) ∧
      ∀ k : UInt64, k ≠ 0 →
        (n ≤ 2 ^ 64 → ∃ m, n ≤ m * k.toNat ∧ ∀ i < m, i * k.toNat < 2 ^ 64) ∧
          ∀ m, n ≤ m * k.toNat → (∀ i < m, i * k.toNat < 2 ^ 64) →
            ((List.range m).flatMap fun i => (s.nthPage q k i).nodes) = answer.nodes ∧
              ∀ found ∈ s.matching q.conditions,
                ∃! i, i < m ∧ found.id ∈ (s.nthPage q k i).nodes.map Node.id := by
  intro s answer n
  constructor
  · intro limit offset
    exact ⟨nodes_paged s q limit offset, (length_unpaged s q).symm⟩
  · intro k hk
    refine ⟨exists_pages hk, ?_⟩
    intro m hm hoffsets
    have htiled : ((List.range m).flatMap fun i => (s.nthPage q k i).nodes) = answer.nodes := by
      rw [flatMap_nthPage s q hoffsets]
      exact List.take_of_length_le hm
    refine ⟨htiled, ?_⟩
    intro found hfound
    exact (indexed_after ops).existsUnique_nthPage q htiled hfound

/-- Three nodes, two of which share a source, on pages of two, sorted downwards. -/
theorem pages_tile_answer_pairs :
    let x : Node := { id := "x", claimType := "claim", source := "b", confidence := 1 }
    let y : Node := { id := "y", claimType := "claim", source := "a", confidence := 1 }
    let z : Node := { id := "z", claimType := "claim", source := "b", confidence := 1 }
    let s := after [.add x, .add y, .contradict "x" "y", .add z]
    let q : Query := { orderBy := some "source", order := .descending }
    let answer := s.execute q.unpaged
    (2 : UInt64) ≠ 0 ∧ answer.nodes.length ≤ 2 ^ 64 ∧
      (∃ m, answer.nodes.length ≤ m * 2 ∧ ∀ i < m, i * 2 < 2 ^ 64) ∧
      answer.nodes.length ≤ 2 * 2 ∧ (∀ i < 2, i * 2 < 2 ^ 64) ∧
      ((List.range 2).flatMap fun i => (s.nthPage q 2 i).nodes) = answer.nodes ∧
      z ∈ s.matching [] ∧ ∃! i, i < 2 ∧ "z" ∈ (s.nthPage q 2 i).nodes.map Node.id := by
  intro x y z s q answer
  have hlist : s.matching [] = [x, y, z] := by
    rw [matching, toList_after]
    rfl
  have hlength : answer.nodes.length = 3 := by
    rw [length_unpaged]
    show (s.matching []).length = 3
    rw [hlist]
    rfl
  have hsize : answer.nodes.length ≤ 2 ^ 64 := by omega
  have hend : answer.nodes.length ≤ 2 * 2 := by omega
  have hoffsets : ∀ i < 2, i * 2 < 2 ^ 64 := by omega
  have hz : z ∈ s.matching [] := by simp [hlist]
  obtain ⟨hpages, htiles⟩ := (pages_tile_answer [.add x, .add y, .contradict "x" "y", .add z] q).2 2 (by decide)
  obtain ⟨htiled, honce⟩ := htiles 2 hend hoffsets
  exact ⟨by decide, hsize, hpages hsize, hend, hoffsets, htiled, hz, honce z hz⟩

end Store

end EvidenceGraph
