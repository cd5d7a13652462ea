/-
# `EvidenceGraph.Proofs.Store.Relations` — looking up related nodes.

The nodes that are related to an id are found by a query with the id in its text. No id gets out of its
quotes: the text with one well-formed condition reads back as this condition and nothing else, so the answer
is a plain filter of the nodes. Of two ids each is found for the other if one is, because contradictions
hold both ways after any history.
-/
import EvidenceGraph.Proofs.Query.RoundTrip
import EvidenceGraph.Proofs.Store.Pairs
import EvidenceGraph.Store.Selection

namespace EvidenceGraph

open Query

namespace Store

/-! ## Queries with one condition -/

theorem wellFormed_single {c : Condition} (h : c.WellFormed) :
    Query.WellFormed { conditions := [c] } where
  select_ne := List.cons_ne_nil _ _
  select := by
    intro w hw
    obtain rfl := List.mem_singleton.1 hw
    exact ⟨bareWord_iff.2 (.inr ⟨by decide, by decide⟩), by decide⟩
  conditions := by
    intro d hd
    obtain rfl := List.mem_singleton.1 hd
    exact h
  orderBy := nofun
  order := fun _ => rfl

theorem write_single (c : Condition) :
    "SELECT * FROM evidence WHERE ".toList ++ c.write = Query.write { conditions := [c] } := by
  have hkeywords : "SELECT * FROM evidence WHERE ".toList =
      "SELECT ".toList ++ (writeSeparated (["*"].map String.toList) ++
        (" FROM evidence".toList ++ " WHERE ".toList)) := by decide
  have hoffset : writeOffset { conditions := [c] } = [] := if_pos rfl
  -- the keywords do not matter for how the parts are put together
  have hshape (select fields source filter cs : List Char) :
      select ++ (fields ++ (source ++ filter)) ++ cs =
        select ++ fields ++ source ++ (filter ++ cs ++ []) ++ [] ++ [] ++ [] := by simp
  rw [hkeywords, hshape]
  exact congrArg (_ ++ ·) hoffset.symm

/-- The text of a query with a single condition is the canonical one. -/
theorem conditionQuery_eq_display (c : Condition) :
    conditionQuery c = Query.display { conditions := [c] } :=
  congrArg String.ofList (write_single c)

/-- A well-formed condition is read back from its query, and nothing else is. -/
theorem parse_conditionQuery {c : Condition} (h : c.WellFormed) :
    Query.parse (conditionQuery c) = ⟨{ conditions := [c] }, []⟩ := by
  rw [conditionQuery_eq_display]
  exact parse_of_strict (parseStrict_eq_ok_iff_means.2 (means_display (wellFormed_single h)))

/-- The answer to a query with conditions only is a filter of the nodes. -/
theorem nodes_execute_conditions (s : Store) (cs : List Condition) :
    (s.execute { conditions := cs }).nodes = s.matching cs := by
  simp [execute, page, ordered]

/-! ## Related nodes -/

theorem meets_ofRelation (s : Store) (n : Node) (kind : Relation) (id : String) :
    s.meets n (.ofRelation kind id) = s.related kind n.id id := rfl

/-- The nodes found for an id are those that the relation holds of, in the order of their arrival. -/
theorem nodes_findRelated (s : Store) (kind : Relation) (id : String) :
    (s.findRelated kind id).nodes = s.toList.filter fun n => s.related kind n.id id := by
  have hparsed := parse_conditionQuery (Condition.WellFormed.relation kind id)
  rw [findRelated, ask, hparsed]
  show (s.execute { conditions := [.ofRelation kind id] }).nodes = _
  rw [nodes_execute_conditions, matching]
  simp [meetsAll, meets_ofRelation]

/-- A known id is found for another one exactly if the relation holds between the two. -/
theorem mem_findContradictions {s : Store} (h : s.Indexed) {a b : String} (hb : s.contains b) :
    (∃ n ∈ s.findContradictions a, n.id = b) ↔ s.hasContradiction b a := by
  rw [findContradictions, nodes_findRelated]
  constructor
  · rintro ⟨n, hn, rfl⟩
    exact (List.mem_filter.1 hn).2
  · intro hrelated
    obtain ⟨n, hn, rfl⟩ := h.contains_iff.1 hb
    exact ⟨n, List.mem_filter.2 ⟨hn, hrelated⟩, rfl⟩

/-- After any history and for every string as an id, the nodes found to contradict it and to support it are
exactly those that do, in the order of their arrival; and of two known ids, each is found to contradict the
other if the other is. -/
theorem related_nodes_exact (ops : List Operation) (id : String) :
    (after ops).findContradictions id =
        (after ops).toList.filter (fun n => (after ops).hasContradiction n.id id) ∧
      (after ops).findSupporting id =
        (after ops).toList.filter (fun n => (after ops).hasSupport n.id id) ∧
      ∀ a b, (after ops).contains a → (after ops).contains b →
        ((∃ n ∈ (after ops).findContradictions a, n.id = b) ↔
          ∃ n ∈ (after ops).findContradictions b, n.id = a) := by
  refine ⟨nodes_findRelated _ .contradicts id, nodes_findRelated _ .supports id, ?_⟩
  intro a b ha hb
  have hindexed := indexed_after ops
  rw [mem_findContradictions hindexed hb, mem_findContradictions hindexed ha, symmetric_after ops b a]

/-- Two nodes whose ids hold both quotes, a parenthesis, a keyword and a semicolon, and a third node: exactly each of
the two is found to contradict the other, and to support it in one direction only. -/
theorem related_nodes_exact_quotes :
    let x : Node := { id := "it's \"a\") AND ';", claimType := "claim", confidence := 1 }
    let y : Node := { id := "'", claimType := "claim", confidence := 1 }
    let z : Node := { id := "z", claimType := "claim", confidence := 1 }
    let ops : List Operation := [.add x, .contradict x.id y.id, .support y.id x.id, .add y, .add z]
    let s := after ops
    s.contains x.id ∧ s.contains y.id ∧ s.findContradictions x.id = [y] ∧ s.findContradictions y.id = [x] ∧
      ((∃ n ∈ s.findContradictions x.id, n.id = y.id) ↔ ∃ n ∈ s.findContradictions y.id, n.id = x.id) ∧
      s.findSupporting x.id = [y] ∧ s.findSupporting y.id = [] := by
  intro x y z ops s
  have hlist : s.toList = [x, y, z] := by
    rw [toList_after]
    rfl
  have hcontains (id : String) : s.contains id ↔ ∃ n ∈ [x, y, z], n.id = id := by
    rw [(indexed_after _).contains_iff, hlist]
  have hx : s.contains x.id := (hcontains x.id).2 ⟨x, by simp, rfl⟩
  have hy : s.contains y.id := (hcontains y.id).2 ⟨y, by simp, rfl⟩
  have hfound (id : String) := related_nodes_exact ops id
  refine ⟨hx, hy, ?_, ?_, (hfound x.id).2.2 x.id y.id hx hy, ?_, ?_⟩
  · rw [(hfound x.id).1, hlist]
    simp [hasContradiction_after, ops, x, y, z]
  · rw [(hfound y.id).1, hlist]
    simp [hasContradiction_after, ops, x, y, z]
  · rw [(hfound x.id).2.1, hlist]
    simp [hasSupport_after, ops, x, y, z]
  · rw [(hfound y.id).2.1, hlist]
    simp [hasSupport_after, ops, x, y, z]

end Store

end EvidenceGraph
