/-
# `EvidenceGraph.Proofs.Causal.Shape` — what the graph of a walk looks like.

A walk finds its root, and finds nodes as the store has them. Every node that it finds is expanded once, also
at the bound: the edges from it are its links, all of them and in their order, and no other id has edges. A
way along edges leads from the root to every node within the bound, and the edge by which a node was found
stands before the edges that start at it.

That edges stand in this order is kept step by step: an id is visited right after an edge to it was
recorded, and no edge starts at an id before it is visited.
-/
import EvidenceGraph.Proofs.Causal.Bound
import Mathlib.Algebra.BigOperators.Group.Finset.Basic
import Mathlib.Algebra.GroupWithZero.Nat

namespace EvidenceGraph.Causal

/-- A way from the root to an id along recorded edges, with the ids that were passed before, the last one
first. -/
inductive Graph.Route (g : Graph) (root : String) : List String → String → Prop
  | start : Route g root [] root
  | step {passed : List String} {e : Edge} :
      Route g root passed e.source → e ∈ g.edges.toList → Route g root (e.source :: passed) e.target

/-- An edge to the id stands before all edges from it. -/
def FoundFirst (edges : Array Edge) (id : String) : Prop :=
  ∃ (i : Nat) (e : Edge), edges[i]? = some e ∧ e.target = id ∧
    ∀ (j : Nat) (later : Edge), edges[j]? = some later → later.source = id → i < j

theorem FoundFirst.push {edges : Array Edge} {id : String} (h : FoundFirst edges id) (e : Edge) :
    FoundFirst (edges.push e) id := by
  obtain ⟨i, found, hi, htarget, hfirst⟩ := h
  have hlt : i < edges.size := (Array.getElem?_eq_some_iff.1 hi).1
  refine ⟨i, found, ?_, htarget, ?_⟩
  · rw [Array.getElem?_push, if_neg (Nat.ne_of_lt hlt), hi]
  · intro j later hj hsource
    rw [Array.getElem?_push] at hj
    split at hj
    · next hlast => exact hlast ▸ hlt
    · exact hfirst j later hj hsource

/-- An edge to an id that no edge starts at. -/
theorem foundFirst_push_self {edges : Array Edge} {e : Edge} (hnone : ∀ f ∈ edges, f.source ≠ e.target)
    (hother : e.source ≠ e.target) : FoundFirst (edges.push e) e.target := by
  have hnone' : ∀ f ∈ edges.push e, f.source ≠ e.target := by
    intro f hf
    rcases Array.mem_push.1 hf with hf | rfl
    · exact hnone f hf
    · exact hother
  exact ⟨edges.size, e, by simp, rfl, fun j f hj hsource =>
    absurd hsource (hnone' f (Array.mem_of_getElem? hj))⟩

namespace Plan

variable {plan : Plan} {root id : String}

/-! ## The order of the edges -/

/-- All edges are of the kind that the walk follows, and a visited id has an edge to it before those from
it. -/
structure Charted (plan : Plan) (root : String) (p : Progress) : Prop where
  relationship_eq : ∀ e ∈ p.edges, e.relationship = plan.direction.relationship
  found_first : ∀ id, p.visited.contains id → id ≠ root → FoundFirst p.edges id

/-- Nothing is visited on entering an id but this id. -/
theorem visited_of_enter {depth : Nat} {p : Progress} {v : String}
    (h : (plan.enter id depth p).1.visited.contains v) :
    p.visited.contains v ∨ p.visited.contains v = false ∧ id = v := by
  rcases plan.enter_cases id depth p with ⟨_, he⟩ | ⟨⟨_, hnew⟩, ⟨_, he⟩ | ⟨n, _, he⟩⟩ <;> rw [he] at h
  · exact .inl h
  -- with or without a node, the id alone was inserted
  all_goals
    rw [Std.HashSet.contains_insert, Bool.or_eq_true, beq_iff_eq] at h
    rcases h with rfl | hold
    · exact .inr ⟨hnew, rfl⟩
    · exact .inl hold

/-- No edge starts at an id that was not visited. -/
theorem Coherent.source_ne {s : State} (h : plan.Coherent root s)
    (hnew : s.progress.visited.contains id = false) : ∀ e ∈ s.progress.edges, e.source ≠ id := by
  intro e he hsource
  have hmem : e.target ∈ recorded s.progress id :=
    List.mem_map.2 ⟨e, List.mem_filter.2 ⟨Array.mem_toList_iff.2 he, by simpa using hsource⟩, rfl⟩
  rw [(h.unvisited hnew).2] at hmem
  cases hmem

/-- A step keeps the edges in order. -/
theorem Charted.step {s next : State} (h : plan.Charted root s.progress) (hs : plan.Coherent root s)
    (hstep : plan.step s = .running next) : plan.Charted root next.progress := by
  match s with
  | ⟨[], p⟩ => cases hstep
  | ⟨⟨id, depth, []⟩ :: below, p⟩ =>
    cases hstep
    exact h
  | ⟨⟨id, depth, target :: more⟩ :: below, p⟩ =>
    rw [step_follow] at hstep
    injection hstep with hnext
    rw [← hnext]
    constructor
    · intro e he
      rw [edges_enter, Plan.follow, Array.mem_push] at he
      rcases he with he | rfl
      · exact h.relationship_eq e he
      · rfl
    · intro v hv hroot
      rw [edges_enter]
      rcases visited_of_enter hv with hold | ⟨hnew, rfl⟩
      · exact (h.found_first v hold hroot).push _
      · -- the target was met just now: the edge to it is the last one, and none starts at it so far
        have hid : p.visited.contains id := hs.stack_visited id List.mem_cons_self
        have hother : id ≠ target := by
          rintro rfl
          rw [show p.visited.contains id = false from hnew] at hid
          cases hid
        exact foundFirst_push_self (hs.source_ne hnew) hother

theorem charted_start (plan : Plan) (root : String) : plan.Charted root (plan.start root).progress := by
  have hnone : (plan.start root).progress.edges = #[] := edges_enter plan root 0 {}
  constructor
  · intro e he
    rw [hnone] at he
    exact absurd he (Array.not_mem_empty e)
  · intro v hv hroot
    have hentered : (plan.enter root 0 {}).1.visited.contains v := hv
    rcases visited_of_enter hentered with hold | ⟨_, rfl⟩
    · simp at hold
    · exact absurd rfl hroot

theorem Passes.charted {s : State} (h : plan.Passes root s) : plan.Charted root s.progress := by
  induction h with
  | start => exact plan.charted_start root
  | step h hstep ih => exact ih.step h.coherent.1 hstep

/-- A walk ends with its edges in order. -/
theorem charted_seen (plan : Plan) (root : String) : plan.Charted root (plan.seen root) :=
  (plan.passes_seen root).charted

end Plan

end EvidenceGraph.Causal

namespace EvidenceGraph.Store

open Causal (Direction Edge FoundFirst Graph Plan)

variable {s : Store} {root id : String} {maxDepth : Nat} {d : Direction}

/-! ## Ways along edges -/

/-- A trail through visited ids is a way along recorded edges, because every link of a visited node became
an edge. -/
theorem route_of_trail {passed : List String} (hroot : s.Stored root) (htrail : s.Trail d root passed id)
    (hvisited : ∀ u ∈ passed, (Plan.seen ⟨s, maxDepth, d⟩ root).visited.contains u) :
    (s.walk root maxDepth d).Route root passed id := by
  induction htrail with
  | start => exact .start
  | @step passed u v _ hlink _ ih =>
    rw [List.forall_mem_cons] at hvisited
    have hstored : s.Stored u := hlink.imp fun _ h => h.1
    have hfound : (s.walk root maxDepth d).contains u := (contains_walk_iff hroot).2 ⟨hvisited.1, hstored⟩
    obtain ⟨e, he, rfl, rfl⟩ := exists_edge_of_linked hfound hlink
    exact .step (ih hvisited.2) he

/-- A way along edges leads to every node within the bound. -/
theorem exists_route (hroot : s.Stored root) (h : (s.walk root maxDepth d).contains id) :
    ∃ passed, (s.walk root maxDepth d).Route root passed id ∧ passed.length ≤ maxDepth := by
  obtain ⟨hvisited, hstored⟩ := (contains_walk_iff hroot).1 h
  obtain ⟨passed, htrodden, hlen⟩ :=
    (Plan.coherent_seen ⟨s, maxDepth, d⟩ root).1.visited_path id hvisited hstored
  exact ⟨passed, route_of_trail hroot htrodden.1.1 htrodden.2, hlen⟩

/-! ## The edges from one node, and all edges -/

theorem getElem?_nodes_walk (hroot : s.Stored root) (u : String) :
    (s.walk root maxDepth d).nodes[u]? =
      if (Plan.seen ⟨s, maxDepth, d⟩ root).visited.contains u then s.get? u else none := by
  rw [(walk_of_stored maxDepth d hroot).1]
  exact (Plan.coherent_seen ⟨s, maxDepth, d⟩ root).1.nodes_eq u

/-- The edges from a node are its links in their order. -/
theorem edges_from_eq (hroot : s.Stored root) {u : String} {n : Node}
    (h : (s.walk root maxDepth d).nodes[u]? = some n) :
    ((s.walk root maxDepth d).edges.toList.filter fun e => e.source = u) =
      (d.neighbours n).map fun v => ⟨u, v, d.relationship⟩ := by
  rw [getElem?_nodes_walk hroot, Option.ite_none_right_eq_some] at h
  have htargets : Plan.recorded (Plan.seen ⟨s, maxDepth, d⟩ root) u = d.neighbours n := by
    rw [Plan.recorded_seen, Plan.linksOf, if_pos h.1, h.2]
    rfl
  have hedge : ∀ e ∈ (Plan.seen ⟨s, maxDepth, d⟩ root).edges.toList.filter (fun e => e.source = u),
      (⟨u, e.target, d.relationship⟩ : Edge) = e := by
    intro e he
    obtain ⟨he, hsource⟩ := List.mem_filter.1 he
    have hkind := (Plan.charted_seen ⟨s, maxDepth, d⟩ root).relationship_eq e (Array.mem_toList_iff.1 he)
    obtain rfl : e.source = u := by simpa using hsource
    rw [← hkind]
  rw [(walk_of_stored maxDepth d hroot).2, ← htargets, Plan.recorded, List.map_map]
  exact ((List.map_congr_left hedge).trans (List.map_id _)).symm

/-- There are as many edges as the found nodes have links. -/
theorem size_edges_eq (hroot : s.Stored root) :
    (s.walk root maxDepth d).edges.size =
      ((s.walk root maxDepth d).nodes.toList.map fun entry => (d.neighbours entry.2).length).sum := by
  let g := s.walk root maxDepth d
  let sources : List String := g.edges.toList.map Edge.source
  have hfrom : ∀ entry ∈ g.nodes.toList, (d.neighbours entry.2).length = sources.count entry.1 := by
    rintro ⟨u, n⟩ hentry
    have hedges := edges_from_eq hroot (Std.TreeMap.mem_toList_iff_getElem?_eq_some.1 hentry)
    have hcount : sources.count u = (g.edges.toList.filter fun e => e.source = u).length := by
      rw [List.count, List.countP_map, List.countP_eq_length_filter]
      rfl
    rw [hcount, hedges, List.length_map]
  have hsources : ∀ u ∈ (sources : Multiset String), u ∈ g.nodes.keys.toFinset := by
    intro u hu
    obtain ⟨e, he, rfl⟩ := List.mem_map.1 (Multiset.mem_coe.1 hu)
    rw [List.mem_toFinset, Std.TreeMap.mem_keys]
    exact (linked_of_mem_edges he).1
  calc g.edges.size
      = sources.length := by simp [sources]
    _ = (g.nodes.keys.map fun u => sources.count u).sum := by
        have hcount := Multiset.sum_count_eq_card hsources
        rw [List.sum_toFinset _ Std.TreeMap.nodup_keys, Multiset.coe_card] at hcount
        simpa only [Multiset.coe_count] using hcount.symm
    _ = (g.nodes.toList.map fun entry => sources.count entry.1).sum := by
        rw [← Std.TreeMap.map_fst_toList_eq_keys, List.map_map]
        rfl
    _ = (g.nodes.toList.map fun entry => (d.neighbours entry.2).length).sum := by
        rw [List.map_congr_left hfrom]

/-! ## The shape of a walk -/

/-- A graph as a walk from a root leaves it. -/
structure Charts (s : Store) (root : String) (maxDepth : Nat) (d : Direction) (g : Graph) : Prop where
  root_eq : g.root = s.get? root
  root_mem : g.contains root
  node_eq : ∀ u n, g.nodes[u]? = some n → s.get? u = some n
  edges_from : ∀ u n, g.nodes[u]? = some n →
    (g.edges.toList.filter fun e => e.source = u) = (d.neighbours n).map fun v => ⟨u, v, d.relationship⟩
  source_mem : ∀ e ∈ g.edges, g.contains e.source
  size_edges : g.edges.size = (g.nodes.toList.map fun entry => (d.neighbours entry.2).length).sum
  route : ∀ u, g.contains u → ∃ passed, g.Route root passed u ∧ passed.length ≤ maxDepth
  found_first : ∀ u, g.contains u → u ≠ root → FoundFirst g.edges u

/-- The edges from an id that was found are the links of its node. -/
theorem Charts.edges_from_found {g : Graph} (h : s.Charts root maxDepth d g) {u : String} {n : Node}
    (hu : g.contains u) (hn : s.get? u = some n) :
    (g.edges.toList.filter fun e => e.source = u) = (d.neighbours n).map fun v => ⟨u, v, d.relationship⟩ := by
  obtain ⟨m, hm⟩ := Option.isSome_iff_exists.1 (Std.TreeMap.isSome_getElem?_eq_contains.trans hu)
  obtain rfl : n = m := Option.some.inj (hn.symm.trans (h.node_eq u m hm))
  exact h.edges_from u n hm

/-- From a stored id a walk finds its root and nodes as the store has them; every found node is expanded
once, with all its links in their order, and nothing else is; recorded edges lead to every found node within
the bound; and every found node but the root has an edge to it before all edges from it. -/
theorem walk_charts (s : Store) (root : String) (maxDepth : Nat) (d : Direction) (h : s.Stored root) :
    s.Charts root maxDepth d (s.walk root maxDepth d) where
  root_eq := by
    obtain ⟨n, hn⟩ := h
    rw [walk, Plan.walk, hn]
  root_mem := contains_root h
  node_eq u n hn := by
    rw [getElem?_nodes_walk h, Option.ite_none_right_eq_some] at hn
    exact hn.2
  edges_from _ _ hn := edges_from_eq h hn
  source_mem e he := (linked_of_mem_edges (Array.mem_toList_iff.2 he)).1
  size_edges := size_edges_eq h
  route _ hu := exists_route h hu
  found_first u hu hroot := by
    rw [(walk_of_stored maxDepth d h).2]
    exact (Plan.charted_seen ⟨s, maxDepth, d⟩ root).found_first u ((contains_walk_iff h).1 hu).1 hroot

/-- A root with a link to itself and two to `a`, which leads back to it, to an id without a node, and to `b` beyond
the bound. Both ways the edges from `a` are its links to effects and then those to its causes. -/
theorem walk_charts_knot :
    let r := causing "r" ["a", "r", "a"]
    let a : Node := { causing "a" ["r", "missing", "b"] with parents := ["r", "lost"] }
    let s := ofNodes [r, a, causing "b" ["a"]]
    let down := s.walk "r" 1 .downstream
    let around := s.walk "r" 1 .both
    s.Stored "r" ∧ s.Charts "r" 1 .downstream down ∧ s.Charts "r" 1 .both around ∧
      (down.edges.toList.filter fun e => e.source = "r") = ["a", "r", "a"].map (⟨"r", ·, .causes⟩) ∧
      (down.edges.toList.filter fun e => e.source = "a") = ["r", "missing", "b"].map (⟨"a", ·, .causes⟩) ∧
      (around.edges.toList.filter fun e => e.source = "a") =
        ["r", "missing", "b", "r", "lost"].map (⟨"a", ·, .relatedTo⟩) ∧
      down.contains "b" = false := by
  intro r a s down around
  have hget (id : String) : s.get? id = [r, a, causing "b" ["a"]].find? fun n => n.id = id :=
    (keeps_ofNodes _).get?_eq id
  have hr : s.get? "r" = some r := hget "r"
  have ha : s.get? "a" = some a := hget "a"
  have hdown : s.Charts "r" 1 .downstream down := walk_charts s "r" 1 .downstream ⟨r, hr⟩
  have haround : s.Charts "r" 1 .both around := walk_charts s "r" 1 .both ⟨r, hr⟩
  have hfound : down.contains "a" ∧ around.contains "a" ∧ down.contains "b" = false := by
    simp [down, around, walk, Plan.walk, Plan.run_start, Plan.visit, hget, r, a, causing, Graph.contains]
  exact ⟨⟨r, hr⟩, hdown, haround, hdown.edges_from_found hdown.root_mem hr, hdown.edges_from_found hfound.1 ha,
    haround.edges_from_found hfound.2.1 ha, hfound.2.2⟩

end EvidenceGraph.Store
