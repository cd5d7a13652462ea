/-
# `EvidenceGraph.Proofs.Causal.Bound` — which ids a walk with a bound finds.

A walk finds only ids that a trail within the bound leads to. It may miss some of them: an id that is met by
a long way first is not visited again, so ways on from it may be cut off at the bound although a shorter way
to it would leave room for them. This is the only reason. Every link that is cut off starts at an id at the
end of a path exactly as long as the bound, and nothing is missed as long as no shorter trail leads to such
an id.
-/
import EvidenceGraph.Proofs.Causal.Trails
import EvidenceGraph.Proofs.Store.History

namespace EvidenceGraph.Store

open Causal (Direction Edge Plan)

variable {s : Store} {root id : String} {maxDepth : Nat} {d : Direction}

/-- A stored id that a trail of at most `k` links from the root leads to. -/
def Within (s : Store) (d : Direction) (root : String) (k : Nat) (id : String) : Prop :=
  ∃ passed, s.Trail d root passed id ∧ passed.length ≤ k

/-! ## The graph of a walk -/

/-- The end of a walk from a stored id. -/
theorem walk_of_stored (maxDepth : Nat) (d : Direction) (h : s.Stored root) :
    (s.walk root maxDepth d).nodes = (Plan.seen ⟨s, maxDepth, d⟩ root).nodes ∧
      (s.walk root maxDepth d).edges = (Plan.seen ⟨s, maxDepth, d⟩ root).edges := by
  obtain ⟨n, hn⟩ := h
  rw [walk, Plan.walk, hn]
  exact ⟨rfl, rfl⟩

/-- The found ids are the visited ones that have a node. -/
theorem contains_walk_iff (h : s.Stored root) :
    (s.walk root maxDepth d).contains id ↔
      (Plan.seen ⟨s, maxDepth, d⟩ root).visited.contains id ∧ s.Stored id := by
  rw [Causal.Graph.contains, (walk_of_stored maxDepth d h).1, Plan.contains_nodes_seen]

theorem walk_of_not_stored (h : ¬ s.Stored root) : s.walk root maxDepth d = {} := by
  have hget : s.get? root = none := by
    cases hn : s.get? root with
    | none => rfl
    | some n => exact absurd ⟨n, hn⟩ h
  rw [walk, Plan.walk, hget]

/-- An edge of a walk is a link of a node that was found. -/
theorem linked_of_mem_edges {e : Edge} (he : e ∈ (s.walk root maxDepth d).edges.toList) :
    (s.walk root maxDepth d).contains e.source ∧ s.Linked d e.source e.target := by
  by_cases hroot : s.Stored root
  · rw [(walk_of_stored maxDepth d hroot).2] at he
    have hlink := Plan.recorded_seen ⟨s, maxDepth, d⟩ root e.source
    have hmem : e.target ∈ Plan.recorded (Plan.seen ⟨s, maxDepth, d⟩ root) e.source :=
      List.mem_map.2 ⟨e, List.mem_filter.2 ⟨he, by simp⟩, rfl⟩
    rw [hlink, Plan.linksOf] at hmem
    split at hmem
    · next hvisited =>
      cases hget : s.get? e.source with
      | none => simp [hget] at hmem
      | some n =>
        rw [hget] at hmem
        exact ⟨(contains_walk_iff hroot).2 ⟨hvisited, n, hget⟩, n, hget, hmem⟩
    · cases hmem
  · rw [walk_of_not_stored hroot] at he
    cases he

/-- Every link of a node that was found is an edge of the walk. -/
theorem exists_edge_of_linked {u v : String} (hu : (s.walk root maxDepth d).contains u)
    (hlink : s.Linked d u v) :
    ∃ e ∈ (s.walk root maxDepth d).edges.toList, e.source = u ∧ e.target = v := by
  by_cases hroot : s.Stored root
  · obtain ⟨n, hn, hv⟩ := hlink
    have hmem : v ∈ Plan.recorded (Plan.seen ⟨s, maxDepth, d⟩ root) u := by
      rw [Plan.recorded_seen, Plan.linksOf, if_pos ((contains_walk_iff hroot).1 hu).1, hn]
      exact hv
    obtain ⟨e, he, htarget⟩ := List.mem_map.1 hmem
    obtain ⟨he, hsource⟩ := List.mem_filter.1 he
    rw [(walk_of_stored maxDepth d hroot).2]
    exact ⟨e, he, by simpa using hsource, htarget⟩
  · rw [walk_of_not_stored hroot] at hu
    simp [Causal.Graph.contains] at hu

theorem contains_root (h : s.Stored root) : (s.walk root maxDepth d).contains root :=
  (contains_walk_iff h).2 ⟨Plan.root_visited_seen _ root, h⟩

/-- What a walk finds lies within its bound. -/
theorem within_of_contains (h : (s.walk root maxDepth d).contains id) : s.Within d root maxDepth id := by
  by_cases hroot : s.Stored root
  · obtain ⟨hvisited, hstored⟩ := (contains_walk_iff hroot).1 h
    obtain ⟨passed, htrodden, hlen⟩ :=
      (Plan.coherent_seen ⟨s, maxDepth, d⟩ root).1.visited_path id hvisited hstored
    exact ⟨passed, htrodden.1.1, hlen⟩
  · rw [walk_of_not_stored hroot] at h
    simp [Causal.Graph.contains] at h

/-- An edge that dangles although its target is stored starts at the end of a path as long as the bound,
through ids that were visited. -/
theorem trodden_of_dangling {e : Edge} (he : e ∈ (s.walk root maxDepth d).dangling)
    (htarget : s.Stored e.target) :
    ∃ passed, Plan.Trodden ⟨s, maxDepth, d⟩ root (Plan.seen ⟨s, maxDepth, d⟩ root) passed e.source ∧
      passed.length = maxDepth := by
  obtain ⟨he, hmissing⟩ := List.mem_filter.1 he
  by_cases hroot : s.Stored root
  · rw [(walk_of_stored maxDepth d hroot).2] at he
    refine (Plan.coherent_seen ⟨s, maxDepth, d⟩ root).2 e he htarget ?_
    rw [Bool.eq_false_iff]
    intro hvisited
    rw [(contains_walk_iff hroot).2 ⟨hvisited, htarget⟩] at hmissing
    cases hmissing
  · rw [walk_of_not_stored hroot] at he
    cases he

theorem path_of_dangling {e : Edge} (he : e ∈ (s.walk root maxDepth d).dangling)
    (htarget : s.Stored e.target) : ∃ passed, s.Path d root passed e.source ∧ passed.length = maxDepth := by
  obtain ⟨passed, htrodden, hlen⟩ := trodden_of_dangling he htarget
  exact ⟨passed, htrodden.1, hlen⟩

/-! ## What is found within the bound -/

/-- If links are cut off only behind ids that no trail of less than `k` links leads to, nothing that a trail
of at most `k` links leads to is missed. -/
theorem contains_of_trail {k : Nat} {passed : List String}
    (hcut : ∀ e ∈ (s.walk root maxDepth d).dangling, s.Stored e.target →
      ∀ passed, s.Trail d root passed e.source → k ≤ passed.length)
    (htrail : s.Trail d root passed id) (hlen : passed.length ≤ k) :
    (s.walk root maxDepth d).contains id := by
  induction htrail with
  | start hroot => exact contains_root hroot
  | @step passed u v hu hlink hstored ih =>
    have hshorter : passed.length < k := hlen
    obtain ⟨e, he, rfl, rfl⟩ := exists_edge_of_linked (ih (Nat.le_of_lt hshorter)) hlink
    cases hfound : (s.walk root maxDepth d).contains e.target with
    | true => rfl
    | false =>
      -- the edge dangles, so its source lies no nearer than `k` links
      have hdangling : e ∈ (s.walk root maxDepth d).dangling :=
        List.mem_filter.2 ⟨he, by rw [hfound]; rfl⟩
      exact absurd (hcut e hdangling hstored passed hu) (Nat.not_le.2 hshorter)

/-- A walk finds only ids within its bound. It finds all of them exactly if no dangling edge with a stored
target starts at an id that a trail shorter than the bound leads to; and it does so in every store where an
id at the end of a path as long as the bound has no shorter trail. -/
theorem walk_finds_within (s : Store) (root : String) (maxDepth : Nat) (d : Direction) :
    (∀ id, (s.walk root maxDepth d).contains id → s.Within d root maxDepth id) ∧
      ((∀ id, s.Within d root maxDepth id → (s.walk root maxDepth d).contains id) ↔
        ∀ e ∈ (s.walk root maxDepth d).dangling, s.Stored e.target →
          ∀ passed, s.Trail d root passed e.source → maxDepth ≤ passed.length) ∧
      ((∀ id passed path, s.Trail d root passed id → s.Path d root path id → path.length = maxDepth →
          maxDepth ≤ passed.length) →
        ∀ id, (s.walk root maxDepth d).contains id ↔ s.Within d root maxDepth id) := by
  refine ⟨fun _ => within_of_contains, ⟨?_, ?_⟩, ?_⟩
  · intro hall e he htarget passed htrail
    obtain ⟨hedge, hmissing⟩ := List.mem_filter.1 he
    rw [← Nat.not_lt]
    intro hshort
    have hwithin : s.Within d root maxDepth e.target :=
      ⟨e.source :: passed, .step htrail (linked_of_mem_edges hedge).2 htarget, hshort⟩
    rw [hall e.target hwithin] at hmissing
    cases hmissing
  · rintro hcut id ⟨passed, htrail, hlen⟩
    exact contains_of_trail hcut htrail hlen
  · intro hlevel id
    refine ⟨within_of_contains, ?_⟩
    rintro ⟨passed, htrail, hlen⟩
    refine contains_of_trail ?_ htrail hlen
    intro e he htarget shorter hshorter
    obtain ⟨path, hpath, hbound⟩ := path_of_dangling he htarget
    exact hlevel e.source shorter path hshorter hpath hbound

/-- If each link leads at most one level down, a trail is no shorter than the levels between its ends. -/
theorem Trail.level_le {level : String → Nat} (hlevel : ∀ u v, s.Linked d u v → level v ≤ level u + 1)
    {passed : List String} (h : s.Trail d root passed id) : level id ≤ level root + passed.length := by
  induction h with
  | start => exact Nat.le_refl _
  | @step passed u v _ hlink _ ih =>
    have hone := hlevel u v hlink
    rw [List.length_cons]
    omega

/-- A link is one of the nodes that the store keeps. -/
theorem Keeps.exists_of_linked {nodes : List Node} (h : s.Keeps nodes) {u v : String} (hlink : s.Linked d u v) :
    ∃ n ∈ nodes, n.id = u ∧ v ∈ d.neighbours n := by
  obtain ⟨n, hn, hv⟩ := hlink
  rw [h.get?_eq] at hn
  have hid : n.id = u := by simpa using List.find?_some hn
  exact ⟨n, List.mem_of_find?_eq_some hn, hid, hv⟩

/-- A node with the given effects. -/
def causing (id : String) (children : List String) : Node :=
  { id, claimType := "claim", confidence := 1, children }

/-- Nodes among which `b` can be reached from `r` at once, or by a detour over `a` and `x`. -/
def detourNodes : List Node :=
  [causing "r" ["a", "b"], causing "a" ["x"], causing "x" ["b"], causing "b" ["c"], causing "c" []]

/-- A store of these nodes. -/
def detour : Store := ofNodes detourNodes

theorem keeps_detour : detour.Keeps detourNodes := keeps_ofNodes _

/-- How many links at least lead from `r` to an id of this store. -/
def detourLevel (id : String) : Nat := if id = "r" then 0 else if id ∈ ["a", "b"] then 1 else 2

theorem detourLevel_le {u v : String} (h : detour.Linked .downstream u v) : detourLevel v ≤ detourLevel u + 1 := by
  have hone : ∀ n ∈ detourNodes, ∀ v ∈ n.children, detourLevel v ≤ detourLevel n.id + 1 := by decide
  obtain ⟨n, hn, rfl, hv⟩ := keeps_detour.exists_of_linked h
  exact hone n hn v hv

/-- The trails of two links lead over `a` to `x` and over `b` to `c`. -/
theorem detourLevel_of_trail {passed : List String} (h : detour.Trail .downstream "r" passed id)
    (hlength : passed.length = 2) : detourLevel id = 2 := by
  have htwo : ∀ m ∈ detourNodes, m.id = "r" → ∀ u ∈ m.children,
      ∀ n ∈ detourNodes, n.id = u → ∀ v ∈ n.children, detourLevel v = 2 := by decide
  rcases h with _ | ⟨_ | ⟨_ | _, hfirst, _⟩, hsecond, _⟩
  · cases hlength
  · cases hlength
  · obtain ⟨m, hm, hr, hu⟩ := keeps_detour.exists_of_linked hfirst
    obtain ⟨n, hn, hn', hv⟩ := keeps_detour.exists_of_linked hsecond
    exact htwo m hm hr _ hu n hn hn' id hv
  · cases hlength

/-- With the bound two nothing is missed in this store, as every trail to the end of a path of two links has at
least two links. -/
theorem walk_finds_within_detour :
    (∀ id passed path, detour.Trail .downstream "r" passed id → detour.Path .downstream "r" path id →
      path.length = 2 → 2 ≤ passed.length) ∧
    (∀ id, (detour.walk "r" 2 .downstream).contains id ↔ detour.Within .downstream "r" 2 id) ∧
      detour.Within .downstream "r" 2 "c" := by
  have hends (id : String) (passed path : List String) (htrail : detour.Trail .downstream "r" passed id)
      (hpath : detour.Path .downstream "r" path id) (hlength : path.length = 2) : 2 ≤ passed.length := by
    have hle := htrail.level_le fun u v => detourLevel_le
    rw [detourLevel_of_trail hpath.1 hlength] at hle
    simpa [detourLevel] using hle
  have hexact := (walk_finds_within detour "r" 2 .downstream).2.2 hends
  refine ⟨hends, hexact, (hexact "c").1 ?_⟩
  simp [walk, Plan.walk, Plan.run_start, Plan.visit, keeps_detour.get?_eq, detourNodes, causing,
    Causal.Graph.contains]

/-- Two links lead from `r` to `c`, and a walk with the bound two finds it; with the bound three the walk
comes to `b` by the detour, and misses `c`. -/
theorem walk_misses_behind_detour :
    detour.Within .downstream "r" 2 "c" ∧ (detour.walk "r" 2 .downstream).contains "c" = true ∧
      (detour.walk "r" 3 .downstream).contains "c" = false := by
  have hget (id : String) : detour.get? id = detourNodes.find? fun n => n.id = id := keeps_detour.get?_eq id
  refine ⟨?_, ?_, ?_⟩
  · have hr : detour.get? "r" = some (causing "r" ["a", "b"]) := hget "r"
    have hb : detour.get? "b" = some (causing "b" ["c"]) := hget "b"
    have hc : detour.get? "c" = some (causing "c" []) := hget "c"
    have htrail : detour.Trail .downstream "r" ["b", "r"] "c" :=
      .step (.step (.start ⟨_, hr⟩) ⟨_, hr, by simp [Direction.neighbours, causing]⟩ ⟨_, hb⟩)
        ⟨_, hb, by simp [Direction.neighbours, causing]⟩ ⟨_, hc⟩
    exact ⟨_, htrail, Nat.le_refl 2⟩
  · simp [walk, Plan.walk, Plan.run_start, Plan.visit, hget, detourNodes, causing, Causal.Graph.contains]
  · simp [walk, Plan.walk, Plan.run_start, Plan.visit, hget, detourNodes, causing, Causal.Graph.contains]

end EvidenceGraph.Store
