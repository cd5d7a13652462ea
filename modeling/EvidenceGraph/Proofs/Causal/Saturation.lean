/-
# `EvidenceGraph.Proofs.Causal.Saturation` — bounds that a walk does not notice.

A link that is cut off starts at the end of a simple path as long as the bound, and its target is not on it.
A store with `n` nodes has no such path if the bound is `n - 1` or more, for there is no room for the target.
So from there on a walk finds everything that can be reached from its root, and links dangle only for want
of a node.

Two walks with such bounds even take the same steps. The greater one may mark ids as visited that the other
refuses because of their depth, but by then every stored id was visited, so what it marks has no node and
leaves no trace in the graph (`Alike`).
-/
import EvidenceGraph.Proofs.Causal.Shape
import Mathlib.Data.List.Perm.Subperm

namespace EvidenceGraph.Store

open Causal (Direction Edge Graph Plan)

variable {s : Store} {d : Direction} {root id : String} {maxDepth : Nat}

/-- Distinct stored ids are not more than the nodes. -/
theorem Indexed.length_le_size (h : s.Indexed) {ids : List String} (hids : ids.Nodup)
    (hstored : ∀ id ∈ ids, s.Stored id) : ids.length ≤ s.size := by
  have hsubset : ids ⊆ s.toList.map Node.id := by
    intro id hid
    obtain ⟨n, hn⟩ := hstored id hid
    rw [h.get?_eq] at hn
    exact List.mem_map.2 ⟨n, List.mem_of_find?_eq_some hn, by simpa using List.find?_some hn⟩
  calc ids.length
      ≤ (s.toList.map Node.id).length := (List.subperm_of_subset hids hsubset).length_le
    _ = s.size := by simp [toList, size]

end EvidenceGraph.Store

namespace EvidenceGraph.Causal.Plan

variable {plan : Plan} {s : Store} {d : Direction} {root id : String} {k k' depth : Nat}

/-! ## Full stacks -/

/-- Once there are as many frames as nodes in the store, every stored id was visited. -/
theorem Coherent.visited_of_full {stack : List Frame} {p : Progress} (h : plan.Coherent root ⟨stack, p⟩)
    (hindexed : plan.store.Indexed) (hfull : plan.store.size ≤ stack.length) (hid : plan.store.Stored id) :
    p.visited.contains id := by
  refine h.stack_visited id (Decidable.by_contra fun hnew => ?_)
  have hroom := hindexed.length_le_size (List.nodup_cons.2 ⟨hnew, h.stacked.nodup⟩)
    (List.forall_mem_cons.2 ⟨hid, h.stacked.stored⟩)
  rw [List.length_cons, frameIds, List.length_map] at hroom
  exact Nat.lt_irrefl _ (Nat.lt_of_lt_of_le hroom hfull)

/-! ## Alike states -/

/-- What was seen differs only in visited ids that have no node. -/
structure Alike (s : Store) (p q : Progress) : Prop where
  nodes_eq : p.nodes = q.nodes
  edges_eq : p.edges = q.edges
  visited_eq : ∀ id, s.Stored id → p.visited.contains id = q.visited.contains id

/-- Entering an id without a node leaves no trace. -/
theorem enter_of_not_stored (plan : Plan) (h : plan.store.get? id = none) (depth : Nat) (p : Progress) :
    (plan.enter id depth p).2 = none ∧ Alike plan.store (plan.enter id depth p).1 p := by
  rcases plan.enter_cases id depth p with ⟨_, he⟩ | ⟨_, ⟨_, he⟩ | ⟨n, hn, _⟩⟩
  · rw [he]
    exact ⟨rfl, rfl, rfl, fun _ _ => rfl⟩
  · rw [he]
    refine ⟨rfl, rfl, rfl, ?_⟩
    rintro v ⟨n, hn⟩
    have hne : id ≠ v := by
      rintro rfl
      rw [h] at hn
      cases hn
    simp [hne]
  · rw [h] at hn
    cases hn

/-- A visited id is refused. -/
theorem enter_of_visited (plan : Plan) {p : Progress} (h : p.visited.contains id) (depth : Nat) :
    plan.enter id depth p = (p, none) := by
  rw [enter, if_pos (.inr h)]

/-- A new id with a node is entered within the bound. -/
theorem enter_of_new (plan : Plan) {p : Progress} {n : Node} (h : plan.store.get? id = some n)
    (hnew : p.visited.contains id = false) (hdepth : depth ≤ plan.maxDepth) :
    plan.enter id depth p =
      ({ p with visited := p.visited.insert id, nodes := p.nodes.insert id n },
        some ⟨id, depth, plan.direction.neighbours n⟩) := by
  rw [enter, if_neg (by simp [hnew, hdepth]), h]

/-- Two bounds make no difference on entering an id if it was visited before it lies too deep. -/
theorem Alike.enter {p q : Progress} (h : Alike s p q)
    (hk : s.Stored id → k < depth → p.visited.contains id)
    (hk' : s.Stored id → k' < depth → p.visited.contains id) :
    (enter ⟨s, k, d⟩ id depth p).2 = (enter ⟨s, k', d⟩ id depth q).2 ∧
      Alike s (enter ⟨s, k, d⟩ id depth p).1 (enter ⟨s, k', d⟩ id depth q).1 := by
  cases hget : s.get? id with
  | none =>
    -- one walk may refuse the id and the other mark it, but neither shows that
    obtain ⟨hp, hp'⟩ := enter_of_not_stored ⟨s, k, d⟩ hget depth p
    obtain ⟨hq, hq'⟩ := enter_of_not_stored ⟨s, k', d⟩ hget depth q
    refine ⟨hp.trans hq.symm, ?_, ?_, ?_⟩
    · rw [hp'.nodes_eq, hq'.nodes_eq, h.nodes_eq]
    · rw [hp'.edges_eq, hq'.edges_eq, h.edges_eq]
    · intro v hv
      rw [hp'.visited_eq v hv, hq'.visited_eq v hv, h.visited_eq v hv]
  | some n =>
    have hstored : s.Stored id := ⟨n, hget⟩
    have hsame := h.visited_eq id hstored
    cases hvisited : p.visited.contains id with
    | true =>
      rw [enter_of_visited _ hvisited, enter_of_visited _ (hsame ▸ hvisited)]
      exact ⟨rfl, h⟩
    | false =>
      have hdepth {b : Nat} (hb : s.Stored id → b < depth → p.visited.contains id) : depth ≤ b := by
        rw [← Nat.not_lt]
        intro hlt
        rw [hb hstored hlt] at hvisited
        cases hvisited
      rw [enter_of_new ⟨s, k, d⟩ hget hvisited (hdepth hk),
        enter_of_new ⟨s, k', d⟩ hget (hsame ▸ hvisited) (hdepth hk')]
      refine ⟨rfl, ?_, h.edges_eq, ?_⟩
      · rw [h.nodes_eq]
      · intro v hv
        simp [h.visited_eq v hv]

/-! ## Alike runs -/

/-- Under bounds that leave room for every stored id, alike states have alike next ones. -/
theorem Alike.step (hindexed : s.Indexed) (hk : s.size ≤ k + 1) (hk' : s.size ≤ k' + 1) {st st' next : State}
    (hst : Coherent ⟨s, k, d⟩ root st) (hstack : st.stack = st'.stack)
    (h : Alike s st.progress st'.progress) (hstep : step ⟨s, k, d⟩ st = .running next) :
    ∃ next', step ⟨s, k', d⟩ st' = .running next' ∧ next.stack = next'.stack ∧
      Alike s next.progress next'.progress := by
  match st, st' with
  | ⟨[], p⟩, _ => cases hstep
  | ⟨⟨id, depth, []⟩ :: below, p⟩, ⟨stack, q⟩ =>
    cases hstack
    cases hstep
    exact ⟨_, rfl, rfl, h⟩
  | ⟨⟨id, depth, target :: more⟩ :: below, p⟩, ⟨stack, q⟩ =>
    cases hstack
    obtain ⟨_, hdepth, _, _⟩ := hst.top
    dsimp only at hdepth h
    -- a target that is too deep for a bound lies above a frame for every stored id
    have hfull {b : Nat} (hb : s.size ≤ b + 1) (htarget : s.Stored target) (hdeep : b < depth + 1) :
        (follow ⟨s, k, d⟩ id target p).visited.contains target := by
      refine hst.record.visited_of_full hindexed ?_ htarget
      show s.size ≤ below.length + 1
      omega
    have hfollow : Alike s (follow ⟨s, k, d⟩ id target p) (follow ⟨s, k', d⟩ id target q) :=
      ⟨h.nodes_eq, by simp [follow, h.edges_eq], h.visited_eq⟩
    obtain ⟨hframe, hentered⟩ := Alike.enter hfollow (hfull hk) (hfull hk')
    rw [step_follow] at hstep ⊢
    cases hstep
    exact ⟨_, rfl, congrArg (fun frame => frame.toList ++ ⟨id, depth, more⟩ :: below) hframe, hentered⟩

/-- Under bounds that leave room for every stored id, walks from alike states see alike things. -/
theorem Alike.run (hindexed : s.Indexed) (hk : s.size ≤ k + 1) (hk' : s.size ≤ k' + 1) {st st' : State}
    (hst : Passes ⟨s, k, d⟩ root st) (hstack : st.stack = st'.stack)
    (h : Alike s st.progress st'.progress) : Alike s (run ⟨s, k, d⟩ st) (run ⟨s, k', d⟩ st') := by
  fun_induction Plan.run ⟨s, k, d⟩ st generalizing st' with
  | case1 st p hfinished =>
    obtain rfl := eq_of_finished hfinished
    obtain ⟨stack, q⟩ := st'
    cases hstack
    rw [run_nil]
    exact h
  | case2 st next hstep ih =>
    obtain ⟨next', hstep', hstack', h'⟩ := Alike.step hindexed hk hk' hst.coherent.1 hstack h hstep
    rw [run_of_running hstep']
    exact ih (hst.step hstep) hstack' h'

/-- Under bounds that leave room for every stored id, walks see alike things. -/
theorem alike_seen (hindexed : s.Indexed) (hk : s.size ≤ k + 1) (hk' : s.size ≤ k' + 1) (d : Direction)
    (root : String) : Alike s (seen ⟨s, k, d⟩ root) (seen ⟨s, k', d⟩ root) := by
  have hnothing : Alike s {} {} := ⟨rfl, rfl, fun _ _ => rfl⟩
  have hroot : (enter ⟨s, k, d⟩ root 0 {}).2 = (enter ⟨s, k', d⟩ root 0 {}).2 ∧
      Alike s (enter ⟨s, k, d⟩ root 0 {}).1 (enter ⟨s, k', d⟩ root 0 {}).1 :=
    hnothing.enter (fun _ h => absurd h (Nat.not_lt_zero k)) fun _ h => absurd h (Nat.not_lt_zero k')
  exact Alike.run hindexed hk hk' .start (congrArg Option.toList hroot.1) hroot.2

end EvidenceGraph.Causal.Plan

namespace EvidenceGraph.Store

open Causal (Direction Edge Graph Plan)

variable {s : Store} {d : Direction} {root id : String} {maxDepth : Nat}

/-! ## Where links are cut off -/

/-- A stored id that links through stored nodes lead to from the root. -/
def Reaches (s : Store) (d : Direction) (root id : String) : Prop := ∃ passed, s.Trail d root passed id

theorem stored_root_of_mem_dangling {e : Edge} (he : e ∈ (s.walk root maxDepth d).dangling) :
    s.Stored root := by
  by_cases hroot : s.Stored root
  · exact hroot
  · rw [walk_of_not_stored hroot] at he
    cases he

/-- An edge that dangles although its target is stored starts at the end of a simple way along edges that is
as long as the bound. -/
theorem route_of_dangling {e : Edge} (he : e ∈ (s.walk root maxDepth d).dangling)
    (htarget : s.Stored e.target) :
    ∃ passed, (s.walk root maxDepth d).Route root passed e.source ∧ (e.source :: passed).Nodup ∧
      passed.length = maxDepth := by
  obtain ⟨passed, htrodden, hlen⟩ := trodden_of_dangling he htarget
  have hroute := route_of_trail (stored_root_of_mem_dangling he) htrodden.1.1 htrodden.2
  exact ⟨passed, hroute, htrodden.1.2, hlen⟩

/-- No link to a stored id is cut off if the bound leaves room for every stored id. -/
theorem Indexed.not_stored_of_dangling (h : s.Indexed) (hsize : s.size ≤ maxDepth + 1) {e : Edge}
    (he : e ∈ (s.walk root maxDepth d).dangling) : ¬ s.Stored e.target := by
  intro htarget
  obtain ⟨passed, ⟨hpath, hvisited⟩, hlen⟩ := trodden_of_dangling he htarget
  obtain ⟨hedge, hmissing⟩ := List.mem_filter.1 he
  -- everything on the path was found and the target was not, so it would be one id too many
  have hnew : e.target ∉ e.source :: passed := by
    intro hmem
    have hfound : (s.walk root maxDepth d).contains e.target := by
      rcases List.mem_cons.1 hmem with hsame | hmem
      · rw [hsame]
        exact (linked_of_mem_edges hedge).1
      · exact (contains_walk_iff (stored_root_of_mem_dangling he)).2 ⟨hvisited _ hmem, htarget⟩
    rw [hfound] at hmissing
    cases hmissing
  have hroom := h.length_le_size (List.nodup_cons.2 ⟨hnew, hpath.2⟩)
    (List.forall_mem_cons.2 ⟨htarget, hpath.1.stored⟩)
  rw [List.length_cons, List.length_cons, hlen] at hroom
  omega

/-! ## Bounds that leave room for every stored id -/

/-- Under such a bound a walk finds whatever can be reached. -/
theorem Indexed.contains_iff_reaches (h : s.Indexed) (hsize : s.size ≤ maxDepth + 1) :
    (s.walk root maxDepth d).contains id ↔ s.Reaches d root id := by
  constructor
  · intro hfound
    obtain ⟨passed, htrail, _⟩ := within_of_contains hfound
    exact ⟨passed, htrail⟩
  · rintro ⟨passed, htrail⟩
    exact contains_of_trail (fun e he htarget => absurd htarget (h.not_stored_of_dangling hsize he)) htrail
      (Nat.le_refl _)

/-- Two such bounds give the same graph. -/
theorem Indexed.walk_eq_walk (h : s.Indexed) {k k' : Nat} (hk : s.size ≤ k + 1) (hk' : s.size ≤ k' + 1) :
    s.walk root k d = s.walk root k' d := by
  obtain ⟨hnodes, hedges, _⟩ := Plan.alike_seen h hk hk' d root
  rw [Plan.seen, Plan.seen] at hnodes hedges
  show Plan.walk ⟨s, k, d⟩ root = Plan.walk ⟨s, k', d⟩ root
  rw [Plan.walk, Plan.walk]
  cases s.get? root with
  | none => rfl
  | some n => simp only [hnodes, hedges]

/-- After any history, a walk cuts a link to a stored id off only at the end of a simple way along edges
that is as long as its bound. So with a bound of at least one less than the number of nodes it finds exactly
what can be reached from the root, its edges dangle only for want of a node, and a greater bound gives the
same graph. -/
theorem walk_saturates (ops : List Operation) (root : String) (d : Direction) :
    (∀ maxDepth, ∀ e ∈ ((after ops).walk root maxDepth d).dangling, (after ops).Stored e.target →
        ∃ passed, ((after ops).walk root maxDepth d).Route root passed e.source ∧
          (e.source :: passed).Nodup ∧ passed.length = maxDepth) ∧
      ∀ maxDepth, (after ops).size - 1 ≤ maxDepth →
        (∀ id, ((after ops).walk root maxDepth d).contains id ↔ (after ops).Reaches d root id) ∧
          (∀ e ∈ ((after ops).walk root maxDepth d).dangling, ¬ (after ops).Stored e.target) ∧
          ∀ deeper, (after ops).size - 1 ≤ deeper →
            (after ops).walk root deeper d = (after ops).walk root maxDepth d := by
  have hindexed := indexed_after ops
  refine ⟨fun _ _ he htarget => route_of_dangling he htarget, ?_⟩
  intro maxDepth hsize
  rw [Nat.sub_le_iff_le_add] at hsize
  refine ⟨fun _ => hindexed.contains_iff_reaches hsize,
    fun _ he => hindexed.not_stored_of_dangling hsize he, ?_⟩
  intro deeper hdeeper
  rw [Nat.sub_le_iff_le_add] at hdeeper
  exact hindexed.walk_eq_walk hdeeper hsize

/-- In the store with a detour a walk with the bound three cuts the link to `c` off, at the end of a way over
three edges; bounds from four on give one graph, up to the greatest count of 64 bits. -/
theorem walk_saturates_detour :
    let ops : List Operation :=
      [.add (causing "r" ["a", "b"]), .add (causing "a" ["x"]), .add (causing "x" ["b"]),
        .add (causing "b" ["c"]), .add (causing "c" [])]
    let s := after ops
    (∃ e ∈ (s.walk "r" 3 .downstream).dangling, s.Stored e.target ∧
        ∃ passed, (s.walk "r" 3 .downstream).Route "r" passed e.source ∧ (e.source :: passed).Nodup ∧
          passed.length = 3) ∧
      s.size - 1 = 4 ∧ s.walk "r" (2 ^ 64 - 1) .downstream = s.walk "r" 4 .downstream := by
  intro ops s
  have hsize : s.size - 1 = 4 := by
    show s.toList.length - 1 = 4
    rw [toList_after]
    rfl
  obtain ⟨hcut, hsaturated⟩ := walk_saturates ops "r" .downstream
  refine ⟨?_, hsize, (hsaturated 4 (by rw [hsize])).2.2 (2 ^ 64 - 1) ?_⟩
  · have hc : s.Stored "c" := by
      refine ⟨causing "c" [], ?_⟩
      rw [(keeps_after ops).get?_eq]
      rfl
    have he : ⟨"b", "c", .causes⟩ ∈ (s.walk "r" 3 .downstream).dangling := by
      have hget (id : String) : s.get? id = _ := (keeps_after ops).get?_eq id
      simp [walk, Plan.walk, Plan.run_start, Plan.visit, hget, causing, Graph.dangling, Graph.contains, ops,
        offered, Operation.node?]
    exact ⟨_, he, hc, hcut 3 _ he hc⟩
  · rw [hsize]
    decide

end EvidenceGraph.Store
