/-
# `EvidenceGraph.Proofs.Causal.Recursion` — the walk is the recursive pre-order walk.

`Plan.run` works on a stack of frames. `Plan.visit` is the same walk said by recursion: the effects of a
node, its causes, or its effects and then its causes are followed in their order, each with the whole visit
of its target before the next. The recursion ends because every visit within another is one level deeper,
and none goes beyond the depth of the plan; cycles do not matter for that.

A frame stands for calls that are under way: `Plan.unwind` makes the visits that the frames still owe, the
innermost one first. One step of the loop leaves the result of unwinding as it is, so the whole run is the
unwinding of its first state, and that is the visit of the root.
-/
import EvidenceGraph.Causal.Walk
import EvidenceGraph.Proofs.Store.History

namespace EvidenceGraph.Causal

namespace Plan

/-! ## The recursive walk -/

/-- Visit an id at a depth, and then what its node leads to, one level deeper: the claims that it causes, those
that it was caused by, or the former and then the latter. Nothing happens beyond the depth of the plan or at an
id that was visited before; an id without a node is only marked as visited. -/
def visit (plan : Plan) (id : String) (depth : Nat) (p : Progress) : Progress :=
  if plan.maxDepth < depth then p
  else if p.visited.contains id then p
  else
    let marked := { p with visited := p.visited.insert id }
    match plan.store.get? id with
    | none => marked
    | some n =>
      let recorded := { marked with nodes := marked.nodes.insert id n }
      -- the links and their names are said anew here, the walk is to agree with them
      let inTurn (relationship : Relationship) (targets : List String) (p : Progress) : Progress :=
        targets.foldl
          (fun p target =>
            visit plan target (depth + 1) { p with edges := p.edges.push ⟨id, target, relationship⟩ })
          p
      match plan.direction with
      | .downstream => inTurn .causes n.children recorded
      | .upstream => inTurn .causedBy n.parents recorded
      | .both => inTurn .relatedTo n.parents (inTurn .relatedTo n.children recorded)
termination_by plan.maxDepth + 1 - depth

/-- The graph that the recursive walk from an id finds; an unknown id gives an empty graph. -/
def recursiveWalk (plan : Plan) (root : String) : Graph :=
  match plan.store.get? root with
  | none => {}
  | some n =>
    let p := plan.visit root 0 {}
    { root := some n, nodes := p.nodes, edges := p.edges }

/-! ## What a stack of frames still owes -/

/-- Follow links from a node at a depth, and visit what they lead to. -/
def followAll (plan : Plan) (id : String) (depth : Nat) (targets : List String) (p : Progress) :
    Progress :=
  targets.foldl (fun p target => plan.visit target (depth + 1) (plan.follow id target p)) p

/-- Make all visits that the frames of a state still owe, from the innermost frame outwards. -/
def unwind (plan : Plan) (s : State) : Progress :=
  s.stack.foldl (fun p f => plan.followAll f.id f.depth f.pending p) s.progress

theorem followAll_cons (plan : Plan) (id : String) (depth : Nat) (target : String)
    (more : List String) (p : Progress) :
    plan.followAll id depth (target :: more) p =
      plan.followAll id depth more (plan.visit target (depth + 1) (plan.follow id target p)) := rfl

theorem unwind_cons (plan : Plan) (f : Frame) (below : List Frame) (p : Progress) :
    plan.unwind ⟨f :: below, p⟩ = plan.unwind ⟨below, plan.followAll f.id f.depth f.pending p⟩ := rfl

theorem unwind_append (plan : Plan) (above below : List Frame) (p : Progress) :
    plan.unwind ⟨above ++ below, p⟩ = plan.unwind ⟨below, plan.unwind ⟨above, p⟩⟩ := by
  simp only [unwind, List.foldl_append]

theorem followAll_append (plan : Plan) (id : String) (depth : Nat) (targets more : List String) (p : Progress) :
    plan.followAll id depth (targets ++ more) p =
      plan.followAll id depth more (plan.followAll id depth targets p) :=
  List.foldl_append

/-- A visit enters its id, and then unwinds the frame that this gives, if it gives one. -/
theorem visit_eq_unwind_enter (plan : Plan) (id : String) (depth : Nat) (p : Progress) :
    plan.visit id depth p =
      plan.unwind ⟨(plan.enter id depth p).2.toList, (plan.enter id depth p).1⟩ := by
  rw [visit, enter]
  by_cases hdeep : plan.maxDepth < depth
  · simp [hdeep, unwind]
  · by_cases hseen : p.visited.contains id = true
    · simp [hdeep, hseen, unwind]
    · rw [if_neg hdeep, if_neg hseen, if_neg (by simp [hdeep, hseen])]
      cases plan.store.get? id with
      | none => rfl
      | some n =>
        -- the frame owes the links that the recursion folds over, two lists of them in a walk both ways
        obtain ⟨store, maxDepth, direction⟩ := plan
        cases direction with
        | downstream => rfl
        | upstream => rfl
        | both => exact (followAll_append _ id depth n.children n.parents _).symm

/-! ## Steps and runs -/

/-- A step that follows a link enters its target and keeps the frame below what this gives. -/
theorem step_follow (plan : Plan) (id : String) (depth : Nat) (target : String) (more : List String)
    (below : List Frame) (p : Progress) :
    plan.step ⟨⟨id, depth, target :: more⟩ :: below, p⟩ =
      .running ⟨(plan.enter target (depth + 1) (plan.follow id target p)).2.toList ++
          ⟨id, depth, more⟩ :: below,
        (plan.enter target (depth + 1) (plan.follow id target p)).1⟩ := rfl

/-- A step does not change what a state unwinds to. -/
theorem unwind_step {plan : Plan} {s next : State} (h : plan.step s = .running next) :
    plan.unwind next = plan.unwind s := by
  match s with
  | ⟨[], p⟩ => cases h
  | ⟨⟨id, depth, []⟩ :: below, p⟩ =>
    cases h
    rfl
  | ⟨⟨id, depth, target :: more⟩ :: below, p⟩ =>
    rw [step_follow] at h
    injection h with h
    rw [← h, unwind_append, ← visit_eq_unwind_enter, unwind_cons, unwind_cons, followAll_cons]

/-- A walk ends in a state without frames only. -/
theorem eq_of_finished {plan : Plan} {s : State} {p : Progress} (h : plan.step s = .finished p) :
    s = ⟨[], p⟩ := by
  match s with
  | ⟨[], q⟩ =>
    cases h
    rfl
  | ⟨⟨_, _, []⟩ :: _, _⟩ => cases h
  | ⟨⟨_, _, _ :: _⟩ :: _, _⟩ => cases h

/-- A run makes the visits that its first state owes. -/
theorem run_eq_unwind (plan : Plan) (s : State) : plan.run s = plan.unwind s := by
  fun_induction run plan s with
  | case1 s p h =>
    rw [eq_of_finished h]
    rfl
  | case2 s next h ih => rw [ih, unwind_step h]

theorem run_nil (plan : Plan) (p : Progress) : plan.run ⟨[], p⟩ = p := by
  rw [run_eq_unwind]
  rfl

theorem run_of_running {plan : Plan} {s next : State} (h : plan.step s = .running next) :
    plan.run s = plan.run next := by
  rw [run_eq_unwind, run_eq_unwind, unwind_step h]

theorem run_start (plan : Plan) (root : String) :
    plan.run (plan.start root) = plan.visit root 0 {} := by
  rw [run_eq_unwind, visit_eq_unwind_enter]
  rfl

end Plan

end EvidenceGraph.Causal

namespace EvidenceGraph.Store

/-- From every store, root, depth and direction the walk with its stack of frames finds the graph of the
recursive walk: the same root, the same nodes, and the same edges in the same order. -/
theorem walk_eq_recursiveWalk (s : Store) (root : String) (maxDepth : Nat)
    (direction : Causal.Direction) :
    s.walk root maxDepth direction = Causal.Plan.recursiveWalk ⟨s, maxDepth, direction⟩ root := by
  show Causal.Plan.walk ⟨s, maxDepth, direction⟩ root = _
  generalize (⟨s, maxDepth, direction⟩ : Causal.Plan) = plan
  unfold Causal.Plan.walk Causal.Plan.recursiveWalk
  cases plan.store.get? root with
  | none => rfl
  | some n =>
    have hrun : plan.run (plan.start root) = plan.visit root 0 {} := Causal.Plan.run_start plan root
    simp only [hrun]

/-- Both ways from `r`, which leads to `a` and comes from `b`: the walk goes down to `b` over `a` before it follows
what `a` comes from, and only then what `r` does; `b` comes from an id without a node. -/
theorem walk_eq_recursiveWalk_both_ways :
    let r : Node := { id := "r", claimType := "claim", confidence := 1, children := ["a"], parents := ["b"] }
    let a : Node := { id := "a", claimType := "claim", confidence := 1, children := ["b"], parents := ["r"] }
    let b : Node :=
      { id := "b", claimType := "claim", confidence := 1, children := ["r"], parents := ["a", "lost"] }
    let g := (ofNodes [r, a, b]).walk "r" 2 .both
    g.edges.toList = [("r", "a"), ("a", "b"), ("b", "r"), ("b", "a"), ("b", "lost"), ("a", "r"), ("r", "b")].map
        (fun link => ⟨link.1, link.2, .relatedTo⟩) ∧
      (∀ id ∈ ["r", "a", "b"], g.contains id) ∧ g.contains "lost" = false := by
  intro r a b g
  have hget (id : String) : (ofNodes [r, a, b]).get? id = [r, a, b].find? fun n => n.id = id :=
    (keeps_ofNodes _).get?_eq id
  have hg : g = _ := walk_eq_recursiveWalk _ "r" 2 .both
  rw [hg]
  simp [Causal.Plan.recursiveWalk, Causal.Plan.visit, Causal.Graph.contains, hget, r, a, b]

end EvidenceGraph.Store
