/-
# `EvidenceGraph.Causal.Walk` — depth-first walks along causal links.

A walk visits a node, then follows its links one after another, each into the depth before the next.
Instead of recursing it keeps a stack of frames, one for each node on the way down, with the links that
are still to be followed. A node is visited once, at the depth where the walk first meets it within the
bound; every link of a visited node becomes an edge. The walk ends because each new frame takes an id of
the store that was never visited before, and every other step uses up a link or a frame.
-/
import EvidenceGraph.Causal.Graph
import EvidenceGraph.Store.Basic

namespace EvidenceGraph.Causal

/-- The ids that a walk goes to from a node, in their order. -/
def Direction.neighbours (d : Direction) (n : Node) : List String :=
  match d with
  | .downstream => n.children
  | .upstream => n.parents
  | .both => n.children ++ n.parents

/-- A node on the way down, with the links that are still to be followed. -/
structure Frame where
  id : String
  depth : Nat
  pending : List String
deriving DecidableEq, Repr

/-- What a walk has seen so far. -/
structure Progress where
  visited : Std.HashSet String := {}
  nodes : Std.TreeMap String Node := {}
  edges : Array Edge := #[]

/-- The fixed parts of a walk. -/
structure Plan where
  store : Store
  maxDepth : Nat
  direction : Direction

namespace Plan

/-- Visit an id at a depth. There is a frame to work on if the depth is within the bound, the id is new,
and the store has its node. -/
def enter (plan : Plan) (id : String) (depth : Nat) (p : Progress) : Progress × Option Frame :=
  if plan.maxDepth < depth ∨ p.visited.contains id then
    (p, none)
  else
    let p := { p with visited := p.visited.insert id }
    match plan.store.get? id with
    -- an id without a node counts as visited, too
    | none => (p, none)
    | some n =>
      ({ p with nodes := p.nodes.insert id n }, some ⟨id, depth, plan.direction.neighbours n⟩)

/-- Record the link from one id to another. -/
def follow (plan : Plan) (source target : String) (p : Progress) : Progress :=
  { p with edges := p.edges.push ⟨source, target, plan.direction.relationship⟩ }

/-- The number of ids in the store that were not visited yet. -/
def unvisited (plan : Plan) (p : Progress) : Nat :=
  plan.store.index.keys.countP fun id => !p.visited.contains id

theorem unvisited_follow (plan : Plan) (source target : String) (p : Progress) :
    plan.unvisited (plan.follow source target p) = plan.unvisited p := rfl

theorem unvisited_insert_le (plan : Plan) (p : Progress) (id : String) :
    plan.unvisited { p with visited := p.visited.insert id } ≤ plan.unvisited p := by
  refine List.countP_mono_left fun x _ hx => ?_
  simp only [Std.HashSet.contains_insert, Bool.not_eq_true', Bool.or_eq_false_iff] at hx ⊢
  exact hx.2

theorem unvisited_insert_lt (plan : Plan) (p : Progress) {id : String}
    (hmem : id ∈ plan.store.index) (hnew : p.visited.contains id = false) :
    plan.unvisited { p with visited := p.visited.insert id } < plan.unvisited p := by
  have hkey : id ∈ plan.store.index.keys := Std.HashMap.mem_keys.2 hmem
  unfold unvisited
  obtain ⟨before, after, hsplit⟩ := List.append_of_mem hkey
  rw [hsplit]
  simp only [List.countP_append, List.countP_cons, Std.HashSet.contains_insert, beq_self_eq_true,
    Bool.true_or, hnew, Bool.not_true, Bool.not_false]
  have hle : ∀ l : List String,
      l.countP (fun x => !(id == x || p.visited.contains x)) ≤ l.countP fun x => !p.visited.contains x :=
    fun l => List.countP_mono_left fun x _ hx => by
      simp only [Bool.not_eq_true', Bool.or_eq_false_iff] at hx ⊢
      exact hx.2
  have hb := hle before
  have ha := hle after
  simp only [Bool.false_eq_true, ↓reduceIte]
  omega

theorem unvisited_enter_none {plan : Plan} {id : String} {depth : Nat} {p p' : Progress}
    (h : plan.enter id depth p = (p', none)) : plan.unvisited p' ≤ plan.unvisited p := by
  unfold enter at h
  split at h
  · cases h
    exact Nat.le_refl _
  · split at h
    · cases h
      exact unvisited_insert_le plan p id
    · cases h

theorem unvisited_enter_some {plan : Plan} {id : String} {depth : Nat} {p p' : Progress}
    {f : Frame} (h : plan.enter id depth p = (p', some f)) :
    plan.unvisited p' < plan.unvisited p := by
  unfold enter at h
  split at h
  · cases h
  · next hnew =>
    split at h
    · cases h
    · next n hget =>
      cases h
      refine unvisited_insert_lt plan p ?_ ?_
      · simp only [Store.get?, Option.bind_eq_some_iff] at hget
        obtain ⟨i, hi, _⟩ := hget
        exact Std.HashMap.mem_iff_isSome_getElem?.2 (by simp [hi])
      · simpa using fun h => hnew (Or.inr h)

/-- A walk under way: the frames from the innermost one outwards, and what was seen. -/
structure State where
  stack : List Frame
  progress : Progress

/-- Where a walk from the given id begins. -/
def start (plan : Plan) (root : String) : State :=
  let (p, first) := plan.enter root 0 {}
  ⟨first.toList, p⟩

/-- What a step leads to: the end of the walk or another state. -/
inductive Outcome where
  | finished (progress : Progress)
  | running (state : State)

/-- One step: leave the innermost frame if all its links were followed, or else follow the next one and
work on the node that it leads to. The walk ends when there is no frame. -/
def step (plan : Plan) : State → Outcome
  | ⟨[], p⟩ => .finished p
  | ⟨⟨_, _, []⟩ :: below, p⟩ => .running ⟨below, p⟩
  | ⟨⟨id, depth, target :: more⟩ :: below, p⟩ =>
    let (p, inner) := plan.enter target (depth + 1) (plan.follow id target p)
    .running ⟨inner.toList ++ ⟨id, depth, more⟩ :: below, p⟩

/-- The links still to be followed, and the frames themselves. -/
def work : List Frame → Nat
  | [] => 0
  | f :: stack => f.pending.length + 1 + work stack

/-- What a step makes smaller: the ids that were not visited yet come first, then the work. -/
def remaining (plan : Plan) (s : State) : Nat × Nat := (plan.unvisited s.progress, work s.stack)

theorem remaining_step {plan : Plan} {s next : State} (h : plan.step s = .running next) :
    Prod.Lex (· < ·) (· < ·) (plan.remaining next) (plan.remaining s) := by
  unfold step at h
  split at h
  · cases h
  · cases h
    exact Prod.Lex.right _ (by simp [work])
  · next id depth target more below p =>
    dsimp only at h
    cases hinner : plan.enter target (depth + 1) (plan.follow id target p) with
    | mk p' inner =>
      rw [hinner] at h
      cases h
      cases inner with
      | none =>
        have hle := unvisited_enter_none hinner
        rw [unvisited_follow] at hle
        rcases Nat.lt_or_eq_of_le hle with hlt | heq
        · exact Prod.Lex.left _ _ hlt
        · unfold remaining
          rw [heq]
          exact Prod.Lex.right _ (by simp [work])
      | some f =>
        have hlt := unvisited_enter_some hinner
        rw [unvisited_follow] at hlt
        exact Prod.Lex.left _ _ hlt

/-- Take steps until the walk is over. -/
def run (plan : Plan) (s : State) : Progress :=
  match _h : plan.step s with
  | .finished p => p
  | .running next => run plan next
termination_by plan.remaining s
decreasing_by exact remaining_step _h

/-- The graph that a walk from the given id finds; an unknown id gives an empty graph. -/
def walk (plan : Plan) (root : String) : Graph :=
  match plan.store.get? root with
  | none => {}
  | some n =>
    let p := plan.run (plan.start root)
    { root := some n, nodes := p.nodes, edges := p.edges }

end Plan

end EvidenceGraph.Causal

namespace EvidenceGraph.Store

/-- Collect what can be reached from an id by walking at most `maxDepth` links deep. -/
def walk (s : Store) (root : String) (maxDepth : Nat) (direction : Causal.Direction) : Causal.Graph :=
  Causal.Plan.walk ⟨s, maxDepth, direction⟩ root

end EvidenceGraph.Store
