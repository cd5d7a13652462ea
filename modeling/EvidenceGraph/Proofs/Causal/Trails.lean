/-
# `EvidenceGraph.Proofs.Causal.Trails` — what a walk has seen, state by state.

A trail is a way from the root to an id along links between stored nodes. The frames of a state of the walk
are a trail: each stands for the id that the frame below it went to, one level deeper, and no id stands on
the stack twice. Everything else that is known of a state follows from that: what was visited has a trail
within the bound without repetitions and through visited ids only, the links of a visited node are those
recorded and those that its frame still holds, and a link whose target was refused because of its depth
starts at the end of such a trail that is as long as the bound.

One step keeps all of this (`Coherent.step`), so it holds of every state that a walk passes and of the last
one (`coherent_seen`).
-/
import EvidenceGraph.Proofs.Causal.Recursion

namespace EvidenceGraph.Store

/-! ## Trails -/

variable {s : Store} {d : Causal.Direction} {root id : String}

/-- An id with a node. -/
def Stored (s : Store) (id : String) : Prop := ∃ n, s.get? id = some n

/-- The node of the first id has a link to the second. -/
def Linked (s : Store) (d : Causal.Direction) (u v : String) : Prop :=
  ∃ n, s.get? u = some n ∧ v ∈ d.neighbours n

/-- A way from the root to an id along links between stored nodes, with the ids that were passed before,
the last one first. -/
inductive Trail (s : Store) (d : Causal.Direction) (root : String) : List String → String → Prop
  | start : s.Stored root → Trail s d root [] root
  | step {passed : List String} {u v : String} :
      Trail s d root passed u → s.Linked d u v → s.Stored v → Trail s d root (u :: passed) v

/-- A trail passes and reaches ids with nodes only. -/
theorem Trail.stored {passed : List String} (h : s.Trail d root passed id) :
    ∀ u ∈ id :: passed, s.Stored u := by
  induction h with
  | start hroot => simpa using hroot
  | step _ _ hstored ih => exact List.forall_mem_cons.2 ⟨hstored, ih⟩

/-- A trail that passes no id twice. -/
def Path (s : Store) (d : Causal.Direction) (root : String) (passed : List String) (id : String) : Prop :=
  s.Trail d root passed id ∧ (id :: passed).Nodup

end EvidenceGraph.Store

namespace EvidenceGraph.Causal.Plan

variable {plan : Plan} {root id : String}

/-! ## Coherent states -/

/-- The ids of the frames of a stack. -/
def frameIds (stack : List Frame) : List String := stack.map Frame.id

/-- Frames that lie on one another as a walk puts them. -/
inductive Stacked (plan : Plan) (root : String) : List Frame → Prop
  | nil : Stacked plan root []
  | cons {f : Frame} {below : List Frame} {n : Node} :
      plan.store.Path plan.direction root (frameIds below) f.id →
      f.depth = below.length → f.depth ≤ plan.maxDepth →
      plan.store.get? f.id = some n → (∀ v ∈ f.pending, v ∈ plan.direction.neighbours n) →
      Stacked plan root below → Stacked plan root (f :: below)

theorem Stacked.nodup {stack : List Frame} (h : plan.Stacked root stack) : (frameIds stack).Nodup := by
  cases h with
  | nil => exact List.nodup_nil
  | cons hpath => exact hpath.2

theorem Stacked.stored {stack : List Frame} (h : plan.Stacked root stack) :
    ∀ u ∈ frameIds stack, plan.store.Stored u := by
  cases h with
  | nil => nofun
  | cons hpath => exact hpath.1.stored

/-- The targets of the links that were recorded from an id. -/
def recorded (p : Progress) (id : String) : List String :=
  (p.edges.toList.filter fun e => e.source = id).map Edge.target

/-- The links that the frames of an id still hold. -/
def owed (stack : List Frame) (id : String) : List String :=
  (stack.filter fun f => f.id = id).flatMap Frame.pending

/-- The links of an id that was visited. -/
def linksOf (plan : Plan) (p : Progress) (id : String) : List String :=
  if p.visited.contains id then (plan.store.get? id).elim [] plan.direction.neighbours else []

/-- A path through visited ids. -/
def Trodden (plan : Plan) (root : String) (p : Progress) (passed : List String) (id : String) : Prop :=
  plan.store.Path plan.direction root passed id ∧ ∀ u ∈ passed, p.visited.contains u

/-- What holds of every state of a walk, whichever links were just recorded. -/
structure Coherent (plan : Plan) (root : String) (s : State) : Prop where
  stacked : plan.Stacked root s.stack
  stack_visited : ∀ id ∈ frameIds s.stack, s.progress.visited.contains id
  nodes_eq : ∀ id, s.progress.nodes[id]? =
    if s.progress.visited.contains id then plan.store.get? id else none
  links_eq : ∀ id, recorded s.progress id ++ owed s.stack id = plan.linksOf s.progress id
  visited_path : ∀ id, s.progress.visited.contains id → plan.store.Stored id →
    ∃ passed, plan.Trodden root s.progress passed id ∧ passed.length ≤ plan.maxDepth

/-- A recorded link whose target has a node, but was not visited, starts at the end of a path as long as
the bound. -/
def CutAtBound (plan : Plan) (root : String) (p : Progress) : Prop :=
  ∀ e ∈ p.edges.toList, plan.store.Stored e.target → p.visited.contains e.target = false →
    ∃ passed, plan.Trodden root p passed e.source ∧ passed.length = plan.maxDepth

/-! ## Entering an id -/

/-- An id is refused, without a node, or entered. -/
theorem enter_cases (plan : Plan) (id : String) (depth : Nat) (p : Progress) :
    (plan.maxDepth < depth ∨ p.visited.contains id) ∧ plan.enter id depth p = (p, none) ∨
    (depth ≤ plan.maxDepth ∧ p.visited.contains id = false) ∧
      (plan.store.get? id = none ∧
          plan.enter id depth p = ({ p with visited := p.visited.insert id }, none) ∨
        ∃ n, plan.store.get? id = some n ∧
          plan.enter id depth p =
            ({ p with visited := p.visited.insert id, nodes := p.nodes.insert id n },
              some ⟨id, depth, plan.direction.neighbours n⟩)) := by
  unfold enter
  by_cases hrefused : plan.maxDepth < depth ∨ p.visited.contains id
  · exact .inl ⟨hrefused, if_pos hrefused⟩
  · right
    rw [if_neg hrefused]
    rw [not_or, Nat.not_lt, Bool.not_eq_true] at hrefused
    refine ⟨hrefused, ?_⟩
    cases hget : plan.store.get? id with
    | none => exact .inl ⟨rfl, rfl⟩
    | some n => exact .inr ⟨n, rfl, rfl⟩

/-- What was visited stays visited. -/
theorem visited_enter (plan : Plan) (id : String) (depth : Nat) {p : Progress} {v : String}
    (h : p.visited.contains v) : (plan.enter id depth p).1.visited.contains v := by
  rcases plan.enter_cases id depth p with ⟨_, he⟩ | ⟨_, ⟨_, he⟩ | ⟨n, _, he⟩⟩ <;> rw [he]
  · exact h
  · simp [h]
  · simp [h]

/-- An id is visited from now on, unless it lies too deep. -/
theorem visited_enter_self (plan : Plan) (id : String) {depth : Nat} (p : Progress)
    (h : depth ≤ plan.maxDepth) : (plan.enter id depth p).1.visited.contains id := by
  rcases plan.enter_cases id depth p with ⟨hrefused, he⟩ | ⟨_, ⟨_, he⟩ | ⟨n, _, he⟩⟩ <;> rw [he]
  · exact hrefused.resolve_left (Nat.not_lt.2 h)
  · simp
  · simp

theorem edges_enter (plan : Plan) (id : String) (depth : Nat) (p : Progress) :
    (plan.enter id depth p).1.edges = p.edges := by
  rcases plan.enter_cases id depth p with ⟨_, he⟩ | ⟨_, ⟨_, he⟩ | ⟨n, _, he⟩⟩ <;> rw [he]

/-- What is visited later does no harm to a path. -/
theorem Trodden.mono {p p' : Progress} {passed : List String} (h : plan.Trodden root p passed id)
    (hvisited : ∀ v, p.visited.contains v → p'.visited.contains v) : plan.Trodden root p' passed id :=
  ⟨h.1, fun u hu => hvisited u (h.2 u hu)⟩

/-- A path to the id of a frame passes the frames below, which were visited. -/
theorem Coherent.trodden {f : Frame} {below : List Frame} {p : Progress}
    (h : plan.Coherent root ⟨f :: below, p⟩) : plan.Trodden root p (frameIds below) f.id := by
  refine ⟨?_, fun u hu => h.stack_visited u (List.mem_cons_of_mem _ hu)⟩
  cases h.stacked with
  | cons hpath => exact hpath

/-! ## Links, recorded and owed -/

theorem owed_cons (f : Frame) (below : List Frame) (id : String) :
    owed (f :: below) id = if f.id = id then f.pending ++ owed below id else owed below id := by
  by_cases h : f.id = id <;> simp [owed, h]

theorem owed_of_not_mem {stack : List Frame} (h : id ∉ frameIds stack) : owed stack id = [] := by
  induction stack with
  | nil => rfl
  | cons f below ih =>
    rw [frameIds, List.map_cons, List.mem_cons, not_or] at h
    rw [owed_cons, if_neg (Ne.symm h.1), ih h.2]

theorem recorded_follow (plan : Plan) (source target : String) (p : Progress) (id : String) :
    recorded (plan.follow source target p) id =
      if source = id then recorded p id ++ [target] else recorded p id := by
  by_cases h : source = id <;> simp [recorded, follow, h]

/-- To visit an id changes the links of no other one. -/
theorem linksOf_insert (plan : Plan) {p p' : Progress} {id v : String}
    (hp : p'.visited = p.visited.insert id) (hv : id ≠ v) : plan.linksOf p' v = plan.linksOf p v := by
  have hvisited : p'.visited.contains v = p.visited.contains v := by
    rw [hp, Std.HashSet.contains_insert, beq_false_of_ne hv, Bool.false_or]
  simp only [linksOf, hvisited]

/-- Nothing was recorded of an id that was not visited, and no frame stands for it. -/
theorem Coherent.unvisited {s : State} (h : plan.Coherent root s)
    (hnew : s.progress.visited.contains id = false) :
    id ∉ frameIds s.stack ∧ recorded s.progress id = [] := by
  have hstack : id ∉ frameIds s.stack := by
    intro hmem
    rw [h.stack_visited id hmem] at hnew
    cases hnew
  have hlinks := h.links_eq id
  rw [owed_of_not_mem hstack, List.append_nil, linksOf, hnew] at hlinks
  exact ⟨hstack, hlinks⟩

/-! ## One step -/

/-- Visiting an id without a node changes nothing but that it was visited. -/
theorem Coherent.mark {stack : List Frame} {p : Progress} (h : plan.Coherent root ⟨stack, p⟩)
    (hnew : p.visited.contains id = false) (hget : plan.store.get? id = none) :
    plan.Coherent root ⟨stack, { p with visited := p.visited.insert id }⟩ where
  stacked := h.stacked
  stack_visited v hv := by
    have hold := h.stack_visited v hv
    simp [hold]
  nodes_eq v := by
    have hold := h.nodes_eq v
    by_cases hv : id = v
    · subst hv
      simpa [hnew, hget] using hold
    · simpa [hv] using hold
  links_eq v := by
    show recorded p v ++ owed stack v = _
    rw [h.links_eq v]
    by_cases hv : id = v
    · subst hv
      simp [linksOf, hnew, hget]
    · exact (linksOf_insert plan rfl hv).symm
  visited_path v hv hstored := by
    have hne : id ≠ v := by
      rintro rfl
      obtain ⟨n, hn⟩ := hstored
      rw [hget] at hn
      cases hn
    obtain ⟨passed, htrodden, hlen⟩ := h.visited_path v (by simpa [hne] using hv) hstored
    exact ⟨passed, htrodden.mono fun u hu => by simp [hu], hlen⟩

/-- An id that is entered gets a frame on top of the others. -/
theorem Coherent.push {stack : List Frame} {p : Progress} {n : Node}
    (h : plan.Coherent root ⟨stack, p⟩) (hnew : p.visited.contains id = false)
    (hget : plan.store.get? id = some n) (htrail : plan.store.Trail plan.direction root (frameIds stack) id)
    (hdepth : stack.length ≤ plan.maxDepth) :
    plan.Coherent root
      ⟨⟨id, stack.length, plan.direction.neighbours n⟩ :: stack,
        { p with visited := p.visited.insert id, nodes := p.nodes.insert id n }⟩ := by
  obtain ⟨hstack, hrecorded⟩ := h.unvisited hnew
  have hpath : plan.store.Path plan.direction root (frameIds stack) id :=
    ⟨htrail, List.nodup_cons.2 ⟨hstack, h.stacked.nodup⟩⟩
  constructor
  case stacked => exact .cons hpath rfl hdepth hget (fun _ hv => hv) h.stacked
  case stack_visited =>
    intro v hv
    rcases List.mem_cons.1 hv with rfl | hv
    · simp
    · have hold := h.stack_visited v hv
      simp [hold]
  case nodes_eq =>
    intro v
    have hold := h.nodes_eq v
    by_cases hv : id = v
    · subst hv
      simp [hget]
    · simpa [hv, Std.TreeMap.getElem?_insert] using hold
  case links_eq =>
    intro v
    have hold := h.links_eq v
    rw [owed_cons]
    by_cases hv : id = v
    · subst hv
      rw [if_pos rfl, owed_of_not_mem hstack, List.append_nil]
      show recorded p id ++ _ = _
      simp [hrecorded, linksOf, hget]
    · rw [if_neg hv, linksOf_insert plan rfl hv]
      exact hold
  case visited_path =>
    intro v hv hstored
    by_cases hne : id = v
    · subst hne
      exact ⟨_, ⟨hpath, fun u hu => by simp [h.stack_visited u hu]⟩, by simpa [frameIds] using hdepth⟩
    · obtain ⟨passed, htrodden, hlen⟩ := h.visited_path v (by simpa [hne] using hv) hstored
      exact ⟨passed, htrodden.mono fun u hu => by simp [hu], hlen⟩

/-- Entering an id that the innermost frame has a link to. -/
theorem Coherent.enter {stack : List Frame} {p : Progress} (h : plan.Coherent root ⟨stack, p⟩)
    (htrail : plan.store.Stored id → plan.store.Trail plan.direction root (frameIds stack) id) :
    plan.Coherent root
      ⟨(plan.enter id stack.length p).2.toList ++ stack, (plan.enter id stack.length p).1⟩ := by
  rcases plan.enter_cases id stack.length p with ⟨_, he⟩ | ⟨⟨hdepth, hnew⟩, ⟨hget, he⟩ | ⟨n, hget, he⟩⟩
  · rw [he]
    exact h
  · rw [he]
    exact h.mark hnew hget
  · rw [he]
    exact h.push hnew hget (htrail ⟨n, hget⟩) hdepth

/-- A frame without links to follow is left. -/
theorem Coherent.pop {f : Frame} {below : List Frame} {p : Progress}
    (h : plan.Coherent root ⟨f :: below, p⟩) (hdone : f.pending = []) :
    plan.Coherent root ⟨below, p⟩ where
  stacked := by
    cases h.stacked with
    | cons _ _ _ _ _ hbelow => exact hbelow
  stack_visited v hv := h.stack_visited v (List.mem_cons_of_mem _ hv)
  nodes_eq := h.nodes_eq
  links_eq v := by
    have hold := h.links_eq v
    rw [owed_cons, hdone, List.nil_append, ite_self] at hold
    exact hold
  visited_path := h.visited_path

/-- A link that is followed goes from what a frame holds to what was recorded. -/
theorem Coherent.record {depth : Nat} {target : String} {more : List String} {below : List Frame}
    {p : Progress} (h : plan.Coherent root ⟨⟨id, depth, target :: more⟩ :: below, p⟩) :
    plan.Coherent root ⟨⟨id, depth, more⟩ :: below, plan.follow id target p⟩ where
  stacked := by
    cases h.stacked with
    | cons hpath hdepth hbound hget hlinks hbelow =>
      exact .cons hpath hdepth hbound hget (fun v hv => hlinks v (List.mem_cons_of_mem _ hv)) hbelow
  stack_visited := h.stack_visited
  nodes_eq := h.nodes_eq
  links_eq v := by
    have hold := h.links_eq v
    show recorded (plan.follow id target p) v ++ owed _ v = plan.linksOf p v
    rw [recorded_follow]
    rw [owed_cons] at hold ⊢
    by_cases hv : id = v
    · subst hv
      simpa using hold
    · simpa [hv] using hold
  visited_path := h.visited_path

/-- The innermost frame of a state, and the node it stands for. -/
theorem Coherent.top {f : Frame} {below : List Frame} {p : Progress}
    (h : plan.Coherent root ⟨f :: below, p⟩) :
    plan.store.Path plan.direction root (frameIds below) f.id ∧
      f.depth = below.length ∧ f.depth ≤ plan.maxDepth ∧
      ∀ v ∈ f.pending, plan.store.Linked plan.direction f.id v := by
  cases h.stacked with
  | cons hpath hdepth hbound hget hlinks _ =>
    exact ⟨hpath, hdepth, hbound, fun v hv => ⟨_, hget, hlinks v hv⟩⟩

/-- A link that is recorded is cut off only if its target is deeper than the bound, and then its source is
at the bound. -/
theorem CutAtBound.follow {p : Progress} {passed : List String} (h : plan.CutAtBound root p)
    (htrodden : plan.Trodden root p passed id) (hbound : passed.length ≤ plan.maxDepth)
    (target : String) :
    plan.CutAtBound root (plan.enter target (passed.length + 1) (plan.follow id target p)).1 := by
  intro e he hstored hunvisited
  have hgrows : ∀ v, p.visited.contains v → (plan.enter target (passed.length + 1)
      (plan.follow id target p)).1.visited.contains v := fun v hv => visited_enter plan target _ hv
  rw [edges_enter, Plan.follow, Array.toList_push, List.mem_append, List.mem_singleton] at he
  rcases he with he | rfl
  · have hold : p.visited.contains e.target = false := by
      rw [Bool.eq_false_iff]
      intro hold
      rw [hgrows e.target hold] at hunvisited
      cases hunvisited
    obtain ⟨passed', htrodden', hlen⟩ := h e he hstored hold
    exact ⟨passed', htrodden'.mono hgrows, hlen⟩
  · refine ⟨passed, htrodden.mono hgrows,
      Nat.le_antisymm hbound (Nat.le_of_lt_succ (Nat.lt_of_not_le ?_))⟩
    intro hle
    rw [visited_enter_self plan target (plan.follow id target p) hle] at hunvisited
    cases hunvisited

/-- A step keeps states coherent, and cuts links off at the bound only. -/
theorem Coherent.step {s next : State} (h : plan.Coherent root s)
    (hcut : plan.CutAtBound root s.progress) (hstep : plan.step s = .running next) :
    plan.Coherent root next ∧ plan.CutAtBound root next.progress := by
  match s with
  | ⟨[], p⟩ => cases hstep
  | ⟨⟨id, depth, []⟩ :: below, p⟩ =>
    cases hstep
    exact ⟨h.pop rfl, hcut⟩
  | ⟨⟨id, depth, target :: more⟩ :: below, p⟩ =>
    obtain ⟨hpath, hdepth, hbound, hlinked⟩ := h.top
    dsimp only at hpath hdepth hbound hlinked
    subst hdepth
    have htrail : plan.store.Stored target →
        plan.store.Trail plan.direction root (id :: frameIds below) target := fun hstored =>
      .step hpath.1 (hlinked target List.mem_cons_self) hstored
    have hlength : (frameIds below).length = below.length := List.length_map _
    rw [step_follow] at hstep
    injection hstep with hnext
    rw [← hnext]
    refine ⟨h.record.enter htrail, ?_⟩
    rw [← hlength] at hbound ⊢
    exact hcut.follow h.trodden hbound target

/-! ## Runs -/

theorem visited_step {s next : State} {v : String} (hstep : plan.step s = .running next)
    (hv : s.progress.visited.contains v) : next.progress.visited.contains v := by
  match s with
  | ⟨[], p⟩ => cases hstep
  | ⟨⟨id, depth, []⟩ :: below, p⟩ =>
    cases hstep
    exact hv
  | ⟨⟨id, depth, target :: more⟩ :: below, p⟩ =>
    rw [step_follow] at hstep
    injection hstep with hnext
    rw [← hnext]
    exact visited_enter plan target (depth + 1) hv

/-- Nothing was seen yet. -/
theorem coherent_nothing (plan : Plan) (root : String) : plan.Coherent root ⟨[], {}⟩ where
  stacked := .nil
  stack_visited := nofun
  nodes_eq id := by simp
  links_eq id := by simp [recorded, owed, linksOf]
  visited_path id h := by simp at h

theorem coherent_start (plan : Plan) (root : String) :
    plan.Coherent root (plan.start root) ∧ plan.CutAtBound root (plan.start root).progress := by
  have htrail : plan.store.Stored root → plan.store.Trail plan.direction root (frameIds []) root :=
    fun hstored => .start hstored
  have hentered := (plan.coherent_nothing root).enter htrail
  rw [List.append_nil] at hentered
  refine ⟨hentered, ?_⟩
  intro e he
  have hnone : (plan.start root).progress.edges = #[] := edges_enter plan root 0 {}
  rw [hnone] at he
  cases he

/-- A state that the walk from the given root comes through. -/
inductive Passes (plan : Plan) (root : String) : State → Prop
  | start : Passes plan root (plan.start root)
  | step {s next : State} : Passes plan root s → plan.step s = .running next → Passes plan root next

/-- The last state has no frames. -/
theorem Passes.run {s : State} (h : plan.Passes root s) : plan.Passes root ⟨[], plan.run s⟩ := by
  fun_induction Plan.run plan s with
  | case1 s p hfinished => rwa [eq_of_finished hfinished] at h
  | case2 s next hstep ih => exact ih (h.step hstep)

/-- Every state of a walk is coherent, and links were cut off at the bound only. -/
theorem Passes.coherent {s : State} (h : plan.Passes root s) :
    plan.Coherent root s ∧ plan.CutAtBound root s.progress := by
  induction h with
  | start => exact plan.coherent_start root
  | step _ hstep ih => exact ih.1.step ih.2 hstep

theorem Passes.root_visited {s : State} (h : plan.Passes root s) : s.progress.visited.contains root := by
  induction h with
  | start => exact visited_enter_self plan root {} (Nat.zero_le _)
  | step _ hstep ih => exact visited_step hstep ih

/-- What a walk from the given root has seen in the end. -/
def seen (plan : Plan) (root : String) : Progress := plan.run (plan.start root)

theorem passes_seen (plan : Plan) (root : String) : plan.Passes root ⟨[], plan.seen root⟩ := Passes.start.run

/-- A walk ends in a coherent state without frames, and has cut links off at the bound only. -/
theorem coherent_seen (plan : Plan) (root : String) :
    plan.Coherent root ⟨[], plan.seen root⟩ ∧ plan.CutAtBound root (plan.seen root) :=
  (plan.passes_seen root).coherent

/-- The root of a walk is visited. -/
theorem root_visited_seen (plan : Plan) (root : String) : (plan.seen root).visited.contains root :=
  (plan.passes_seen root).root_visited

/-- The nodes of a walk are the stored ids that were visited. -/
theorem contains_nodes_seen (plan : Plan) (root id : String) :
    (plan.seen root).nodes.contains id ↔
      (plan.seen root).visited.contains id ∧ plan.store.Stored id := by
  have hnodes := (plan.coherent_seen root).1.nodes_eq id
  dsimp only at hnodes
  rw [← Std.TreeMap.isSome_getElem?_eq_contains, hnodes, Store.Stored, ← Option.isSome_iff_exists]
  cases (plan.seen root).visited.contains id <;> simp

/-- The links recorded from an id are, in their order, those of its node, once it was visited. -/
theorem recorded_seen (plan : Plan) (root id : String) :
    recorded (plan.seen root) id = plan.linksOf (plan.seen root) id := by
  have hlinks := (plan.coherent_seen root).1.links_eq id
  rwa [owed_of_not_mem (List.not_mem_nil), List.append_nil] at hlinks

end EvidenceGraph.Causal.Plan
