/-
# `EvidenceGraph.Proofs.Causal.Frames` — the frames of a walk are a way down.

A frame keeps the links that are still to be followed. They are what lies behind a cursor in the links of
its node (`Frame.StandsAt`), and the link before the cursor is the one that was followed last
(`Frame.Followed`). A step moves the cursor of the innermost frame and may push a frame for the link that it
moved past, or it pops a frame whose cursor is at the end; so in every state each frame but the outermost
stands for the link that the frame below it followed last (`Threaded.step`).

The frames stand for distinct stored ids, and their depths count them. So there are never more of them than
nodes in the store, and the depth of what a frame goes to is at most that number, whatever the bound of the
walk is: to count depths in 64 bits is enough.
-/
import EvidenceGraph.Proofs.Causal.Saturation

namespace EvidenceGraph.Causal

variable {plan : Plan} {root : String} {n : Node} {cursor : Nat}

/-! ## Cursors -/

/-- A frame for the node `n`, the first `cursor` links of which were followed. -/
structure Frame.StandsAt (plan : Plan) (f : Frame) (n : Node) (cursor : Nat) : Prop where
  get?_eq : plan.store.get? f.id = some n
  cursor_le : cursor ≤ (plan.direction.neighbours n).length
  pending_eq : f.pending = (plan.direction.neighbours n).drop cursor

/-- The link that a frame followed last, the one before its cursor, goes to the given id. -/
def Frame.Followed (plan : Plan) (f : Frame) (target : String) : Prop :=
  ∃ n cursor, f.StandsAt plan n (cursor + 1) ∧ (plan.direction.neighbours n)[cursor]? = some target

/-- A new frame has followed nothing. -/
theorem standsAt_zero {id : String} (h : plan.store.get? id = some n) (depth : Nat) :
    Frame.StandsAt plan ⟨id, depth, plan.direction.neighbours n⟩ n 0 :=
  ⟨h, Nat.zero_le _, rfl⟩

/-- To follow a link is to move the cursor past it. -/
theorem Frame.StandsAt.follow {id target : String} {depth : Nat} {more : List String}
    (h : Frame.StandsAt plan ⟨id, depth, target :: more⟩ n cursor) :
    Frame.StandsAt plan ⟨id, depth, more⟩ n (cursor + 1) ∧
      (plan.direction.neighbours n)[cursor]? = some target := by
  obtain ⟨hget, -, hpending⟩ := h
  have hlink : (plan.direction.neighbours n)[cursor]? = some target := by
    rw [← List.head?_drop, ← hpending, List.head?_cons]
  have hmore : more = (plan.direction.neighbours n).drop (cursor + 1) := by
    rw [← List.tail_drop, ← hpending, List.tail_cons]
  exact ⟨⟨hget, (List.getElem?_eq_some_iff.1 hlink).1, hmore⟩, hlink⟩

namespace Plan

/-! ## Frames on one another -/

/-- Frames with their cursors, the innermost one first: of two neighbours the lower one has followed its link
to the upper one last. -/
structure Threaded (plan : Plan) (stack : List Frame) : Prop where
  stands : ∀ f ∈ stack, ∃ n cursor, f.StandsAt plan n cursor
  followed : stack.IsChain fun above below => below.Followed plan above.id

theorem threaded_nil (plan : Plan) : plan.Threaded [] := ⟨nofun, .nil⟩

/-- What is below a frame does not depend on it. -/
theorem Threaded.pop {f : Frame} {below : List Frame} (h : plan.Threaded (f :: below)) :
    plan.Threaded below :=
  ⟨fun g hg => h.stands g (List.mem_cons_of_mem f hg), h.followed.tail⟩

/-- The innermost frame follows a link. -/
theorem Threaded.follow {id target : String} {depth : Nat} {more : List String} {below : List Frame}
    (h : plan.Threaded (⟨id, depth, target :: more⟩ :: below)) :
    plan.Threaded (⟨id, depth, more⟩ :: below) ∧ Frame.Followed plan ⟨id, depth, more⟩ target := by
  obtain ⟨n, cursor, hstands⟩ := h.stands _ List.mem_cons_self
  obtain ⟨hmoved, hlink⟩ := hstands.follow
  refine ⟨⟨List.forall_mem_cons.2 ⟨⟨n, _, hmoved⟩, h.pop.stands⟩, ?_⟩, n, cursor, hmoved, hlink⟩
  -- the frame below knows the innermost one by its id only
  exact List.isChain_cons.2 (List.isChain_cons.1 h.followed)

/-- Entering the id that the innermost frame has followed its link to. -/
theorem Threaded.enter {stack : List Frame} (h : plan.Threaded stack) {id : String}
    (hlast : ∀ f ∈ stack.head?, f.Followed plan id) (depth : Nat) (p : Progress) :
    plan.Threaded ((plan.enter id depth p).2.toList ++ stack) := by
  rcases plan.enter_cases id depth p with ⟨_, he⟩ | ⟨_, ⟨_, he⟩ | ⟨n, hget, he⟩⟩
  · rw [he]
    exact h
  · rw [he]
    exact h
  · rw [he]
    exact ⟨List.forall_mem_cons.2 ⟨⟨n, 0, standsAt_zero hget depth⟩, h.stands⟩,
      List.isChain_cons.2 ⟨hlast, h.followed⟩⟩

/-- A step leaves each frame on the one that has followed its link to it last. -/
theorem Threaded.step {s next : State} (h : plan.Threaded s.stack) (hstep : plan.step s = .running next) :
    plan.Threaded next.stack := by
  match s with
  | ⟨[], p⟩ => cases hstep
  | ⟨⟨id, depth, []⟩ :: below, p⟩ =>
    cases hstep
    exact h.pop
  | ⟨⟨id, depth, target :: more⟩ :: below, p⟩ =>
    obtain ⟨hmoved, hlast⟩ := h.follow
    rw [step_follow] at hstep
    injection hstep with hnext
    rw [← hnext]
    refine hmoved.enter ?_ (depth + 1) _
    rintro f ⟨⟩
    exact hlast

theorem Passes.threaded {s : State} (h : plan.Passes root s) : plan.Threaded s.stack := by
  induction h with
  | start =>
    have hentered : plan.Threaded ((plan.enter root 0 {}).2.toList ++ []) :=
      (threaded_nil plan).enter nofun 0 {}
    rwa [List.append_nil] at hentered
  | step _ hstep ih => exact ih.step hstep

/-! ## Kinds of steps -/

/-- A walk from a stored id begins with a frame for it. -/
theorem passes_entered (h : plan.store.get? root = some n) :
    plan.Passes root
      ⟨[⟨root, 0, plan.direction.neighbours n⟩],
        { visited := Std.HashSet.insert {} root, nodes := Std.TreeMap.insert {} root n }⟩ := by
  have hstart : plan.Passes root (plan.start root) := .start
  rw [Plan.start, enter_of_new plan h (by simp) (Nat.zero_le _)] at hstart
  exact hstart

section Follow

variable {id target : String} {depth : Nat} {more : List String} {below : List Frame} {p : Progress}

/-- A link to a visited id is followed by moving the cursor alone. -/
theorem Passes.refuse (h : plan.Passes root ⟨⟨id, depth, target :: more⟩ :: below, p⟩)
    (hvisited : p.visited.contains target) :
    plan.Passes root ⟨⟨id, depth, more⟩ :: below, plan.follow id target p⟩ := by
  refine h.step ?_
  have hfollowed : (plan.follow id target p).visited.contains target := hvisited
  rw [step_follow, enter_of_visited plan hfollowed]
  rfl

/-- A link to a new id with a node gets a frame on top, within the bound. -/
theorem Passes.push (h : plan.Passes root ⟨⟨id, depth, target :: more⟩ :: below, p⟩)
    (hget : plan.store.get? target = some n) (hnew : p.visited.contains target = false)
    (hdepth : depth + 1 ≤ plan.maxDepth) :
    plan.Passes root
      ⟨⟨target, depth + 1, plan.direction.neighbours n⟩ :: ⟨id, depth, more⟩ :: below,
        { plan.follow id target p with
          visited := p.visited.insert target, nodes := p.nodes.insert target n }⟩ := by
  refine h.step ?_
  have hfollowed : (plan.follow id target p).visited.contains target = false := hnew
  rw [step_follow, enter_of_new plan hget hfollowed hdepth]
  rfl

end Follow

/-! ## The way down -/

/-- Counted from the outermost one, the frame at index `i` lies at the depth `i`. -/
theorem Stacked.depth_eq {stack : List Frame} (h : plan.Stacked root stack) {i : Nat} {f : Frame}
    (hf : stack.reverse[i]? = some f) : f.depth = i ∧ i ≤ plan.maxDepth := by
  induction h with
  | nil => cases hf
  | @cons g below n hpath hdepth hbound hget hlinks hbelow ih =>
    rw [List.reverse_cons, List.getElem?_append, List.length_reverse] at hf
    split at hf
    · exact ih hf
    · next hlast =>
      obtain ⟨hi, rfl⟩ := List.getElem?_eq_some_iff.1 hf
      rw [List.length_singleton] at hi
      obtain rfl : i = below.length := by omega
      rw [List.getElem_singleton]
      exact ⟨hdepth, hdepth ▸ hbound⟩

/-- A frame lies less deep than there are frames. -/
theorem Stacked.depth_lt {stack : List Frame} (h : plan.Stacked root stack) {f : Frame} (hf : f ∈ stack) :
    f.depth < stack.length := by
  obtain ⟨i, hi⟩ := List.getElem?_of_mem (List.mem_reverse.2 hf)
  have hlt := (List.getElem?_eq_some_iff.1 hi).1
  rw [List.length_reverse] at hlt
  rwa [(h.depth_eq hi).1]

theorem Stacked.length_le_bound {stack : List Frame} (h : plan.Stacked root stack) :
    stack.length ≤ plan.maxDepth + 1 := by
  cases h with
  | nil => exact Nat.zero_le _
  | cons _ hdepth hbound => exact Nat.succ_le_succ (hdepth ▸ hbound)

theorem Stacked.length_le_size {stack : List Frame} (h : plan.Stacked root stack)
    (hindexed : plan.store.Indexed) : stack.length ≤ plan.store.size := by
  have hroom := hindexed.length_le_size h.nodup h.stored
  rwa [frameIds, List.length_map] at hroom

/-- The frames of a state: counted from the outermost one their depths are their indices, within the bound;
they stand for distinct stored ids, all visited; and each but the outermost is for the link that the frame
below it followed last. -/
structure Descends (plan : Plan) (s : State) : Prop extends Threaded plan s.stack where
  depth_eq : ∀ (i : Nat) (f : Frame), s.stack.reverse[i]? = some f → f.depth = i ∧ i ≤ plan.maxDepth
  nodup : (frameIds s.stack).Nodup
  visited : ∀ id ∈ frameIds s.stack, s.progress.visited.contains id

theorem Passes.descends {s : State} (h : plan.Passes root s) : plan.Descends s where
  toThreaded := h.threaded
  depth_eq _ _ hf := h.coherent.1.stacked.depth_eq hf
  nodup := h.coherent.1.stacked.nodup
  visited := h.coherent.1.stack_visited

end Plan

end EvidenceGraph.Causal

namespace EvidenceGraph.Store

open Causal (Direction Plan)

/-- In every state of a walk after any history the frames are a way down. There are no more of them than
nodes in the store or depths within the bound. What a frame goes to lies no deeper than there are nodes; so
if these can be counted in 64 bits, its depth can, whatever the bound is. -/
theorem frames_descend (ops : List Operation) {root : String} {maxDepth : Nat} {d : Direction}
    {state : Plan.State} (h : Plan.Passes ⟨after ops, maxDepth, d⟩ root state) :
    Plan.Descends ⟨after ops, maxDepth, d⟩ state ∧
      state.stack.length ≤ (after ops).size ∧ state.stack.length ≤ maxDepth + 1 ∧
      (∀ f ∈ state.stack, f.depth + 1 ≤ (after ops).size) ∧
      ((after ops).size < 2 ^ 64 → ∀ f ∈ state.stack, (UInt64.ofNat f.depth + 1).toNat = f.depth + 1) := by
  have hstacked := h.coherent.1.stacked
  have hsize := hstacked.length_le_size (indexed_after ops)
  have hdepth : ∀ f ∈ state.stack, f.depth + 1 ≤ (after ops).size :=
    fun f hf => Nat.le_trans (hstacked.depth_lt hf) hsize
  refine ⟨h.descends, hsize, hstacked.length_le_bound, hdepth, fun hcount f hf => ?_⟩
  have hroom : f.depth + 1 < 2 ^ 64 := Nat.lt_of_le_of_lt (hdepth f hf) hcount
  have hone : (1 : UInt64).toNat = 1 := rfl
  rw [UInt64.toNat_add, UInt64.toNat_ofNat_of_lt' (Nat.lt_of_succ_lt hroom), hone, Nat.mod_eq_of_lt hroom]

/-- With the greatest bound of 64 bits, in a ring of three nodes with a link of `r` to itself and a second one
to `a`: the walk has gone down from `r` over `a`, whose link back was refused, to `b`. -/
theorem frames_descend_ring :
    let ops : List Operation :=
      [.add (causing "r" ["a", "r", "a"]), .add (causing "a" ["r", "b"]), .add (causing "b" ["r"])]
    let plan : Plan := ⟨after ops, 2 ^ 64 - 1, .downstream⟩
    ∃ state, plan.Passes "r" state ∧
      state.stack = [⟨"b", 2, ["r"]⟩, ⟨"a", 1, []⟩, ⟨"r", 0, ["r", "a"]⟩] ∧
      plan.Descends state ∧ state.stack.length ≤ (after ops).size ∧
      (∀ f ∈ state.stack, (UInt64.ofNat f.depth + 1).toNat = f.depth + 1) := by
  intro ops plan
  have hr : plan.store.get? "r" = some (causing "r" ["a", "r", "a"]) := (keeps_after ops).get?_eq "r"
  have ha : plan.store.get? "a" = some (causing "a" ["r", "b"]) := (keeps_after ops).get?_eq "a"
  have hb : plan.store.get? "b" = some (causing "b" ["r"]) := (keeps_after ops).get?_eq "b"
  have hsize : (after ops).size < 2 ^ 64 := by
    show (after ops).toList.length < 2 ^ 64
    rw [toList_after]
    decide
  have hdown := (Plan.passes_entered hr).push ha (by simp) (by decide)
  have hstate := (hdown.refuse (by simp)).push hb (by simp [Plan.follow]) (by decide)
  obtain ⟨hdescends, hlength, -, -, hdepth⟩ := frames_descend ops hstate
  exact ⟨_, hstate, rfl, hdescends, hlength, hdepth hsize⟩

end EvidenceGraph.Store
