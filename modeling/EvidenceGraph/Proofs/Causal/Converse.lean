/-
# `EvidenceGraph.Proofs.Causal.Converse` — walks to effects and walks to causes.

Nothing makes the nodes of a store list their links at both ends. Where they do (`LinksAgree`), a link that
is followed downstream from one stored node to another is followed upstream from the other to the one, so
what leads from `a` to `b` in one direction leads back in the other. Walks whose bound leaves room for every
stored id find exactly what can be reached, and so they are converse to each other, too. With smaller bounds
they need not be: which ids a walk misses depends on its root and on the order of the links.
-/
import EvidenceGraph.Proofs.Causal.Saturation
import Mathlib.Logic.Relation

namespace EvidenceGraph.Store

open Causal (Direction)

variable {s : Store} {d : Direction} {root id u v : String}

/-! ## Reaching an id link by link -/

/-- A link between nodes that are both stored. -/
def Joined (s : Store) (d : Direction) (u v : String) : Prop := s.Linked d u v ∧ s.Stored v

theorem joined_iff :
    s.Joined d u v ↔ ∃ m n, s.get? u = some m ∧ s.get? v = some n ∧ v ∈ d.neighbours m := by
  constructor
  · rintro ⟨⟨m, hm, hv⟩, n, hn⟩
    exact ⟨m, n, hm, hn, hv⟩
  · rintro ⟨m, n, hm, hn, hv⟩
    exact ⟨⟨m, hm, hv⟩, n, hn⟩

theorem Trail.reflTransGen {passed : List String} (h : s.Trail d root passed id) :
    Relation.ReflTransGen (s.Joined d) root id := by
  induction h with
  | start _ => exact .refl
  | step _ hlink hstored ih => exact ih.tail ⟨hlink, hstored⟩

theorem reaches_of_reflTransGen (hroot : s.Stored root)
    (h : Relation.ReflTransGen (s.Joined d) root id) : s.Reaches d root id := by
  induction h with
  | refl => exact ⟨[], .start hroot⟩
  | tail _ hjoined ih =>
    obtain ⟨passed, htrail⟩ := ih
    exact ⟨_, htrail.step hjoined.1 hjoined.2⟩

/-- To reach an id is to come to it over links between stored nodes, from a stored one. -/
theorem reaches_iff :
    s.Reaches d root id ↔
      s.Stored root ∧ s.Stored id ∧ Relation.ReflTransGen (s.Joined d) root id := by
  constructor
  · rintro ⟨passed, htrail⟩
    have hjoined := htrail.reflTransGen
    refine ⟨?_, htrail.stored id List.mem_cons_self, hjoined⟩
    rcases hjoined.cases_head with rfl | ⟨_, ⟨hlink, _⟩, _⟩
    · exact htrail.stored root List.mem_cons_self
    · exact hlink.imp fun _ hn => hn.1
  · rintro ⟨hroot, _, hjoined⟩
    exact reaches_of_reflTransGen hroot hjoined

/-! ## Links that are listed at both ends -/

/-- Of two stored nodes, one lists the other among its effects exactly if the other lists it among its
causes. Ids without a node may be listed anywhere. -/
def LinksAgree (s : Store) : Prop :=
  ∀ x y m n, s.get? x = some m → s.get? y = some n → (y ∈ m.children ↔ x ∈ n.parents)

theorem LinksAgree.joined_iff (h : s.LinksAgree) :
    s.Joined .downstream u v ↔ s.Joined .upstream v u := by
  rw [Store.joined_iff, Store.joined_iff]
  constructor
  · rintro ⟨m, n, hm, hn, hv⟩
    exact ⟨n, m, hn, hm, (h u v m n hm hn).1 hv⟩
  · rintro ⟨n, m, hn, hm, hu⟩
    exact ⟨m, n, hm, hn, (h u v m n hm hn).2 hu⟩

theorem LinksAgree.reaches_iff (h : s.LinksAgree) :
    s.Reaches .downstream u v ↔ s.Reaches .upstream v u := by
  have hswap : s.Joined .downstream = Function.swap (s.Joined .upstream) := by
    funext x y
    exact propext h.joined_iff
  rw [Store.reaches_iff, Store.reaches_iff, hswap, Relation.reflTransGen_swap]
  exact and_left_comm

/-- After any history that left the links of stored nodes listed at both ends, and with a bound of at least
one less than the number of nodes, a walk downstream from `a` finds `b` exactly if a walk upstream from `b`
finds `a`. -/
theorem downstream_converse_upstream (ops : List Operation) (h : (after ops).LinksAgree) {maxDepth : Nat}
    (hsize : (after ops).size - 1 ≤ maxDepth) (a b : String) :
    ((after ops).walk a maxDepth .downstream).contains b ↔
      ((after ops).walk b maxDepth .upstream).contains a := by
  have hindexed := indexed_after ops
  rw [Nat.sub_le_iff_le_add] at hsize
  calc ((after ops).walk a maxDepth .downstream).contains b
      ↔ (after ops).Reaches .downstream a b := hindexed.contains_iff_reaches hsize
    _ ↔ (after ops).Reaches .upstream b a := h.reaches_iff
    _ ↔ ((after ops).walk b maxDepth .upstream).contains a := (hindexed.contains_iff_reaches hsize).symm

/-- A ring of three nodes, one of which links to itself, with links to ids without a node: three links lead
from `r` back to it, and with the bound two `b` is found downstream from `r` and `r` upstream from `b`. -/
theorem downstream_converse_upstream_ring :
    let r : Node := { causing "r" ["a", "missing"] with parents := ["b", "lost"] }
    let a : Node := { causing "a" ["a", "b"] with parents := ["r", "a"] }
    let b : Node := { causing "b" ["r"] with parents := ["a"] }
    let s := after [.add r, .contradict "r" "b", .add a, .add b]
    s.LinksAgree ∧ s.size - 1 ≤ 2 ∧ (s.walk "r" 2 .downstream).contains "b" ∧
      (s.walk "b" 2 .upstream).contains "r" := by
  intro r a b s
  have hget (id : String) : s.get? id = [r, a, b].find? fun n => n.id = id := (keeps_after _).get?_eq id
  have hagree : s.LinksAgree := by
    have hall : ∀ m ∈ [r, a, b], ∀ n ∈ [r, a, b], n.id ∈ m.children ↔ m.id ∈ n.parents := by
      decide
    intro x y m n hm hn
    rw [hget] at hm hn
    obtain rfl : m.id = x := by simpa using List.find?_some hm
    obtain rfl : n.id = y := by simpa using List.find?_some hn
    exact hall m (List.mem_of_find?_eq_some hm) n (List.mem_of_find?_eq_some hn)
  have hsize : s.size - 1 ≤ 2 := by
    show s.toList.length - 1 ≤ 2
    rw [toList_after]
    decide
  have hfound : (s.walk "r" 2 .downstream).contains "b" := by
    simp [walk, Causal.Plan.walk, Causal.Plan.run_start, Causal.Plan.visit, hget, r, a, b, causing,
      Causal.Graph.contains]
  exact ⟨hagree, hsize, hfound, (downstream_converse_upstream _ hagree hsize "r" "b").1 hfound⟩

end EvidenceGraph.Store
