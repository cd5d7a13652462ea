/-
# `EvidenceGraph.Proofs.Store.History` — a store is what its history made of it.

A history is a list of operations on the empty store. Nodes are kept in an array and found through an
index; the two stay in step because a node is only ever added at the end, and only under an id that the
index does not have (`Indexed`). So of the nodes that a history offers the store keeps the first one of
each id, in their order (`firsts`), and an id always finds the same node from then on. Relations never touch
the nodes.
-/
import EvidenceGraph.Store.Basic
import Mathlib.Data.List.Induction

namespace EvidenceGraph

/-- An operation that may change a store. -/
inductive Operation where
  | add (n : Node)
  | contradict (a b : String)
  | support (supporter supported : String)

/-- The node that an operation offers to a store, if it is one that adds a node. -/
def Operation.node? : Operation → Option Node
  | .add n => some n
  | .contradict _ _ => none
  | .support _ _ => none

namespace Store

/-- The store after one more operation. -/
def apply (s : Store) : Operation → Store
  | .add n => (s.add n).1
  | .contradict a b => (s.addContradiction a b).1
  | .support supporter supported => (s.addSupport supporter supported).1

/-- The store after more operations. -/
def applyAll (s : Store) (ops : List Operation) : Store := ops.foldl apply s

/-- The store after operations on the empty one. -/
def after (ops : List Operation) : Store := empty.applyAll ops

/-- The nodes that operations offer to a store, in their order. -/
def offered (ops : List Operation) : List Node := ops.filterMap Operation.node?

/-- The first node of each id, in the order in which the ids come up. -/
def firsts : List Node → List Node
  | [] => []
  | n :: more => n :: (firsts more).filter fun m => m.id ≠ n.id

/-! ## First nodes -/

/-- Looking for an id only ever finds the first node that has it. -/
theorem find?_firsts (nodes : List Node) (id : String) :
    (firsts nodes).find? (fun n => n.id = id) = nodes.find? fun n => n.id = id := by
  induction nodes with
  | nil => rfl
  | cons m more ih =>
    by_cases hm : m.id = id
    · simp [firsts, hm]
    · -- the nodes that were left out behind `m` have the id of `m`, which is another one
      have hfilter : ((firsts more).filter fun n => n.id ≠ m.id).find? (fun n => n.id = id) =
          (firsts more).find? fun n => n.id = id := by
        rw [List.find?_filter]
        congr 1
        funext n
        by_cases hn : n.id = id
        · simp [hn, Ne.symm hm]
        · simp [hn]
      rw [firsts, List.find?_cons_of_neg (by simpa using hm), List.find?_cons_of_neg (by simpa using hm),
        hfilter, ih]

theorem exists_mem_firsts {nodes : List Node} {id : String} :
    (∃ n ∈ firsts nodes, n.id = id) ↔ ∃ n ∈ nodes, n.id = id := by
  have h := congrArg Option.isSome (find?_firsts nodes id)
  rw [Bool.eq_iff_iff, List.find?_isSome, List.find?_isSome] at h
  simpa using h

theorem mem_of_mem_firsts {nodes : List Node} {n : Node} (h : n ∈ firsts nodes) : n ∈ nodes := by
  induction nodes with
  | nil => exact h
  | cons m more ih =>
    rcases List.mem_cons.1 h with rfl | h
    · exact List.mem_cons_self
    · exact List.mem_cons_of_mem m (ih (List.mem_filter.1 h).1)

/-- A node behind the others is a first one if its id is new. -/
theorem firsts_concat (nodes : List Node) (n : Node) :
    firsts (nodes ++ [n]) = if ∃ m ∈ nodes, m.id = n.id then firsts nodes else firsts nodes ++ [n] := by
  induction nodes with
  | nil => simp [firsts]
  | cons m more ih =>
    rw [List.cons_append, firsts, ih]
    by_cases hmore : ∃ k ∈ more, k.id = n.id
    · have hall : ∃ k ∈ m :: more, k.id = n.id := by
        obtain ⟨k, hk, hid⟩ := hmore
        exact ⟨k, List.mem_cons_of_mem m hk, hid⟩
      rw [if_pos hmore, if_pos hall, firsts]
    · rw [if_neg hmore, List.filter_append]
      by_cases hid : m.id = n.id
      · rw [if_pos ⟨m, List.mem_cons_self, hid⟩, firsts]
        simp [hid]
      · have hnone : ¬ ∃ k ∈ m :: more, k.id = n.id := by
          rintro ⟨k, hk, hkid⟩
          rcases List.mem_cons.1 hk with rfl | hk
          · exact hid hkid
          · exact hmore ⟨k, hk, hkid⟩
        rw [if_neg hnone, firsts]
        simp [Ne.symm hid]

/-- Nodes of different ids are all first ones. -/
theorem firsts_of_nodup {nodes : List Node} (h : (nodes.map Node.id).Nodup) : firsts nodes = nodes := by
  induction nodes with
  | nil => rfl
  | cons n more ih =>
    rw [List.map_cons, List.nodup_cons] at h
    have hother : ∀ m ∈ more, m.id ≠ n.id := by
      intro m hm hid
      exact h.1 (List.mem_map.2 ⟨m, hm, hid⟩)
    rw [firsts, ih h.2, List.filter_eq_self.2 fun m hm => by simpa using hother m hm]

/-! ## Nodes and index in step -/

/-- The index has an id at a position exactly if the node there has this id. -/
def Indexed (s : Store) : Prop :=
  ∀ (id : String) (i : Nat), s.index[id]? = some i ↔ s.nodes[i]?.map Node.id = some id

theorem indexed_empty : empty.Indexed := by
  intro id i
  simp [empty]

/-- An id is known exactly if a node has it. -/
theorem Indexed.contains_iff {s : Store} (h : s.Indexed) {id : String} :
    s.contains id ↔ ∃ n ∈ s.toList, n.id = id := by
  have hmem : s.contains id ↔ ∃ i, s.index[id]? = some i := by
    rw [contains, ← Std.HashMap.isSome_getElem?_eq_contains, Option.isSome_iff_exists]
  rw [hmem]
  constructor
  · rintro ⟨i, hi⟩
    obtain ⟨n, hn, hid⟩ := Option.map_eq_some_iff.1 ((h id i).1 hi)
    exact ⟨n, Array.mem_toList_iff.2 (Array.mem_of_getElem? hn), hid⟩
  · rintro ⟨n, hn, hid⟩
    obtain ⟨i, hi⟩ := Array.mem_iff_getElem?.1 (Array.mem_toList_iff.1 hn)
    exact ⟨i, (h id i).2 (by rw [hi, Option.map_some, hid])⟩

/-- Two nodes of one id stand at one position. -/
theorem Indexed.position_unique {s : Store} (h : s.Indexed) {i j : Nat} {id : String}
    (hi : s.nodes[i]?.map Node.id = some id) (hj : s.nodes[j]?.map Node.id = some id) : i = j := by
  have hboth : some i = some j := ((h id i).2 hi).symm.trans ((h id j).2 hj)
  exact Option.some.inj hboth

theorem Indexed.nodup {s : Store} (h : s.Indexed) : (s.toList.map Node.id).Nodup := by
  rw [List.Nodup, List.pairwise_map, List.pairwise_iff_getElem]
  intro i j hi hj hij hsame
  have hat : ∀ k (hk : k < s.toList.length), s.nodes[k]?.map Node.id = some s.toList[k].id := by
    intro k hk
    have hk' : k < s.nodes.size := hk
    rw [Array.getElem?_eq_getElem hk']
    rfl
  have hi' := hat i hi
  rw [hsame] at hi'
  exact absurd (h.position_unique hi' (hat j hj)) (Nat.ne_of_lt hij)

/-- An id finds the first node that has it, and there is no other one. -/
theorem Indexed.get?_eq {s : Store} (h : s.Indexed) (id : String) :
    s.get? id = s.toList.find? fun n => n.id = id := by
  cases hi : s.index[id]? with
  | none =>
    have hnone : ∀ n ∈ s.toList, n.id ≠ id := by
      intro n hn hid
      have hknown := h.contains_iff.2 ⟨n, hn, hid⟩
      rw [contains, ← Std.HashMap.isSome_getElem?_eq_contains, hi] at hknown
      cases hknown
    rw [get?, hi, List.find?_eq_none.2 fun n hn => by simpa using hnone n hn]
    rfl
  | some i =>
    obtain ⟨n, hn, hid⟩ := Option.map_eq_some_iff.1 ((h id i).1 hi)
    rw [get?, hi, Option.bind_some, hn, eq_comm, List.find?_eq_some_iff_getElem]
    obtain ⟨hlt, hat⟩ := Array.getElem?_eq_some_iff.1 hn
    refine ⟨by simpa using hid, i, by simpa [toList] using hlt, by simpa [toList] using hat, ?_⟩
    intro j hj
    have hother : (s.nodes[j]?.map Node.id) ≠ some id := by
      intro hsame
      exact absurd (h.position_unique hsame ((h id i).1 hi)) (Nat.ne_of_lt hj)
    rw [Array.getElem?_eq_getElem (Nat.lt_trans hj hlt), Option.map_some] at hother
    have hid' : s.nodes[j].id ≠ id := fun hsame => hother (congrArg some hsame)
    simp [toList, hid']

/-! ## One operation -/

theorem add_of_known {s : Store} {n : Node} (h : s.contains n.id) : s.add n = (s, false) := by
  rw [add, if_pos h]

theorem add_of_new {s : Store} {n : Node} (h : s.contains n.id = false) :
    s.add n =
      ({ s with nodes := s.nodes.push n, index := s.index.insert n.id s.nodes.size }, true) := by
  rw [add, if_neg (by simp [h])]

theorem toList_add (s : Store) (n : Node) :
    (s.add n).1.toList = if s.contains n.id then s.toList else s.toList ++ [n] := by
  cases h : s.contains n.id with
  | true => simp [add_of_known h]
  | false => simp [add_of_new h, toList]

/-- Adding a node keeps the index in step. -/
theorem Indexed.add {s : Store} (h : s.Indexed) (n : Node) : (s.add n).1.Indexed := by
  cases hknown : s.contains n.id with
  | true => rwa [add_of_known hknown]
  | false =>
    rw [add_of_new hknown]
    intro id i
    show (s.index.insert n.id s.nodes.size)[id]? = some i ↔ (s.nodes.push n)[i]?.map Node.id = some id
    rw [Std.HashMap.getElem?_insert, Array.getElem?_push]
    by_cases hid : n.id = id
    · have hnew : ∀ j : Nat, s.nodes[j]?.map Node.id ≠ some id := by
        intro j hj
        have hindex := (h id j).2 hj
        rw [contains, ← Std.HashMap.isSome_getElem?_eq_contains, hid, hindex] at hknown
        cases hknown
      by_cases hi : i = s.nodes.size
      · simp [hid, hi]
      · simp [hid, hi, Ne.symm hi, hnew i]
    · by_cases hi : i = s.nodes.size
      · have hout : s.index[id]? ≠ some s.nodes.size := by
          intro hin
          have hat := (h id s.nodes.size).1 hin
          simp at hat
        simp [hid, hi, hout]
      · simp [hid, hi, h id i]

/-- One operation keeps the index in step. -/
theorem Indexed.apply {s : Store} (h : s.Indexed) : (op : Operation) → (s.apply op).Indexed
  | .add n => h.add n
  | .contradict _ _ => h
  | .support _ _ => h

/-- A node that was found is found after one more operation, too. -/
theorem Indexed.get?_apply {s : Store} (h : s.Indexed) {id : String} {n : Node}
    (hn : s.get? id = some n) : (op : Operation) → (s.apply op).get? id = some n
  | .contradict _ _ => hn
  | .support _ _ => hn
  | .add m => by
    rw [h.get?_eq] at hn
    rw [(h.apply (.add m)).get?_eq]
    show (s.add m).1.toList.find? _ = _
    rw [toList_add]
    split
    · exact hn
    · rw [List.find?_append, hn]
      rfl

/-! ## Histories -/

theorem after_concat (ops : List Operation) (op : Operation) : after (ops ++ [op]) = (after ops).apply op := by
  rw [after, applyAll, List.foldl_append]
  rfl

/-- What every operation keeps holds after any history. -/
theorem after_induction {P : List Operation → Store → Prop} (hempty : P [] empty)
    (hstep : ∀ ops op, P ops (after ops) → P (ops ++ [op]) ((after ops).apply op)) (ops : List Operation) :
    P ops (after ops) := by
  induction ops using List.reverseRecOn with
  | nil => exact hempty
  | append_singleton ops op ih =>
    rw [after_concat]
    exact hstep ops op ih

theorem Indexed.applyAll {s : Store} (h : s.Indexed) (later : List Operation) :
    (s.applyAll later).Indexed := by
  induction later generalizing s with
  | nil => exact h
  | cons op later ih => exact ih (h.apply op)

theorem indexed_after (ops : List Operation) : (after ops).Indexed := indexed_empty.applyAll ops

theorem Indexed.get?_applyAll {s : Store} (h : s.Indexed) {id : String} {n : Node}
    (hn : s.get? id = some n) (later : List Operation) : (s.applyAll later).get? id = some n := by
  induction later generalizing s with
  | nil => exact hn
  | cons op later ih => exact ih (h.apply op) (h.get?_apply hn op)

theorem offered_concat (ops : List Operation) (op : Operation) :
    offered (ops ++ [op]) = offered ops ++ offered [op] := by
  rw [offered, List.filterMap_append]
  rfl

/-- A store lists the first nodes of its history. -/
theorem toList_after (ops : List Operation) : (after ops).toList = firsts (offered ops) := by
  refine after_induction (P := fun ops s => s.toList = firsts (offered ops)) rfl ?_ ops
  intro ops op ih
  rw [offered_concat]
  cases op with
  | contradict a b =>
    show (after ops).toList = firsts (offered ops ++ [])
    rw [ih, List.append_nil]
  | support a b =>
    show (after ops).toList = firsts (offered ops ++ [])
    rw [ih, List.append_nil]
  | add n =>
    show ((after ops).add n).1.toList = _
    have hknown : (after ops).contains n.id ↔ ∃ m ∈ offered ops, m.id = n.id := by
      rw [(indexed_after ops).contains_iff, ih, exists_mem_firsts]
    rw [toList_add, ih]
    show _ = firsts (offered ops ++ [n])
    rw [firsts_concat]
    simp only [hknown]

/-- A store made of nodes is the one after adding them in turn. -/
theorem ofNodes_eq_after (nodes : List Node) : ofNodes nodes = after (nodes.map .add) := by
  rw [ofNodes, after, applyAll, List.foldl_map]
  rfl

theorem offered_map_add (nodes : List Node) : offered (nodes.map .add) = nodes := by
  rw [offered, List.filterMap_map]
  exact List.filterMap_some

/-! ## What a store keeps -/

/-- A store keeps the first node of each id out of the nodes that were offered to it, finds it by its id
from then on, and takes no second one. -/
structure Keeps (s : Store) (nodes : List Node) : Prop where
  index_iff : ∀ (id : String) (i : Nat), s.index[id]? = some i ↔ s.nodes[i]?.map Node.id = some id
  index_lt : ∀ (id : String) (i : Nat), s.index[id]? = some i → i < s.nodes.size
  ids_nodup : (s.toList.map Node.id).Nodup
  toList_eq : s.toList = firsts nodes
  get?_eq : ∀ id, s.get? id = nodes.find? fun n => n.id = id
  get?_lasts : ∀ id n (later : List Operation), s.get? id = some n → (s.applyAll later).get? id = some n
  add_new : ∀ n, (s.add n).2 = true ↔ ∀ m ∈ nodes, m.id ≠ n.id
  add_known : ∀ n, (s.add n).2 = false → (s.add n).1 = s
  relisted : (ofNodes s.toList).toList = s.toList

theorem toList_ofNodes (nodes : List Node) : (ofNodes nodes).toList = firsts nodes := by
  rw [ofNodes_eq_after, toList_after, offered_map_add]

/-- An index in step and a list of first nodes are all that it takes. -/
theorem Indexed.keeps {s : Store} {nodes : List Node} (h : s.Indexed) (hlist : s.toList = firsts nodes) :
    s.Keeps nodes where
  index_iff := h
  index_lt id i hi := by
    obtain ⟨n, hn, _⟩ := Option.map_eq_some_iff.1 ((h id i).1 hi)
    exact (Array.getElem?_eq_some_iff.1 hn).1
  ids_nodup := h.nodup
  toList_eq := hlist
  get?_eq id := by rw [h.get?_eq, hlist, find?_firsts]
  get?_lasts _ _ later hn := h.get?_applyAll hn later
  add_new n := by
    have hknown : s.contains n.id ↔ ∃ m ∈ nodes, m.id = n.id := by
      rw [h.contains_iff, hlist, exists_mem_firsts]
    cases hc : s.contains n.id with
    | true =>
      obtain ⟨m, hm, hid⟩ := hknown.1 hc
      simpa [add_of_known hc] using ⟨m, hm, hid⟩
    | false =>
      rw [hc] at hknown
      simpa [add_of_new hc] using hknown
  add_known n hn := by
    cases hc : s.contains n.id with
    | true => rw [add_of_known hc]
    | false => simp [add_of_new hc] at hn
  relisted := by rw [toList_ofNodes, firsts_of_nodup h.nodup]

theorem keeps_after (ops : List Operation) : (after ops).Keeps (offered ops) :=
  (indexed_after ops).keeps (toList_after ops)

theorem keeps_ofNodes (nodes : List Node) : (ofNodes nodes).Keeps nodes := by
  have hindexed : (ofNodes nodes).Indexed := ofNodes_eq_after nodes ▸ indexed_after _
  exact hindexed.keeps (toList_ofNodes nodes)

/-- After any history, and when made of any nodes, a store keeps of the nodes that were offered to it
exactly the first one of each id. -/
theorem history_keeps_firsts :
    (∀ ops, (after ops).Keeps (offered ops)) ∧ ∀ nodes, (ofNodes nodes).Keeps nodes :=
  ⟨keeps_after, keeps_ofNodes⟩

end Store

end EvidenceGraph
