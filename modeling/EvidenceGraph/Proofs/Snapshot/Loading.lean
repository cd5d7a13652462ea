/-
# `EvidenceGraph.Proofs.Snapshot.Loading` — when a snapshot becomes a store, which one, and why not.

Loading goes over three lists and may stop at any place in them. Each list is answered for by one equation
that names the first offence in it, or else the operations that it amounts to (`addNodes_eq`, `addPairs_eq`).
Relations are added after all nodes and never change which ids are known, so what counts for every pair is
the list of nodes, duplicates included. Together (`toStore_eq`) a snapshot fails at its first node that is
not valid, or else at the first id in its pairs that no node has; or else it becomes the store after the
history that it lists, and of such a store everything is known.
-/
import EvidenceGraph.Proofs.Node.Validity
import EvidenceGraph.Proofs.Store.Pairs
import EvidenceGraph.Snapshot

namespace EvidenceGraph.Snapshot

open Store (after)

/-! ## What a snapshot lists -/

/-- A listed node has the id. -/
def Listed (snapshot : Snapshot) (id : String) : Prop := ∃ n ∈ snapshot.nodes, n.id = id

instance (snapshot : Snapshot) (id : String) : Decidable (snapshot.Listed id) :=
  inferInstanceAs (Decidable (∃ n ∈ snapshot.nodes, n.id = id))

/-- The ids of pairs, pair by pair, the left one first. -/
def ends (pairs : List (String × String)) : List String := pairs.flatMap fun p => [p.1, p.2]

/-- The ids in the relations of a snapshot, contradictions first. -/
def related (snapshot : Snapshot) : List String := ends (snapshot.contradictions ++ snapshot.supports)

/-- The operations that a snapshot lists. -/
def history (snapshot : Snapshot) : List Operation :=
  snapshot.nodes.map .add ++ snapshot.contradictions.map (fun p => .contradict p.1 p.2) ++
    snapshot.supports.map fun p => .support p.1 p.2

/-! ## Loading one list -/

/-- Nodes are added up to the first one that is not valid. -/
theorem addNodes_eq (s : Store) (nodes : List Node) :
    addNodes s nodes =
      match nodes.find? fun n => ¬ n.Valid with
      | some n => .error (.validation (Violation.describe n.violations))
      | none => .ok (s.applyAll (nodes.map .add)) := by
  induction nodes generalizing s with
  | nil => rfl
  | cons n more ih =>
    rw [addNodes]
    by_cases h : n.Valid
    · rw [Node.validate_of_valid h, List.find?_cons_of_neg (by simpa using h)]
      exact ih (s.add n).1
    · rw [Node.validate_of_not_valid h, List.find?_cons_of_pos (by simpa using h)]
      rfl

/-- Operations on relations do not change which ids are known. -/
theorem contains_apply (s : Store) {op : Operation} (h : op.isRelation) (id : String) :
    (s.apply op).contains id = s.contains id := by
  cases op with
  | add n => cases h
  | contradict a b => rfl
  | support a b => rfl

theorem contains_applyAll (s : Store) {ops : List Operation} (h : ∀ op ∈ ops, op.isRelation) (id : String) :
    (s.applyAll ops).contains id = s.contains id := by
  induction ops generalizing s with
  | nil => rfl
  | cons op more ih =>
    rw [List.forall_mem_cons] at h
    exact (ih (s.apply op) h.2).trans (contains_apply s h.1 id)

/-- Pairs are added up to the first id in them that is not known. -/
theorem addPairs_eq {op : String → String → Operation} (hop : ∀ a b, (op a b).isRelation) (s : Store)
    (pairs : List (String × String)) :
    addPairs (fun s a b => s.apply (op a b)) s pairs =
      match (ends pairs).find? fun id => !s.contains id with
      | some id => .error (.nodeNotFound id)
      | none => .ok (s.applyAll (pairs.map fun p => op p.1 p.2)) := by
  induction pairs generalizing s with
  | nil => rfl
  | cons p more ih =>
    obtain ⟨a, b⟩ := p
    show _ = match (a :: b :: ends more).find? _ with | some id => _ | none => _
    rw [addPairs, require, require]
    cases ha : s.contains a with
    | false =>
      rw [List.find?_cons_of_pos (by simp [ha])]
      rfl
    | true =>
      rw [List.find?_cons_of_neg (by simp [ha])]
      cases hb : s.contains b with
      | false =>
        rw [List.find?_cons_of_pos (by simp [hb])]
        rfl
      | true =>
        rw [List.find?_cons_of_neg (by simp [hb])]
        -- the pair is added before the next ones are looked at, but that adds no ids
        have hmore := ih (s.apply (op a b))
        simp only [contains_apply s (hop a b)] at hmore
        exact hmore

/-! ## Loading a snapshot -/

/-- Once the nodes are added, the known ids are the listed ones, whichever pairs are added behind them. -/
theorem contains_listed (snapshot : Snapshot) {ops : List Operation} (h : ∀ op ∈ ops, op.isRelation)
    (id : String) :
    ((after (snapshot.nodes.map .add)).applyAll ops).contains id = decide (snapshot.Listed id) := by
  rw [contains_applyAll _ h, Bool.eq_iff_iff, decide_eq_true_iff, (Store.indexed_after _).contains_iff,
    Store.toList_after, Store.exists_mem_firsts, Store.offered_map_add, Listed]

/-- Once the nodes are added, pairs are added up to the first id in them that is not listed. -/
theorem addPairs_listed (snapshot : Snapshot) (op : String → String → Operation)
    (hop : ∀ a b, (op a b).isRelation) {ops : List Operation} (h : ∀ op ∈ ops, op.isRelation)
    (pairs : List (String × String)) :
    addPairs (fun s a b => s.apply (op a b)) ((after (snapshot.nodes.map .add)).applyAll ops) pairs =
      match (ends pairs).find? fun id => ¬ snapshot.Listed id with
      | some id => .error (.nodeNotFound id)
      | none =>
        .ok (((after (snapshot.nodes.map .add)).applyAll ops).applyAll (pairs.map fun p => op p.1 p.2)) := by
  have hunknown : (fun id => !((after (snapshot.nodes.map .add)).applyAll ops).contains id) =
      fun id => decide (¬ snapshot.Listed id) := by
    funext id
    rw [contains_listed snapshot h, decide_not]
  rw [addPairs_eq hop, hunknown]

theorem after_history (snapshot : Snapshot) :
    after snapshot.history =
      ((after (snapshot.nodes.map .add)).applyAll
        (snapshot.contradictions.map fun p => .contradict p.1 p.2)).applyAll
        (snapshot.supports.map fun p => .support p.1 p.2) := by
  rw [history, after, Store.applyAll, List.foldl_append, List.foldl_append]
  rfl

/-- A snapshot fails at its first node that is not valid, or else at the first id in its relations that is
not listed; or else it becomes the store after its history. -/
theorem toStore_eq (snapshot : Snapshot) :
    snapshot.toStore =
      match snapshot.nodes.find? fun n => ¬ n.Valid with
      | some n => .error (.validation (Violation.describe n.violations))
      | none =>
        match snapshot.related.find? fun id => ¬ snapshot.Listed id with
        | some id => .error (.nodeNotFound id)
        | none => .ok (after snapshot.history) := by
  have hrelated : (snapshot.related.find? fun id => ¬ snapshot.Listed id) =
      ((ends snapshot.contradictions).find? fun id => ¬ snapshot.Listed id).or
        ((ends snapshot.supports).find? fun id => ¬ snapshot.Listed id) := by
    rw [related, ends, List.flatMap_append, List.find?_append]
    rfl
  rw [toStore, addNodes_eq, hrelated]
  cases snapshot.nodes.find? fun n => ¬ n.Valid with
  | some n => rfl
  | none =>
    have hcontradictions := snapshot.addPairs_listed .contradict (fun _ _ => rfl)
      (List.forall_mem_nil _) snapshot.contradictions
    have hsupports := snapshot.addPairs_listed .support (fun _ _ => rfl)
      (List.forall_mem_map.2 fun p (_ : p ∈ snapshot.contradictions) =>
        (rfl : (Operation.contradict p.1 p.2).isRelation = true)) snapshot.supports
    show (addPairs (fun s a b => s.apply (.contradict a b)) ((after (snapshot.nodes.map .add)).applyAll [])
      snapshot.contradictions >>= fun s => addPairs (fun s a b => s.apply (.support a b)) s _) = _
    rw [hcontradictions]
    cases (ends snapshot.contradictions).find? fun id => ¬ snapshot.Listed id with
    | some id => rfl
    | none =>
      rw [after_history]
      exact hsupports

/-! ## What loading promises -/

/-- All nodes are valid, and the relations name only listed ids. -/
structure Sound (snapshot : Snapshot) : Prop where
  valid : ∀ n ∈ snapshot.nodes, n.Valid
  contradictions_listed : ∀ a b, (a, b) ∈ snapshot.contradictions → snapshot.Listed a ∧ snapshot.Listed b
  supports_listed : ∀ a b, (a, b) ∈ snapshot.supports → snapshot.Listed a ∧ snapshot.Listed b

/-- The store has the first node of each listed id, in their order, and exactly the listed relations. -/
structure Describes (snapshot : Snapshot) (s : Store) : Prop where
  keeps : s.Keeps snapshot.nodes
  valid : ∀ n ∈ s.toList, n.Valid
  contradiction_iff : ∀ a b, s.hasContradiction a b ↔
    (a, b) ∈ snapshot.contradictions ∨ (b, a) ∈ snapshot.contradictions
  support_iff : ∀ a b, s.hasSupport a b ↔ (a, b) ∈ snapshot.supports
  related_stored : ∀ a b, s.hasContradiction a b ∨ s.hasSupport a b → s.contains a ∧ s.contains b

/-- The first id in the relations that is not listed. -/
def FirstMissing (snapshot : Snapshot) (id : String) : Prop :=
  ¬ snapshot.Listed id ∧
    ∃ before behind, snapshot.related = before ++ id :: behind ∧ ∀ known ∈ before, snapshot.Listed known

theorem find?_related_eq_some {snapshot : Snapshot} {id : String} :
    (snapshot.related.find? fun id => ¬ snapshot.Listed id) = some id ↔ snapshot.FirstMissing id := by
  simp [List.find?_eq_some_iff_append, FirstMissing]

/-- A snapshot is sound if it has neither a node that is not valid nor a missing id. -/
theorem sound_iff {snapshot : Snapshot} :
    snapshot.Sound ↔
      (snapshot.nodes.find? fun n => ¬ n.Valid) = none ∧
        (snapshot.related.find? fun id => ¬ snapshot.Listed id) = none := by
  have hrelated : (∀ id ∈ snapshot.related, snapshot.Listed id) ↔
      ∀ a b, (a, b) ∈ snapshot.contradictions ∨ (a, b) ∈ snapshot.supports →
        snapshot.Listed a ∧ snapshot.Listed b := by
    simp only [related, ends, List.forall_mem_flatMap, List.mem_append, Prod.forall, List.forall_mem_cons,
      List.not_mem_nil, false_implies, implies_true, and_true]
  simp only [List.find?_eq_none, decide_not, Bool.not_eq_true', decide_eq_false_iff_not, not_not]
  rw [hrelated]
  constructor
  · rintro ⟨hvalid, hcontradictions, hsupports⟩
    exact ⟨hvalid, fun a b => Or.rec (hcontradictions a b) (hsupports a b)⟩
  · rintro ⟨hvalid, hlisted⟩
    exact ⟨hvalid, fun a b h => hlisted a b (.inl h), fun a b h => hlisted a b (.inr h)⟩

theorem offered_history (snapshot : Snapshot) : Store.offered snapshot.history = snapshot.nodes := by
  simp [Store.offered, history, List.filterMap_append, List.filterMap_map, Function.comp_def, Operation.node?]

/-- The store after the history of a sound snapshot. -/
theorem Sound.describes {snapshot : Snapshot} (h : snapshot.Sound) :
    snapshot.Describes (after snapshot.history) := by
  have hkeeps := Store.keeps_after snapshot.history
  rw [offered_history] at hkeeps
  have hcontradiction (a b : String) : (after snapshot.history).hasContradiction a b ↔
      (a, b) ∈ snapshot.contradictions ∨ (b, a) ∈ snapshot.contradictions := by
    rw [Store.hasContradiction_after]
    simp [history]
  have hsupport (a b : String) : (after snapshot.history).hasSupport a b ↔ (a, b) ∈ snapshot.supports := by
    rw [Store.hasSupport_after]
    simp [history]
  have hstored {id : String} (hid : snapshot.Listed id) : (after snapshot.history).contains id := by
    rw [(Store.indexed_after _).contains_iff, hkeeps.toList_eq, Store.exists_mem_firsts]
    exact hid
  refine ⟨hkeeps, ?_, hcontradiction, hsupport, ?_⟩
  · intro n hn
    rw [hkeeps.toList_eq] at hn
    exact h.valid n (Store.mem_of_mem_firsts hn)
  · intro a b hab
    rw [hcontradiction, hsupport] at hab
    rcases hab with (hab | hba) | hab
    · exact (h.contradictions_listed a b hab).imp hstored hstored
    · exact (h.contradictions_listed b a hba).symm.imp hstored hstored
    · exact (h.supports_listed a b hab).imp hstored hstored

/-- A snapshot becomes a store exactly if it is sound, and then the store is the one that it describes.
Otherwise it fails because of a node that is not valid, or if there is none, because of the first id in its
relations that is not listed. -/
theorem toStore_exact (snapshot : Snapshot) :
    ((∃ s, snapshot.toStore = .ok s) ↔ snapshot.Sound) ∧
      (∀ s, snapshot.toStore = .ok s → snapshot.Describes s) ∧
      ∀ e, snapshot.toStore = .error e →
        (∃ n ∈ snapshot.nodes, ¬ n.Valid) ∧ (∃ problem, e = .validation problem) ∨
          (∀ n ∈ snapshot.nodes, n.Valid) ∧ ∃ id, snapshot.FirstMissing id ∧ e = .nodeNotFound id := by
  rw [toStore_eq, sound_iff]
  cases hnode : snapshot.nodes.find? fun n => ¬ n.Valid with
  | some n =>
    have hinvalid : ∃ n ∈ snapshot.nodes, ¬ n.Valid :=
      ⟨n, List.mem_of_find?_eq_some hnode, by simpa using List.find?_some hnode⟩
    refine ⟨by simp, by simp, ?_⟩
    intro e he
    cases he
    exact .inl ⟨hinvalid, _, rfl⟩
  | none =>
    have hvalid : ∀ n ∈ snapshot.nodes, n.Valid := by simpa using hnode
    cases hid : snapshot.related.find? fun id => ¬ snapshot.Listed id with
    | some id =>
      refine ⟨by simp, by simp, ?_⟩
      intro e he
      cases he
      exact .inr ⟨hvalid, id, find?_related_eq_some.1 hid, rfl⟩
    | none =>
      refine ⟨by simp, ?_, by simp⟩
      intro s hs
      cases hs
      exact (sound_iff.2 ⟨hnode, hid⟩).describes

/-- A second node of an id is passed over and the relations are taken in; with two more pairs the snapshot
fails at the first id that it does not list. -/
theorem toStore_exact_duplicate :
    let x : Node := { id := "x", claimType := "claim", confidence := 0.9 }
    let y : Node := { id := "y", claimType := "claim", confidence := 0.4 }
    let snapshot : Snapshot :=
      { nodes := [x, y, { x with confidence := 0.1 }], contradictions := [("x", "y")],
        supports := [("y", "x")] }
    let dangling : Snapshot := { snapshot with supports := [("y", "x"), ("y", "z"), ("w", "x")] }
    (∃ s, snapshot.toStore = .ok s ∧ s.toList = [x, y] ∧ s.hasContradiction "y" "x") ∧
      dangling.toStore = .error (.nodeNotFound "z") := by
  intro x y snapshot dangling
  constructor
  · obtain ⟨hloads, hdescribes, _⟩ := toStore_exact snapshot
    obtain ⟨s, hs⟩ := hloads.2 (sound_iff.2 ⟨by decide, by decide⟩)
    have hs' := hdescribes s hs
    refine ⟨s, hs, hs'.keeps.toList_eq.trans (by rfl), ?_⟩
    exact (hs'.contradiction_iff "y" "x").2 (.inr (by decide))
  · have hvalid : ∀ n ∈ dangling.nodes, n.Valid := by decide
    have hfirst : (dangling.related.find? fun id => ¬ dangling.Listed id) = some "z" := by decide
    obtain ⟨hloads, _, hfails⟩ := toStore_exact dangling
    cases hresult : dangling.toStore with
    | ok s =>
      have hlisted := (hloads.1 ⟨s, hresult⟩).supports_listed "y" "z" (by decide)
      exact absurd hlisted.2 (find?_related_eq_some.1 hfirst).1
    | error e =>
      rcases hfails e hresult with ⟨⟨n, hn, hinvalid⟩, _⟩ | ⟨_, id, hid, rfl⟩
      · exact absurd (hvalid n hn) hinvalid
      · rw [find?_related_eq_some.2 hid] at hfirst
        rw [Option.some.inj hfirst]

end EvidenceGraph.Snapshot
