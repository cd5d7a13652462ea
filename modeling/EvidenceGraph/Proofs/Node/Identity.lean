/-
# `EvidenceGraph.Proofs.Node.Identity` — what the hashed bytes of a node tell.

The bytes behind the identity of a node are those of its kind, content, source and time with a zero between
them, and those behind its Merkle hash are those of its parents with a zero behind each. Compact content has no
zero and can be read back, but strings may hold zeros, and nothing marks those. So the zeros divide the
bytes only where the parts are known to hold as many: then they tell the parts (`bytes_tell_parts`). Two nodes may
differ and have the same bytes, if a zero is moved from one part to the next (`bytes_ambiguous`).
-/
import EvidenceGraph.Node.Draft
import EvidenceGraph.Proofs.Json.Compact
import EvidenceGraph.Proofs.Text.ByteOrder
import Mathlib.Data.List.Sort

namespace EvidenceGraph.Node

open EvidenceGraph.Json (Finite)
open EvidenceGraph.Text

/-! ## Cutting at zeros -/

/-- The number of zeros in a string. -/
def zeros (s : String) : Nat := s.toList.count '\x00'

/-- Two cuts of a list at a mark agree if as many marks stand before them. -/
theorem eq_of_append_mark {α : Type} [DecidableEq α] {z : α} {xs ys r s : List α}
    (h : xs ++ z :: r = ys ++ z :: s) (hcount : xs.count z = ys.count z) : xs = ys ∧ r = s := by
  induction xs generalizing ys with
  | nil =>
    cases ys with
    | nil => exact ⟨rfl, (List.cons.inj h).2⟩
    | cons y ys =>
      obtain ⟨rfl, -⟩ := List.cons.inj h
      simp at hcount
  | cons x xs ih =>
    cases ys with
    | nil =>
      obtain ⟨rfl, -⟩ := List.cons.inj h
      simp at hcount
    | cons y ys =>
      obtain ⟨rfl, hrest⟩ := List.cons.inj h
      rw [List.count_cons, List.count_cons, Nat.add_right_cancel_iff] at hcount
      obtain ⟨rfl, hr⟩ := ih hrest hcount
      exact ⟨rfl, hr⟩

theorem eq_of_append_zero {a b : String} {r s : List Char}
    (h : a.toList ++ '\x00' :: r = b.toList ++ '\x00' :: s) (hzeros : zeros a = zeros b) : a = b ∧ r = s := by
  obtain ⟨hchars, hrest⟩ := eq_of_append_mark h hzeros
  exact ⟨String.toList_inj.1 hchars, hrest⟩

/-! ## Content -/

/-- The characters behind the bytes that identify the content of a node. -/
def contentChars (claimType : String) (content : Json.Object) (source timestamp : String) : List Char :=
  claimType.toList ++ '\x00' ::
    (content.toJson.write ++ '\x00' :: (source.toList ++ '\x00' :: timestamp.toList))

theorem contentBytes_eq (claimType : String) (content : Json.Object) (source timestamp : String) :
    contentBytes claimType content source timestamp =
      (contentChars claimType content source timestamp).flatMap String.utf8EncodeChar := by
  have hzero : String.utf8EncodeChar '\x00' = [0] := by decide
  simp only [contentBytes, contentChars, utf8_eq, Json.compact, String.toList_ofList, List.flatMap_append,
    List.flatMap_cons, hzero, List.singleton_append]

theorem count_write_content {content : Json.Object} (hfinite : Finite content.toJson) :
    content.toJson.write.count '\x00' = 0 :=
  List.count_eq_zero.2 fun hmem => absurd (Json.printable_of_mem_write hfinite hmem) (by decide)

/-- The content of a node is told by its text. -/
theorem content_injective {c c' : Json.Object} (hc : Finite c.toJson) (hc' : Finite c'.toJson)
    (h : c.toJson.write = c'.toJson.write) : c = c' := by
  have heq := Json.write_injective_of_finite hc hc' h
  cases c
  cases c'
  cases heq
  rfl

/-- The bytes that identify the content of a node tell its parts, if as many zeros are in the kind and in the
source. -/
theorem eq_of_contentBytes {k k' s s' t t' : String} {c c' : Json.Object} (hc : Finite c.toJson)
    (hc' : Finite c'.toJson) (h : contentBytes k c s t = contentBytes k' c' s' t') (hk : zeros k = zeros k')
    (hs : zeros s = zeros s') : k = k' ∧ c = c' ∧ s = s' ∧ t = t' := by
  rw [contentBytes_eq, contentBytes_eq] at h
  obtain ⟨rfl, hcontent⟩ := eq_of_append_zero (flatMap_utf8EncodeChar_injective h) hk
  have hcount : c.toJson.write.count '\x00' = c'.toJson.write.count '\x00' := by
    rw [count_write_content hc, count_write_content hc']
  obtain ⟨hwrite, hsource⟩ := eq_of_append_mark hcontent hcount
  obtain ⟨rfl, htime⟩ := eq_of_append_zero hsource hs
  exact ⟨rfl, content_injective hc hc' hwrite, rfl, String.toList_inj.1 htime⟩

/-! ## Parents -/

/-- Parents in increasing order. -/
def inOrder (parents : List String) : List String := parents.mergeSort fun a b => decide (a ≤ b)

theorem inOrder_perm (parents : List String) : (inOrder parents).Perm parents := List.mergeSort_perm _ _

/-- In increasing order parents are the same exactly if they are the same in some order. -/
theorem inOrder_eq_iff {ps qs : List String} : inOrder ps = inOrder qs ↔ ps.Perm qs := by
  constructor
  · intro h
    exact (inOrder_perm ps).symm.trans (h ▸ inOrder_perm qs)
  · intro h
    have hperm : (inOrder ps).Perm (inOrder qs) := (inOrder_perm ps).trans (h.trans (inOrder_perm qs).symm)
    exact hperm.eq_of_pairwise' (List.pairwise_mergeSort' (· ≤ ·) ps) (List.pairwise_mergeSort' (· ≤ ·) qs)

theorem inOrder_of_pairwise {ps : List String} (h : ps.Pairwise (· ≤ ·)) : inOrder ps = ps :=
  List.mergeSort_eq_self (· ≤ ·) h

/-- The characters of ids with a zero behind each. -/
def idChars (ids : List String) : List Char := ids.flatMap fun id => id.toList ++ ['\x00']

theorem idChars_cons (id : String) (ids : List String) : idChars (id :: ids) = id.toList ++ '\x00' :: idChars ids := by
  simp [idChars]

theorem parentBytes_eq (parents : List String) :
    parentBytes parents = (idChars (inOrder parents)).flatMap String.utf8EncodeChar := by
  have hzero : String.utf8EncodeChar '\x00' = [0] := by decide
  simp [parentBytes, idChars, inOrder, utf8_eq, List.flatMap_assoc, hzero]

/-- The bytes of a node's parents do not depend on the order of the parents. -/
theorem parentBytes_eq_of_perm {ps qs : List String} (h : ps.Perm qs) : parentBytes ps = parentBytes qs := by
  rw [parentBytes_eq, parentBytes_eq, inOrder_eq_iff.2 h]

/-- Ids with as many zeros in those that stand at the same place are told by their characters. -/
theorem eq_of_idChars {ps qs : List String} (h : idChars ps = idChars qs)
    (hzeros : ∀ i : Nat, ∀ p ∈ ps[i]?, ∀ q ∈ qs[i]?, zeros p = zeros q) : ps = qs := by
  induction ps generalizing qs with
  | nil =>
    cases qs with
    | nil => rfl
    | cons q qs => simp [idChars] at h
  | cons p ps ih =>
    cases qs with
    | nil => simp [idChars] at h
    | cons q qs =>
      rw [idChars_cons, idChars_cons] at h
      obtain ⟨rfl, hrest⟩ := eq_of_append_zero h (hzeros 0 p rfl q rfl)
      rw [ih hrest fun i => hzeros (i + 1)]

/-! ## Nodes -/

/-- The bytes of two nodes agree, and as many zeros are in their kinds, their sources and their parents at the
same places, exactly if the nodes have the same parts. -/
theorem bytes_tell_parts (k k' s s' t t' : String) (ps qs : List String) {c c' : Json.Object}
    (hc : Finite c.toJson) (hc' : Finite c'.toJson) :
    (contentBytes k c s t = contentBytes k' c' s' t' ∧ zeros k = zeros k' ∧ zeros s = zeros s' ↔
      k = k' ∧ c = c' ∧ s = s' ∧ t = t') ∧
    (parentBytes ps = parentBytes qs ∧
        (∀ i : Nat, ∀ p ∈ (inOrder ps)[i]?, ∀ q ∈ (inOrder qs)[i]?, zeros p = zeros q) ↔
      ps.Perm qs) := by
  constructor
  · constructor
    · rintro ⟨hbytes, hk, hs⟩
      exact eq_of_contentBytes hc hc' hbytes hk hs
    · rintro ⟨rfl, rfl, rfl, rfl⟩
      exact ⟨rfl, rfl, rfl⟩
  · constructor
    · rintro ⟨hbytes, hzeros⟩
      rw [parentBytes_eq, parentBytes_eq] at hbytes
      exact inOrder_eq_iff.1 (eq_of_idChars (flatMap_utf8EncodeChar_injective hbytes) hzeros)
    · intro hperm
      refine ⟨parentBytes_eq_of_perm hperm, ?_⟩
      intro i p hp q hq
      rw [inOrder_eq_iff.2 hperm, hq] at hp
      rw [Option.some.inj hp]

/-- Sources with one zero each are told apart, and so are the parents of a node by their number. -/
theorem bytes_tell_parts_zero :
    contentBytes "claim" (Json.Object.empty.insert "k" (.float 0.5)) "a\x00b" "t" ≠
      contentBytes "claim" (Json.Object.empty.insert "k" (.float 0.5)) "a\x00c" "t" ∧
    parentBytes ["p", "p"] ≠ parentBytes ["p"] := by
  have hfinite : Finite (Json.Object.empty.insert "k" (.float 0.5)).toJson :=
    .obj (List.forall_mem_singleton.2 (.float (by decide +kernel)))
  have htold := bytes_tell_parts "claim" "claim" "a\x00b" "a\x00c" "t" "t" ["p", "p"] ["p"] hfinite hfinite
  refine ⟨fun h => ?_, fun h => ?_⟩
  · exact absurd (htold.1.1 ⟨h, rfl, by decide⟩).2.2.1 (by decide)
  · have hperm := htold.2.1 ⟨h, fun i p hp q hq => ?_⟩
    · exact absurd hperm.length_eq (by decide)
    · have hp := (inOrder_perm _).mem_iff.1 (List.mem_of_getElem? hp)
      have hq := (inOrder_perm _).mem_iff.1 (List.mem_of_getElem? hq)
      simp only [List.mem_cons, List.not_mem_nil, or_false, or_self] at hp hq
      rw [hp, hq]

/-- A zero that is moved from one part to the next leaves the bytes as they are: of content, the source and the
time; of parents, one id and two. -/
theorem bytes_ambiguous :
    (contentBytes "a" .empty "b\x00c" "d" = contentBytes "a" .empty "b" "c\x00d" ∧ "b\x00c" ≠ "b") ∧
    parentBytes ["a\x00b"] = parentBytes ["a", "b"] ∧ ¬ ["a\x00b"].Perm ["a", "b"] := by
  refine ⟨⟨?_, by decide⟩, ?_, fun h => absurd h.length_eq (by decide)⟩
  · rw [contentBytes_eq, contentBytes_eq]
    decide
  · rw [parentBytes_eq, parentBytes_eq, inOrder_of_pairwise (by decide), inOrder_of_pairwise (by decide)]
    decide

end EvidenceGraph.Node
