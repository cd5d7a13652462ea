/-
# `EvidenceGraph.Proofs.Node.Validity` — which nodes are valid.

Checking a node lists the fields that are not valid. The list is empty exactly if the node has an id, a kind
and a confidence between zero and one, where this is a number (`Valid`). So the check passes exactly the valid
nodes, and whatever is built was checked.
-/
import EvidenceGraph.Node.Draft
import EvidenceGraph.Proofs.Decimal.Order

namespace EvidenceGraph.Node

/-- A node with an id, a kind and a confidence that lies between zero and one if it is a number. -/
structure Valid (n : Node) : Prop where
  id_ne : n.id ≠ ""
  claimType_ne : n.claimType ≠ ""
  confidence_mem : n.confidence.isNaN = false → 0 ≤ n.confidence ∧ n.confidence ≤ 1

/-- A value that is not a number compares with no bound, so it passes the check. -/
theorem isConfidence_iff {x : Float} : isConfidence x ↔ (x.isNaN = false → 0 ≤ x ∧ x ≤ 1) := by
  have hrange : isConfidence x ↔ ¬ 1 < x ∧ ¬ x < 0 := by simp [isConfidence]
  rw [hrange]
  cases hx : x.isNaN with
  | true =>
    rw [Decimal.lt_iff_level, Decimal.lt_iff_level, hx]
    simp
  | false =>
    rw [Decimal.not_lt_iff_le (by decide +kernel) hx, Decimal.not_lt_iff_le hx (by decide +kernel)]
    exact ⟨fun ⟨hone, hzero⟩ _ => ⟨hzero, hone⟩, fun h => (h rfl).symm⟩

example : isConfidence Float.nan ∧ isConfidence 1 ∧ ¬ isConfidence (-0.5) := by decide +kernel

/-- A node is valid exactly if no field of it is reported. -/
theorem violations_eq_nil_iff {n : Node} : n.violations = [] ↔ n.Valid := by
  have hid : (if n.id.isEmpty then [("node_id", Violation.length)] else []) = [] ↔ n.id ≠ "" := by
    simp
  have hkind : (if n.claimType.isEmpty then [("claim_type", Violation.length)] else []) = [] ↔
      n.claimType ≠ "" := by
    simp
  have hconfidence : (if isConfidence n.confidence then [] else [("confidence", Violation.range)]) = [] ↔
      (n.confidence.isNaN = false → 0 ≤ n.confidence ∧ n.confidence ≤ 1) := by
    rw [← isConfidence_iff]
    simp
  rw [violations, List.append_eq_nil_iff, List.append_eq_nil_iff, hid, hkind, hconfidence]
  exact ⟨fun ⟨⟨hi, hk⟩, hc⟩ => ⟨hi, hk, hc⟩, fun h => ⟨⟨h.1, h.2⟩, h.3⟩⟩

instance (n : Node) : Decidable n.Valid := decidable_of_iff _ violations_eq_nil_iff

theorem validate_of_valid {n : Node} (h : n.Valid) : n.validate = .ok () := by
  rw [validate, violations_eq_nil_iff.2 h]

theorem validate_of_not_valid {n : Node} (h : ¬ n.Valid) :
    n.validate = .error (.validation (Violation.describe n.violations)) := by
  rw [← violations_eq_nil_iff] at h
  rw [validate]
  split
  · next hnone => exact absurd hnone h
  · rfl

/-- A draft is built exactly if it completes to a valid node. -/
theorem build_eq_ok_iff {d : Draft} {now : String} {n : Node} :
    d.build now = .ok n ↔ n.Valid ∧ n = d.complete now := by
  by_cases hvalid : (d.complete now).Valid
  · have hbuild : d.build now = .ok (d.complete now) := by
      rw [Draft.build, validate_of_valid hvalid]
      rfl
    rw [hbuild, Except.ok.injEq]
    exact ⟨fun h => ⟨h ▸ hvalid, h.symm⟩, fun h => h.2.symm⟩
  · have hbuild : d.build now = .error (.validation (Violation.describe (d.complete now).violations)) := by
      rw [Draft.build, validate_of_not_valid hvalid]
      rfl
    rw [hbuild]
    exact iff_of_false nofun fun h => hvalid (h.2 ▸ h.1)

end EvidenceGraph.Node
