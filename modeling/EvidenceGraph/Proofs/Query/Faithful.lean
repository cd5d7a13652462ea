/-
# `EvidenceGraph.Proofs.Query.Faithful` — how faithful the canonical text of a reading is.

Whatever a text is read as, the canonical text of it is accepted, and is read as the same query but for
some binary64 values: one whose text has no point, such as `1e16` or `inf`, comes back as a string
(`Literal.reread_float`). So the canonical text is faithful exactly if every value is written with a point;
which values these are is said by `Decimal.point_mem_display`. Main statement: `display_faithful_iff`.
-/
import EvidenceGraph.Proofs.Decimal.Written
import EvidenceGraph.Proofs.Query.RoundTrip
import EvidenceGraph.Proofs.Query.Shape

namespace EvidenceGraph.Query

/-! ## Values with a point -/

/-- Whether a value is written as one of its kind. -/
def Literal.pointed : Literal → Bool
  | .float x => (Decimal.display x).toList.contains '.'
  | _ => true

/-- A query all of whose binary64 values are written with a point. -/
def Pointed (q : Query) : Prop := ∀ c ∈ q.conditions, c.value.pointed

instance (q : Query) : Decidable q.Pointed :=
  inferInstanceAs (Decidable (∀ c ∈ q.conditions, c.value.pointed))

/-- A binary64 value is read back from its text if the text has a point, and otherwise the text is read as
a string. -/
theorem Literal.reread_float (x : Float) :
    (Literal.float x).reread =
      if '.' ∈ (Decimal.display x).toList then .float x else .text (Decimal.display x) := by
  split
  · next hpoint =>
    have hread := Decimal.readFloat_display (Decimal.point_mem_display.1 hpoint).1
    exact ofBare_eq_float.2 ⟨hpoint, hread⟩
  · next hpoint =>
    have hbare := ofBare_of_not_sameWord (Decimal.not_sameWord_display x (a := "true") (by decide))
      (Decimal.not_sameWord_display x (a := "false") (by decide))
    rw [if_neg (by simpa using hpoint), Decimal.readInt64_display] at hbare
    exact hbare

/-- Exactly the values that are written as one of their kind are read back. -/
theorem Literal.reread_eq_self {v : Literal} : v.reread = v ↔ v.pointed := by
  cases v with
  | float x =>
    rw [Literal.reread_float]
    by_cases hpoint : '.' ∈ (Decimal.display x).toList
    · simp [hpoint, Literal.pointed]
    · simp [hpoint, Literal.pointed]
  | bool | int | text | list => exact iff_of_true rfl rfl

theorem reread_eq_self_iff {q : Query} : q.reread = q ↔ q.Pointed := by
  simp only [reread_eq_self, Condition.reread_eq_self, Literal.reread_eq_self, Pointed]

/-! ## Canonical texts of readings -/

/-- The canonical text of a query of the right shape is accepted, as the query with its values reread. -/
theorem parseStrict_display {q : Query} (h : q.Shaped) : parseStrict q.display = .ok q.reread :=
  parseStrict_eq_ok_iff_means.2 (means_reread h)

/-- The canonical text of a query of the right shape reads back exactly if every binary64 value in it is
written with a point. -/
theorem parseStrict_display_eq_ok_iff {q : Query} (h : q.Shaped) :
    parseStrict q.display = .ok q ↔ q.Pointed := by
  rw [parseStrict_display h, Except.ok.injEq, reread_eq_self_iff]

/-- Whatever a text is read as, the canonical text of the reading is accepted with the same names, clauses
and values, but for binary64 values without a point. It is accepted as the reading itself exactly if there
are no such values. The same holds of what strict readings accept. -/
theorem display_faithful_iff (source : String) :
    (parseStrict (parse source).query.display = .ok (parse source).query.reread ∧
      (parseStrict (parse source).query.display = .ok (parse source).query ↔
        (parse source).query.Pointed)) ∧
    ∀ q, parseStrict source = .ok q →
      parseStrict q.display = .ok q.reread ∧ (parseStrict q.display = .ok q ↔ q.Pointed) := by
  have hshaped := shaped_parse source
  refine ⟨⟨parseStrict_display hshaped, parseStrict_display_eq_ok_iff hshaped⟩, ?_⟩
  intro q haccepted
  have hlenient := parse_of_strict haccepted
  rw [hlenient] at hshaped
  exact ⟨parseStrict_display hshaped, parseStrict_display_eq_ok_iff hshaped⟩

/-- The text `1e16` has no point, and so this query is not read back. -/
theorem display_unfaithful_beyond_positional :
    let q := (parse "SELECT * FROM evidence WHERE amount > 10000000000000000.0").query
    q.display = "SELECT * FROM evidence WHERE amount > 1e16" ∧ parseStrict q.display ≠ .ok q := by
  refine ⟨by decide +kernel, ?_⟩
  rw [ne_eq, parseStrict_display_eq_ok_iff (shaped_parse _)]
  decide +kernel

end EvidenceGraph.Query
