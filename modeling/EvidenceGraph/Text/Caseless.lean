/-
# `EvidenceGraph.Text.Caseless` — comparing words without regard to ASCII case.

Keywords, `true`/`false` and direction names are recognised in any ASCII case; every other character
stands only for itself (a long s is not an `s`).
-/

namespace EvidenceGraph.Text

/-- A word with its ASCII capitals made small. -/
def foldCase (word : String) : List Char := word.toList.map Char.toLower

/-- Equality of two words up to ASCII case. -/
def sameWord (a b : String) : Bool := foldCase a == foldCase b

theorem sameWord_refl (a : String) : sameWord a a = true := by simp [sameWord]

end EvidenceGraph.Text
