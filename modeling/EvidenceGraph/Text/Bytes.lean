/-
# `EvidenceGraph.Text.Bytes` — places in a text counted in bytes.

A place in a text is told by the number of bytes that come before it in UTF-8. Not every number up to the
size of a text tells a place, as a character of several bytes cannot be cut. Main statement: between the
widths of two first parts of a text lies what the longer one has behind the shorter one.
-/

namespace EvidenceGraph.Text

/-- The number of bytes of a text. -/
def width : List Char → Nat
  | [] => 0
  | c :: cs => c.utf8Size + width cs

/-- What comes before and behind a number of bytes. -/
def cutAt? : Nat → List Char → Option (List Char × List Char)
  | 0, cs => some ([], cs)
  | _ + 1, [] => none
  | count + 1, c :: cs =>
    if c.utf8Size ≤ count + 1 then
      (cutAt? (count + 1 - c.utf8Size) cs).map fun (before, behind) => (c :: before, behind)
    else
      none

/-- What lies between two numbers of bytes. -/
def between? (start stop : Nat) (cs : List Char) : Option (List Char) := do
  let (_, behind) ← cutAt? start cs
  let (before, _) ← cutAt? (stop - start) behind
  return before

theorem width_append (a b : List Char) : width (a ++ b) = width a + width b := by
  induction a with
  | nil => simp [width]
  | cons c a ih => simp [width, ih, Nat.add_assoc]

theorem cutAt?_width_append (a b : List Char) : cutAt? (width a) (a ++ b) = some (a, b) := by
  induction a with
  | nil => simp [width, cutAt?]
  | cons c a ih =>
    have := c.utf8Size_pos
    obtain ⟨n, hn⟩ : ∃ n, c.utf8Size + width a = n + 1 := ⟨c.utf8Size + width a - 1, by omega⟩
    have hrest : n + 1 - c.utf8Size = width a := by omega
    simp only [width, hn, List.cons_append, cutAt?, hrest, ih]
    simp [show c.utf8Size ≤ n + 1 by omega]

/-- Counted in bytes, the characters between two places are cut out between the widths of what comes before them. -/
theorem between?_width_take {text : List Char} {i j : Nat} (h : i ≤ j) :
    between? (width (text.take i)) (width (text.take j)) text = some ((text.drop i).take (j - i)) := by
  have houter := cutAt?_width_append (text.take i) (text.drop i)
  have hinner := cutAt?_width_append ((text.drop i).take (j - i)) ((text.drop i).drop (j - i))
  have htake : text.take j = text.take i ++ (text.drop i).take (j - i) := by
    rw [← List.take_add, Nat.add_sub_cancel' h]
  have hwidth : width (text.take j) - width (text.take i) = width ((text.drop i).take (j - i)) := by
    rw [htake, width_append, Nat.add_sub_cancel_left]
  rw [List.take_append_drop] at houter hinner
  rw [between?, houter, hwidth]
  dsimp only [bind, Option.bind]
  rw [hinner]
  rfl

end EvidenceGraph.Text
