/-
# `EvidenceGraph.Text.Blank` — white space and trimming.

White space is the Unicode property `White_Space`, so a no-break space separates words of a query just
as a space does. Trimming works on character lists: `trim` removes blanks at both ends, `trimEndWhile`
removes a class of characters at the end only.
-/

namespace EvidenceGraph.Text

/-- The code point ranges of the Unicode property `White_Space`, both ends included. -/
def blankRanges : List (Nat × Nat) :=
  [(0x09, 0x0D), (0x20, 0x20), (0x85, 0x85), (0xA0, 0xA0), (0x1680, 0x1680), (0x2000, 0x200A),
   (0x2028, 0x2029), (0x202F, 0x202F), (0x205F, 0x205F), (0x3000, 0x3000)]

/-- Membership in the Unicode property `White_Space`. -/
def isBlank (c : Char) : Bool :=
  blankRanges.any fun range => range.1 ≤ c.toNat && c.toNat ≤ range.2

/-- Drop the longest run of characters in the class `p` at the end. -/
def trimEndWhile (p : Char → Bool) (cs : List Char) : List Char :=
  (cs.reverse.dropWhile p).reverse

/-- Drop blanks at both ends. -/
def trim (cs : List Char) : List Char :=
  trimEndWhile isBlank (cs.dropWhile isBlank)

end EvidenceGraph.Text
