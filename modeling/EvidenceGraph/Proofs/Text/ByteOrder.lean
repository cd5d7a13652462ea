/-
# `EvidenceGraph.Proofs.Text.ByteOrder` — strings stand in the order of their bytes.

A string is compared character by character, its UTF-8 form byte by byte, and the two agree: of two
characters the greater one has a greater byte at the first place where their bytes differ, whatever stands
behind them (`utf8EncodeChar_append_lt`). Either it has a greater first byte, because more bytes follow or
because its leading digit to the base of 64 is greater, or the first bytes are equal and a later digit
decides.
-/
import EvidenceGraph.Node.Draft
import Mathlib.Data.String.Basic

namespace EvidenceGraph.Text

open EvidenceGraph.Node (utf8)

/-! ## The bytes of a string -/

theorem toList_loop_eq (bytes : ByteArray) (i : Nat) (read : List UInt8) :
    ByteArray.toList.loop bytes i read = read.reverse ++ bytes.data.toList.drop i := by
  fun_induction ByteArray.toList.loop bytes i read with
  | case1 i read hlt ih =>
    have hlt' : i < bytes.data.toList.length := hlt
    rw [ih, List.drop_eq_getElem_cons hlt']
    simp [ByteArray.get!, hlt]
  | case2 i read hge =>
    have hge' : bytes.data.toList.length ≤ i := Nat.le_of_not_lt hge
    rw [List.drop_eq_nil_of_le hge', List.append_nil]

/-- The bytes of a string are those of its characters, one after another. -/
theorem utf8_eq (s : String) : utf8 s = s.toList.flatMap String.utf8EncodeChar := by
  have hbytes : s.toByteArray = (s.toList.flatMap String.utf8EncodeChar).toByteArray := by
    conv_lhs => rw [← String.ofList_toList (s := s), String.toByteArray_ofList]
    rfl
  rw [utf8, String.toUTF8_eq_toByteArray, ByteArray.toList, toList_loop_eq, hbytes]
  simp

/-! ## The bytes of a character -/

/-- The number of bytes behind the first one. -/
def furtherBytes (v : Nat) : Nat :=
  if v ≤ 0x7F then 0 else if v ≤ 0x7FF then 1 else if v ≤ 0xFFFF then 2 else 3

/-- The first byte of a code point tells how many follow and holds its leading digit to the base of 64. -/
def firstByte (v : Nat) : Nat :=
  if v ≤ 0x7F then v
  else if v ≤ 0x7FF then v / 64 + 192
  else if v ≤ 0xFFFF then v / 4096 + 224
  else v / 262144 + 240

/-- The last `k` digits of a code point to the base of 64, each in a byte. -/
def digitBytes (v : Nat) : Nat → List UInt8
  | 0 => []
  | k + 1 => UInt8.ofNat (v / 64 ^ k % 64 + 128) :: digitBytes v k

theorem char_lt (c : Char) : c.val.toNat < 0x110000 := by
  rcases c.valid with hlow | ⟨_, hhigh⟩
  · exact Nat.lt_trans hlow (by decide)
  · exact hhigh

theorem utf8EncodeChar_eq (c : Char) :
    String.utf8EncodeChar c =
      UInt8.ofNat (firstByte c.val.toNat) :: digitBytes c.val.toNat (furtherBytes c.val.toNat) := by
  have hmax := char_lt c
  unfold String.utf8EncodeChar firstByte furtherBytes
  generalize c.val.toNat = v at hmax
  dsimp only
  split_ifs with h₁ h₂ h₃
  · rfl
  · have hlead : v / 64 % 32 = v / 64 := Nat.mod_eq_of_lt (by omega)
    simp [digitBytes, hlead]
  · have hlead : v / 4096 % 16 = v / 4096 := Nat.mod_eq_of_lt (by omega)
    simp [digitBytes, hlead]
  · have hlead : v / 262144 % 8 = v / 262144 := Nat.mod_eq_of_lt (by omega)
    simp [digitBytes, hlead]

/-! ## The order of characters -/

theorem ofNat_cons_lt_iff {a b : Nat} (ha : a < 256) (hb : b < 256) {x y : List UInt8} :
    UInt8.ofNat a :: x < UInt8.ofNat b :: y ↔ a < b ∨ a = b ∧ x < y := by
  rw [List.cons_lt_cons_iff, UInt8.ofNat_lt_iff_lt ha hb, ← UInt8.toNat_inj, UInt8.toNat_ofNat_of_lt' ha,
    UInt8.toNat_ofNat_of_lt' hb]

/-- Code points whose leading digits are the same differ in a later one first. -/
theorem digitBytes_append_lt {v w k : Nat} (h : v < w) (hlead : v / 64 ^ k = w / 64 ^ k)
    (x y : List UInt8) : digitBytes v k ++ x < digitBytes w k ++ y := by
  induction k with
  | zero =>
    rw [pow_zero, Nat.div_one, Nat.div_one] at hlead
    exact absurd hlead (Nat.ne_of_lt h)
  | succ k ih =>
    have hle : v / 64 ^ k ≤ w / 64 ^ k := Nat.div_le_div_right (Nat.le_of_lt h)
    rw [pow_succ, ← Nat.div_div_eq_div_mul, ← Nat.div_div_eq_div_mul] at hlead
    rw [digitBytes, digitBytes, List.cons_append, List.cons_append,
      ofNat_cons_lt_iff (by omega) (by omega)]
    rcases Nat.lt_or_eq_of_le hle with hlt | heq
    · left
      omega
    · right
      exact ⟨by rw [heq], ih heq⟩

/-- The first bytes of two code points stand in their order. If they are the same, as many bytes follow, and
the leading digits are the same. -/
theorem firstByte_lt_or {v w : Nat} (h : v < w) :
    firstByte v < firstByte w ∨ firstByte v = firstByte w ∧ furtherBytes v = furtherBytes w ∧
      v / 64 ^ furtherBytes v = w / 64 ^ furtherBytes v := by
  unfold firstByte furtherBytes
  split_ifs <;> omega

/-- The bytes of a character come before those of a greater one, whatever follows them. -/
theorem utf8EncodeChar_append_lt {c d : Char} (h : c < d) (x y : List UInt8) :
    String.utf8EncodeChar c ++ x < String.utf8EncodeChar d ++ y := by
  have hlt : c.val.toNat < d.val.toNat := h
  have hbyte {v : Nat} (hv : v < 0x110000) : firstByte v < 256 := by
    unfold firstByte
    split_ifs <;> omega
  rw [utf8EncodeChar_eq, utf8EncodeChar_eq, List.cons_append, List.cons_append,
    ofNat_cons_lt_iff (hbyte (char_lt c)) (hbyte (char_lt d))]
  rcases firstByte_lt_or hlt with hfirst | ⟨hfirst, hfurther, hlead⟩
  · exact .inl hfirst
  · rw [← hfurther]
    exact .inr ⟨hfirst, digitBytes_append_lt hlt hlead x y⟩

/-! ## The order of strings -/

theorem flatMap_utf8EncodeChar_lt {cs ds : List Char} (h : cs < ds) :
    cs.flatMap String.utf8EncodeChar < ds.flatMap String.utf8EncodeChar := by
  induction h with
  | @nil d ds =>
    rw [List.flatMap_nil, List.flatMap_cons]
    cases hbytes : String.utf8EncodeChar d with
    | nil => exact absurd hbytes String.utf8EncodeChar_ne_nil
    | cons b bs => exact .nil
  | rel hlt =>
    rw [List.flatMap_cons, List.flatMap_cons]
    exact utf8EncodeChar_append_lt hlt _ _
  | cons _ ih =>
    rw [List.flatMap_cons, List.flatMap_cons]
    exact List.append_left_lt ih

/-- Different characters have different bytes. -/
theorem flatMap_utf8EncodeChar_injective {cs ds : List Char}
    (h : cs.flatMap String.utf8EncodeChar = ds.flatMap String.utf8EncodeChar) : cs = ds := by
  rcases lt_trichotomy cs ds with hlt | heq | hgt
  · exact absurd (flatMap_utf8EncodeChar_lt hlt) (h ▸ List.lt_irrefl _)
  · exact heq
  · exact absurd (flatMap_utf8EncodeChar_lt hgt) (h ▸ List.lt_irrefl _)

/-- The order of strings is that of their bytes. -/
theorem utf8_lt_iff {a b : String} : utf8 a < utf8 b ↔ a < b := by
  rw [utf8_eq, utf8_eq, String.lt_iff_toList_lt]
  constructor
  · intro h
    rcases lt_trichotomy a.toList b.toList with hlt | heq | hgt
    · exact hlt
    · rw [heq] at h
      exact absurd h (List.lt_irrefl _)
    · exact absurd h (List.lt_asymm (flatMap_utf8EncodeChar_lt hgt))
  · exact flatMap_utf8EncodeChar_lt

theorem utf8_le_iff {a b : String} : utf8 a ≤ utf8 b ↔ a ≤ b := by
  rw [← not_lt, ← utf8_lt_iff]
  exact Iff.rfl

end EvidenceGraph.Text
