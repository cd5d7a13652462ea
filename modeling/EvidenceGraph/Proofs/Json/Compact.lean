/-
# `EvidenceGraph.Proofs.Json.Compact` — compact text tells values apart.

The compact text of a value shows where it ends: a number at the first character that no number has, all else
by its last character. So two texts that start with the texts of values agree only if the values are the same,
and so is what follows them (`told_of_finite`). This holds of values whose binary64 numbers are finite, like those
of every JSON text; an infinity is written as null. No compact text has a control character
(`printable_of_mem_write`).
-/
import EvidenceGraph.Json.Tree
import EvidenceGraph.Json.Writer
import EvidenceGraph.Proofs.Decimal.Written

namespace EvidenceGraph.Json

open EvidenceGraph.Decimal

/-! ## Values by their parts -/

/-- Induction on a value, by the items of arrays and the values of members. -/
theorem induction_on {P : Json → Prop} (null : P .null) (bool : ∀ b, P (.bool b)) (int : ∀ i, P (.int i))
    (float : ∀ x, P (.float x)) (str : ∀ s, P (.str s)) (arr : ∀ items, (∀ j ∈ items, P j) → P (.arr items))
    (obj : ∀ members, (∀ m ∈ members, P m.2) → P (.obj members)) (j : Json) : P j :=
  @Json.rec P (fun items => ∀ j ∈ items, P j) (fun members => ∀ m ∈ members, P m.2) (fun m => P m.2)
    null bool int float str arr obj nofun (fun _ _ hj hitems => List.forall_mem_cons.2 ⟨hj, hitems⟩)
    nofun (fun _ _ hm hmembers => List.forall_mem_cons.2 ⟨hm, hmembers⟩) (fun _ _ hj => hj) j

/-- A value whose binary64 numbers are all finite. -/
inductive Finite : Json → Prop
  | null : Finite .null
  | bool (b : Bool) : Finite (.bool b)
  | int (i : Int) : Finite (.int i)
  | float {x : Float} : isFinite x → Finite (.float x)
  | str (s : String) : Finite (.str s)
  | arr {items : List Json} : (∀ j ∈ items, Finite j) → Finite (.arr items)
  | obj {members : List (String × Json)} : (∀ m ∈ members, Finite m.2) → Finite (.obj members)

/-- A text that does not go on with a number. -/
def Ends (cs : List Char) : Prop := ∀ c ∈ cs.head?, isDecimalChar c = false

/-! ## Strings -/

theorem hexQuad?_hexDigit {n : Nat} (h : n < 0x20) :
    hexQuad? '0' '0' (hexDigit (n / 16)) (hexDigit n) = some n := by
  revert n
  decide

/-- A one-letter escape is read as its character. -/
theorem codePoints?_short {c d : Char} (hshort : shortEscape? d = some c) (hletter : d ≠ 'u') (cs : List Char) :
    codePoints? ('\\' :: d :: cs) = (codePoints? cs).map fun found => (c.toNat :: found.1, found.2) := by
  rw [codePoints?, hshort]
  · cases codePoints? cs <;> rfl
  · exact fun _ _ _ _ _ h _ => hletter h

/-- A character of a string is read back from its escape. -/
theorem codePoints?_escape (c : Char) (cs : List Char) :
    codePoints? (escape c ++ cs) = (codePoints? cs).map fun found => (c.toNat :: found.1, found.2) := by
  unfold escape
  split_ifs with hquote hslash hback hfeed hline hreturn htab hcontrol
  · exact codePoints?_short (by rw [hquote]; rfl) (by decide) cs
  · exact codePoints?_short (by rw [hslash]; rfl) (by decide) cs
  · exact codePoints?_short (by rw [hback]; rfl) (by decide) cs
  · exact codePoints?_short (by rw [hfeed]; rfl) (by decide) cs
  · exact codePoints?_short (by rw [hline]; rfl) (by decide) cs
  · exact codePoints?_short (by rw [hreturn]; rfl) (by decide) cs
  · exact codePoints?_short (by rw [htab]; rfl) (by decide) cs
  · show codePoints? ('\\' :: 'u' :: '0' :: '0' :: hexDigit (c.toNat / 16) :: hexDigit c.toNat :: cs) = _
    rw [codePoints?, hexQuad?_hexDigit hcontrol]
    cases codePoints? cs <;> rfl
  · have hplain : (decide (c.toNat < 0x20) || c == '\\') = false := by simp [hslash, Nat.le_of_not_lt hcontrol]
    rw [List.singleton_append, codePoints?, hplain]
    · cases codePoints? cs <;> rfl
    · exact fun h => hquote h
    · exact fun _ _ _ _ _ h _ => hslash h
    · exact fun _ _ h _ => hslash h

/-- A string is read back up to its closing quote. -/
theorem codePoints?_escaped (cs rest : List Char) :
    codePoints? (cs.flatMap escape ++ '"' :: rest) = some (cs.map Char.toNat, rest) := by
  induction cs with
  | nil => rfl
  | cons c cs ih => rw [List.flatMap_cons, List.append_assoc, codePoints?_escape, ih]; rfl

theorem writeString_append (s : String) (rest : List Char) :
    writeString s ++ rest = '"' :: (s.toList.flatMap escape ++ '"' :: rest) := by
  simp [writeString]

/-- Where a string ends is told by its text. -/
theorem writeString_boundary {s t : String} {r r' : List Char} (h : writeString s ++ r = writeString t ++ r') :
    s = t ∧ r = r' := by
  rw [writeString_append, writeString_append, List.cons_inj_right] at h
  have hread := codePoints?_escaped s.toList r
  rw [h, codePoints?_escaped, Option.some_inj, Prod.mk.injEq] at hread
  have hchars : s.toList = t.toList := List.map_injective_iff.2 (fun _ _ => Char.toNat_inj.1) hread.1.symm
  exact ⟨String.toList_inj.1 hchars, hread.2.symm⟩

/-! ## Sequences with commas -/

/-- Texts with commas between them. -/
def commas (texts : List (List Char)) : List Char := [','].intercalate texts

theorem commas_cons (t : List Char) (ts : List (List Char)) :
    commas (t :: ts) = t ++ (if ts = [] then [] else ',' :: commas ts) := by
  cases ts with
  | nil => simp [commas]
  | cons u us => simp [commas]

/-- What follows the first of several texts: a comma and the others, or the closing character `e`. -/
theorem commas_cons_append (t : List Char) (ts : List (List Char)) (e : Char) (r : List Char) :
    commas (t :: ts) ++ e :: r = t ++ (if ts = [] then e :: r else ',' :: (commas ts ++ e :: r)) := by
  rw [commas_cons]
  split <;> simp

/-- If the texts of single items tell where they end, so does their sequence up to its closing character. No
item may start like that. -/
theorem commas_boundary {α : Type} {w : α → List Char} {Good : α → Prop} {e : Char}
    (he : e ≠ ',' ∧ isDecimalChar e = false)
    (hstarts : ∀ x, Good x → ∀ r, (w x ++ r).head? ≠ some e) {xs ys : List α} (hys : ∀ y ∈ ys, Good y)
    (hitems : ∀ x ∈ xs, Good x ∧ ∀ y, Good y → ∀ r s, Ends r → Ends s → w x ++ r = w y ++ s → x = y ∧ r = s)
    {r s : List Char} (h : commas (xs.map w) ++ e :: r = commas (ys.map w) ++ e :: s) : xs = ys ∧ r = s := by
  have hends (ts : List (List Char)) (r : List Char) :
      Ends (if ts = [] then e :: r else ',' :: (commas ts ++ e :: r)) := by
    intro c hc
    split at hc
    · cases hc
      exact he.2
    · cases hc
      rfl
  induction xs generalizing ys with
  | nil =>
    cases ys with
    | nil => exact ⟨rfl, (List.cons_inj_right e).1 h⟩
    | cons y ys =>
      rw [List.map_cons, commas_cons_append] at h
      exact absurd (congrArg List.head? h.symm) (hstarts y (hys y List.mem_cons_self) _)
  | cons x xs ih =>
    obtain ⟨⟨hx, hfirst⟩, hmore⟩ := List.forall_mem_cons.1 hitems
    cases ys with
    | nil =>
      rw [List.map_cons, commas_cons_append] at h
      exact absurd (congrArg List.head? h) (hstarts x hx _)
    | cons y ys =>
      obtain ⟨hy, hothers⟩ := List.forall_mem_cons.1 hys
      rw [List.map_cons, List.map_cons, commas_cons_append, commas_cons_append] at h
      obtain ⟨rfl, hrest⟩ := hfirst y hy _ _ (hends _ _) (hends _ _) h
      simp only [List.map_eq_nil_iff] at hrest
      split at hrest <;> split at hrest
      · next hnone hnone' => exact ⟨by rw [hnone, hnone'], (List.cons_inj_right e).1 hrest⟩
      · exact absurd (List.cons.inj hrest).1 he.1
      · exact absurd (List.cons.inj hrest).1.symm he.1
      · obtain ⟨rfl, hr⟩ := ih hothers hmore ((List.cons_inj_right ',').1 hrest)
        exact ⟨rfl, hr⟩

/-- The text of a member. -/
def writeMember (m : String × Json) : List Char := writeString m.1 ++ ':' :: write m.2

theorem writeItems_eq (items : List Json) : writeItems items = commas (items.map write) := by
  induction items with
  | nil => rfl
  | cons j more ih =>
    rw [List.map_cons, commas_cons, ← ih]
    cases more with
    | nil => simp [writeItems]
    | cons k more => simp [writeItems]

theorem writeMembers_eq (members : List (String × Json)) :
    writeMembers members = commas (members.map writeMember) := by
  induction members with
  | nil => rfl
  | cons m more ih =>
    rw [List.map_cons, commas_cons, ← ih]
    cases more with
    | nil => simp [writeMembers, writeMember]
    | cons n more => simp [writeMembers, writeMember]

theorem writeMember_append (m : String × Json) (r : List Char) :
    writeMember m ++ r = writeString m.1 ++ ':' :: (write m.2 ++ r) := by
  rw [writeMember, List.append_assoc, List.cons_append]

theorem write_arr (items : List Json) : write (.arr items) = '[' :: (commas (items.map write) ++ [']']) := by
  rw [write, writeItems_eq]

theorem write_obj (members : List (String × Json)) :
    write (.obj members) = '\x7b' :: (commas (members.map writeMember) ++ ['\x7d']) := by
  rw [write, writeMembers_eq]

theorem write_arr_append (items : List Json) (r : List Char) :
    write (.arr items) ++ r = '[' :: (commas (items.map write) ++ ']' :: r) := by
  rw [write_arr, List.cons_append, List.append_assoc, List.singleton_append]

theorem write_obj_append (members : List (String × Json)) (r : List Char) :
    write (.obj members) ++ r = '\x7b' :: (commas (members.map writeMember) ++ '\x7d' :: r) := by
  rw [write_obj, List.cons_append, List.append_assoc, List.singleton_append]

/-! ## Values -/

/-- The first character of a text that is no number. -/
def lead? : Json → Option Char
  | .null => some 'n'
  | .bool b => some (if b then 't' else 'f')
  | .int _ => none
  | .float _ => none
  | .str _ => some '"'
  | .arr _ => some '['
  | .obj _ => some '\x7b'

/-- A number has no other characters than decimal words. -/
theorem isDecimalChar_of_mem_number {j : Json} (hj : Finite j) (hlead : lead? j = none) {c : Char}
    (hc : c ∈ write j) : isDecimalChar c := by
  cases hj with
  | int i => exact isDecimalChar_of_mem_writeInt hc
  | float hx => exact isDecimalChar_of_mem_write readable_jsonStyle hx hc
  | _ => cases hlead

theorem write_ne_nil_of_number {j : Json} (hj : Finite j) (hlead : lead? j = none) : write j ≠ [] := by
  cases hj with
  | int i => exact writeInt_ne_nil i
  | float hx =>
    rw [write, toList_write jsonStyle hx]
    exact List.append_ne_nil_of_right_ne_nil _ (writeDigits_ne_nil _ _)
  | _ => cases hlead

/-- The first character tells numbers from all else, and these by their kind. -/
theorem exists_write_eq_cons {j : Json} (hj : Finite j) :
    ∃ c cs, write j = c :: cs ∧ lead? j = if isDecimalChar c then none else some c := by
  cases hlead : lead? j with
  | none =>
    obtain ⟨c, cs, hwrite⟩ := List.exists_cons_of_ne_nil (write_ne_nil_of_number hj hlead)
    have hc : isDecimalChar c := isDecimalChar_of_mem_number hj hlead (by rw [hwrite]; exact List.mem_cons_self)
    exact ⟨c, cs, hwrite, by rw [if_pos hc]⟩
  | some c =>
    cases hj with
    | int i => cases hlead
    | float hx => cases hlead
    | bool b => cases b <;> cases hlead <;> exact ⟨_, _, rfl, rfl⟩
    | _ => cases hlead; exact ⟨_, _, rfl, rfl⟩

theorem lead?_eq_of_append {j k : Json} (hj : Finite j) (hk : Finite k) {r s : List Char}
    (h : write j ++ r = write k ++ s) : lead? j = lead? k := by
  obtain ⟨c, cs, hc, hj⟩ := exists_write_eq_cons hj
  obtain ⟨d, ds, hd, hk⟩ := exists_write_eq_cons hk
  rw [hc, hd] at h
  rw [hj, hk, (List.cons.inj h).1]

/-- No text of a value starts like the end of an array or object. -/
theorem head?_write_append_ne {e : Char} (he : isDecimalChar e = false) (hnone : ∀ j, lead? j ≠ some e)
    {j : Json} (hj : Finite j) (r : List Char) : (write j ++ r).head? ≠ some e := by
  obtain ⟨c, cs, hc, hlead⟩ := exists_write_eq_cons hj
  rw [hc]
  rintro ⟨⟩
  rw [he] at hlead
  exact hnone j hlead

theorem lead?_ne_bracket (j : Json) : lead? j ≠ some ']' := by
  cases j with
  | bool b => cases b <;> simp [lead?]
  | _ => simp [lead?]

theorem Finite.int_or_float {j : Json} (hj : Finite j) (hlead : lead? j = none) :
    (∃ i, j = .int i) ∨ ∃ x, isFinite x ∧ j = .float x := by
  cases hj with
  | int i => exact .inl ⟨i, rfl⟩
  | float hx => exact .inr ⟨_, hx, rfl⟩
  | _ => cases hlead

/-- Different numbers have different texts. -/
theorem number_injective {j k : Json} (hj : Finite j) (hk : Finite k) (hjlead : lead? j = none)
    (hklead : lead? k = none) (h : write j = write k) : j = k := by
  obtain ⟨i, rfl⟩ | ⟨x, hx, rfl⟩ := hj.int_or_float hjlead
  · obtain ⟨i', rfl⟩ | ⟨x', hx', rfl⟩ := hk.int_or_float hklead
    · have hread := integer?_writeInt i
      rw [show writeInt i = writeInt i' from h, integer?_writeInt] at hread
      rw [Option.some.inj hread]
    · exact absurd h.symm (write_ne_writeInt readable_jsonStyle hx' i)
  · obtain ⟨i', rfl⟩ | ⟨x', hx', rfl⟩ := hk.int_or_float hklead
    · exact absurd h (write_ne_writeInt readable_jsonStyle hx i')
    · rw [write_injective readable_jsonStyle hx hx' (String.toList_inj.1 h)]

/-- A number ends at the first character that no number has. -/
theorem number_boundary {j k : Json} (hj : Finite j) (hk : Finite k) (hjlead : lead? j = none)
    (hklead : lead? k = none) {r s : List Char} (hr : Ends r) (hs : Ends s) (h : write j ++ r = write k ++ s) :
    j = k ∧ r = s := by
  obtain ⟨hjtake, hjdrop⟩ :=
    takeWhile_append_of_ends (fun c hc => isDecimalChar_of_mem_number hj hjlead hc) hr
  obtain ⟨hktake, hkdrop⟩ :=
    takeWhile_append_of_ends (fun c hc => isDecimalChar_of_mem_number hk hklead hc) hs
  rw [h] at hjtake hjdrop
  exact ⟨number_injective hj hk hjlead hklead (hjtake.symm.trans hktake), hjdrop.symm.trans hkdrop⟩

/-- A value that is told by its text, and so is what follows the text. -/
def Told (j : Json) : Prop :=
  ∀ k, Finite k → ∀ r s, Ends r → Ends s → write j ++ r = write k ++ s → j = k ∧ r = s

theorem arr_boundary {items items' : List Json} (hitems : ∀ x ∈ items, Finite x ∧ Told x)
    (hitems' : ∀ y ∈ items', Finite y) {r s : List Char} (h : write (.arr items) ++ r = write (.arr items') ++ s) :
    items = items' ∧ r = s := by
  rw [write_arr_append, write_arr_append, List.cons_inj_right] at h
  have hstarts (x : Json) (hx : Finite x) (r : List Char) : (write x ++ r).head? ≠ some ']' :=
    head?_write_append_ne rfl lead?_ne_bracket hx r
  exact commas_boundary ⟨by decide, rfl⟩ hstarts hitems' hitems h

theorem obj_boundary {members members' : List (String × Json)} (hmembers : ∀ m ∈ members, Finite m.2 ∧ Told m.2)
    (hmembers' : ∀ n ∈ members', Finite n.2) {r s : List Char}
    (h : write (.obj members) ++ r = write (.obj members') ++ s) : members = members' ∧ r = s := by
  rw [write_obj_append, write_obj_append, List.cons_inj_right] at h
  have hfirst (m : String × Json) (hm : m ∈ members) : Finite m.2 ∧ ∀ n : String × Json, Finite n.2 →
      ∀ r s, Ends r → Ends s → writeMember m ++ r = writeMember n ++ s → m = n ∧ r = s := by
    refine ⟨(hmembers m hm).1, fun n hn r s hr hs h => ?_⟩
    rw [writeMember_append, writeMember_append] at h
    obtain ⟨hkey, hvalue⟩ := writeString_boundary h
    obtain ⟨heq, hrest⟩ := (hmembers m hm).2 n.2 hn r s hr hs ((List.cons_inj_right ':').1 hvalue)
    exact ⟨Prod.ext hkey heq, hrest⟩
  have hstarts (m : String × Json) (_ : Finite m.2) (r : List Char) : (writeMember m ++ r).head? ≠ some '\x7d' := by
    rw [writeMember_append, writeString_append]
    exact fun hquote => absurd (Option.some.inj hquote) (by decide)
  exact commas_boundary ⟨by decide, rfl⟩ hstarts hmembers' hfirst h

/-- Each finite value is told by its text: by induction on the value, as items and values of members are told by
theirs. -/
theorem told_of_finite {j : Json} (hj : Finite j) : Told j := by
  induction j using induction_on with
  | int i => exact fun k hk r s hr hs h => number_boundary hj hk rfl (lead?_eq_of_append hj hk h).symm hr hs h
  | float x => exact fun k hk r s hr hs h => number_boundary hj hk rfl (lead?_eq_of_append hj hk h).symm hr hs h
  | null =>
    intro k hk r s _ _ h
    have hlead := lead?_eq_of_append hj hk h
    cases k with
    | null => exact ⟨rfl, List.append_cancel_left h⟩
    | bool b => cases b <;> cases hlead
    | _ => cases hlead
  | bool b =>
    intro k hk r s _ _ h
    have hlead := lead?_eq_of_append hj hk h
    cases k with
    | bool b' =>
      obtain rfl : b = b' := by cases b <;> cases b' <;> first | rfl | cases hlead
      exact ⟨rfl, List.append_cancel_left h⟩
    | _ => cases b <;> cases hlead
  | str t =>
    intro k hk r s _ _ h
    have hlead := lead?_eq_of_append hj hk h
    cases k with
    | str t' =>
      obtain ⟨rfl, hrest⟩ := writeString_boundary h
      exact ⟨rfl, hrest⟩
    | bool b => cases b <;> cases hlead
    | _ => cases hlead
  | arr items ih =>
    intro k hk r s _ _ h
    have hlead := lead?_eq_of_append hj hk h
    cases k with
    | arr items' =>
      cases hj with | arr hitems =>
      cases hk with | arr hitems' =>
      obtain ⟨rfl, hrest⟩ := arr_boundary (fun x hx => ⟨hitems x hx, ih x hx (hitems x hx)⟩) hitems' h
      exact ⟨rfl, hrest⟩
    | bool b => cases b <;> cases hlead
    | _ => cases hlead
  | obj members ih =>
    intro k hk r s _ _ h
    have hlead := lead?_eq_of_append hj hk h
    cases k with
    | obj members' =>
      cases hj with | obj hmembers =>
      cases hk with | obj hmembers' =>
      obtain ⟨rfl, hrest⟩ := obj_boundary (fun m hm => ⟨hmembers m hm, ih m hm (hmembers m hm)⟩) hmembers' h
      exact ⟨rfl, hrest⟩
    | bool b => cases b <;> cases hlead
    | _ => cases hlead

/-- Compact texts of different values differ. -/
theorem write_injective_of_finite {j k : Json} (hj : Finite j) (hk : Finite k) (h : write j = write k) : j = k :=
  (told_of_finite hj k hk [] [] nofun nofun (by rw [h])).1

/-! ## Control characters -/

theorem printable_of_all {cs : List Char} (h : cs.all fun c => decide (0x20 ≤ c.toNat)) {c : Char} (hc : c ∈ cs) :
    0x20 ≤ c.toNat :=
  of_decide_eq_true (List.all_eq_true.1 h c hc)

theorem printable_hexDigit (n : Nat) : 0x20 ≤ (hexDigit n).toNat := by
  have hlt : n % 16 < 16 := Nat.mod_lt n (by decide)
  unfold hexDigit
  generalize n % 16 = m at hlt
  revert m
  decide

theorem printable_of_mem_escape {c d : Char} (h : d ∈ escape c) : 0x20 ≤ d.toNat := by
  unfold escape at h
  split_ifs at h with hquote hslash hback hfeed hline hreturn htab hcontrol
  · exact printable_of_all (by decide) h
  · exact printable_of_all (by decide) h
  · exact printable_of_all (by decide) h
  · exact printable_of_all (by decide) h
  · exact printable_of_all (by decide) h
  · exact printable_of_all (by decide) h
  · exact printable_of_all (by decide) h
  · have hmem : d ∈ ['\\', 'u', '0', '0'] ++ [hexDigit (c.toNat / 16), hexDigit c.toNat] := h
    rcases List.mem_append.1 hmem with hmem | hmem
    · exact printable_of_all (by decide) hmem
    · rcases List.mem_pair.1 hmem with rfl | rfl
      · exact printable_hexDigit _
      · exact printable_hexDigit _
  · rw [List.mem_singleton.1 h]
    exact Nat.le_of_not_lt hcontrol

/-- A sequence between two characters has no control characters if its texts have none. -/
theorem printable_of_mem_commas {ts : List (List Char)} {first last : Char} (hfirst : 0x20 ≤ first.toNat)
    (hlast : 0x20 ≤ last.toNat) (hts : ∀ t ∈ ts, ∀ c ∈ t, 0x20 ≤ c.toNat) :
    ∀ c ∈ first :: (commas ts ++ [last]), 0x20 ≤ c.toNat := by
  have hinside : ∀ c ∈ commas ts, 0x20 ≤ c.toNat := by
    induction ts with
    | nil => nofun
    | cons t ts ih =>
      obtain ⟨ht, hts⟩ := List.forall_mem_cons.1 hts
      rw [commas_cons, List.forall_mem_append]
      refine ⟨ht, ?_⟩
      split
      · nofun
      · exact List.forall_mem_cons.2 ⟨by decide, ih hts⟩
  refine List.forall_mem_cons.2 ⟨hfirst, List.forall_mem_append.2 ⟨hinside, ?_⟩⟩
  exact List.forall_mem_singleton.2 hlast

theorem printable_of_isDecimalChar {c : Char} (h : isDecimalChar c) : 0x20 ≤ c.toNat := by
  simp only [isDecimalChar, isMark, Bool.or_eq_true, beq_iff_eq, or_assoc] at h
  rcases h with hdigit | rfl | rfl | rfl | rfl | rfl
  · rw [Char.isDigit, Bool.and_eq_true, decide_eq_true_iff] at hdigit
    exact Nat.le_trans (by decide) (UInt32.le_iff_toNat_le.1 hdigit.1)
  all_goals decide

theorem printable_of_mem_writeString {s : String} {c : Char} (h : c ∈ writeString s) : 0x20 ≤ c.toNat := by
  rcases List.mem_cons.1 h with rfl | h
  · decide
  rcases List.mem_append.1 h with h | h
  · obtain ⟨d, -, hd⟩ := List.mem_flatMap.1 h
    exact printable_of_mem_escape hd
  · rw [List.mem_singleton.1 h]
    decide

/-- Compact text has no control characters. -/
theorem printable_of_mem_write {j : Json} (hj : Finite j) {c : Char} (hc : c ∈ write j) : 0x20 ≤ c.toNat := by
  induction j using induction_on generalizing c with
  | int i => exact printable_of_isDecimalChar (isDecimalChar_of_mem_number hj rfl hc)
  | float x => exact printable_of_isDecimalChar (isDecimalChar_of_mem_number hj rfl hc)
  | null => exact printable_of_all (by decide) hc
  | bool b => cases b <;> exact printable_of_all (by decide) hc
  | str s => exact printable_of_mem_writeString hc
  | arr items ih =>
    cases hj with | arr hitems =>
    rw [write_arr] at hc
    exact printable_of_mem_commas (by decide) (by decide)
      (List.forall_mem_map.2 fun j hj c hc => ih j hj (hitems j hj) hc) c hc
  | obj members ih =>
    cases hj with | obj hmembers =>
    rw [write_obj] at hc
    refine printable_of_mem_commas (by decide) (by decide) (List.forall_mem_map.2 fun m hm c hc => ?_) c hc
    rcases List.mem_append.1 hc with hc | hc
    · exact printable_of_mem_writeString hc
    · rcases List.mem_cons.1 hc with rfl | hc
      · decide
      · exact ih m hm (hmembers m hm) hc

end EvidenceGraph.Json
