/-
# `EvidenceGraph.Proofs.Json.Shown` — values as their texts show them, and records of them.

JSON has no infinities and no NaN, and a text has null in their place. A value is shown as it is if and only if it is
finite (`shown_eq_self_iff`). A record that has all its fields in their order gives each of them to its decoder
(`fields?_zip`), and an object or a list of strings that is taken apart is put together again.
-/
import EvidenceGraph.Json.Document
import EvidenceGraph.Proofs.Json.Compact

namespace EvidenceGraph.Json

open EvidenceGraph.Decimal

/-! ## Values in a text -/

mutual

/-- A value as its text shows it. -/
def shown : Json → Json
  | .null => .null
  | .bool b => .bool b
  | .int i => .int i
  | .float x => if isFinite x then .float x else .null
  | .str s => .str s
  | .arr items => .arr (shownItems items)
  | .obj members => .obj (shownMembers members)

/-- The items of an array as its text shows them. -/
def shownItems : List Json → List Json
  | [] => []
  | j :: more => shown j :: shownItems more

/-- The members of an object as its text shows them. -/
def shownMembers : List (String × Json) → List (String × Json)
  | [] => []
  | (k, j) :: more => (k, shown j) :: shownMembers more

end

theorem shownItems_eq (items : List Json) : shownItems items = items.map shown := by
  induction items with
  | nil => rfl
  | cons j more ih => rw [shownItems, ih, List.map_cons]

theorem shownMembers_eq (members : List (String × Json)) :
    shownMembers members = members.map fun m => (m.1, shown m.2) := by
  induction members with
  | nil => rfl
  | cons m more ih => rw [shownMembers, ih, List.map_cons]

theorem finite_float_iff {x : Float} : Finite (.float x) ↔ isFinite x :=
  ⟨fun | .float h => h, .float⟩

theorem finite_arr_iff {items : List Json} : Finite (.arr items) ↔ ∀ j ∈ items, Finite j :=
  ⟨fun | .arr h => h, .arr⟩

theorem finite_obj_iff {members : List (String × Json)} : Finite (.obj members) ↔ ∀ m ∈ members, Finite m.2 :=
  ⟨fun | .obj h => h, .obj⟩

/-- What a text shows has the same text. -/
theorem write_shown (j : Json) : write (shown j) = write j := by
  induction j using induction_on with
  | null | bool | int | str => rfl
  | float x =>
    rw [shown]
    split
    · rfl
    · next hx => simp [write, Style.write, hx, jsonStyle]
  | arr items ih =>
    rw [shown, shownItems_eq, write_arr, write_arr, List.map_map]
    congr 3
    exact List.map_congr_left ih
  | obj members ih =>
    rw [shown, shownMembers_eq, write_obj, write_obj, List.map_map]
    congr 3
    refine List.map_congr_left fun m hm => ?_
    show writeString m.1 ++ ':' :: write (shown m.2) = writeMember m
    rw [ih m hm]
    rfl

theorem map_eq_self_iff {α : Type} {f : α → α} {l : List α} : l.map f = l ↔ ∀ a ∈ l, f a = a := by
  have hsame : l.map f = l.map id ↔ ∀ a ∈ l, f a = id a := List.map_inj_left
  rwa [List.map_id] at hsame

/-- What a text shows is finite. -/
theorem finite_shown (j : Json) : Finite (shown j) := by
  induction j using induction_on with
  | null => exact .null
  | bool b => exact .bool b
  | int i => exact .int i
  | str s => exact .str s
  | float x =>
    rw [shown]
    split
    · next hx => exact .float hx
    · exact .null
  | arr items ih =>
    rw [shown, shownItems_eq, finite_arr_iff]
    exact List.forall_mem_map.2 ih
  | obj members ih =>
    rw [shown, shownMembers_eq, finite_obj_iff]
    exact List.forall_mem_map.2 ih

/-- A value is shown as it is if and only if it is finite. -/
theorem shown_eq_self_iff (j : Json) : shown j = j ↔ Finite j := by
  induction j using induction_on with
  | null => exact ⟨fun _ => .null, fun _ => rfl⟩
  | bool b => exact ⟨fun _ => .bool b, fun _ => rfl⟩
  | int i => exact ⟨fun _ => .int i, fun _ => rfl⟩
  | str s => exact ⟨fun _ => .str s, fun _ => rfl⟩
  | float x =>
    rw [shown, finite_float_iff]
    split
    · next hx => exact iff_of_true rfl hx
    · next hx => exact iff_of_false nofun hx
  | arr items ih =>
    rw [shown, shownItems_eq, Json.arr.injEq, map_eq_self_iff, finite_arr_iff]
    exact forall₂_congr ih
  | obj members ih =>
    rw [shown, shownMembers_eq, Json.obj.injEq, map_eq_self_iff, finite_obj_iff]
    refine forall₂_congr fun m hm => ?_
    rw [← ih m hm]
    exact ⟨congrArg Prod.snd, fun h => Prod.ext rfl h⟩

/-! ## Decoders -/

/-- Items that are decoded one by one are those that were written if each of them is. -/
theorem mapM_map_eq_some_iff {α β : Type} {decode : β → Option α} {encode : α → β} {items : List α} :
    (items.map encode).mapM decode = some items ↔ ∀ a ∈ items, decode (encode a) = some a := by
  induction items with
  | nil => simp
  | cons a items ih =>
    rw [List.map_cons, List.mapM_cons, List.forall_mem_cons, ← ih]
    simp only [Option.bind_eq_bind, Option.bind_eq_some_iff, Option.pure_def, Option.some.injEq]
    constructor
    · rintro ⟨b, hb, more, hmore, heq⟩
      obtain ⟨rfl, rfl⟩ := List.cons.inj heq
      exact ⟨hb, hmore⟩
    · rintro ⟨ha, hmore⟩
      exact ⟨a, ha, items, hmore, rfl⟩

/-- An array is read back if each of its items is. -/
theorem list?_arr_iff {α : Type} {decode : Json → Option α} {encode : α → Json} {items : List α} :
    list? decode (shown (.arr (items.map encode))) = some items ↔ ∀ a ∈ items, decode (shown (encode a)) = some a := by
  have hitems : list? decode (shown (.arr (items.map encode))) =
      (items.map (shown ∘ encode)).mapM decode := by
    rw [shown, shownItems_eq, List.map_map]
    rfl
  rw [hitems, mapM_map_eq_some_iff]
  rfl

/-- A number that JSON may have no form for is read back if and only if it has one. -/
theorem decode_float_iff {α : Type} {decode : Json → Option α} {x : Float} {value : α}
    (hfloat : decode (.float x) = some value) (hnull : decode .null ≠ some value) :
    decode (shown (.float x)) = some value ↔ isFinite x := by
  rw [shown]
  split
  · next hx => exact iff_of_true hfloat hx
  · next hx => exact iff_of_false hnull hx

/-- Strings are read back. -/
theorem list?_strings (items : List String) : list? string? (shown (strings items)) = some items :=
  list?_arr_iff.2 fun _ _ => rfl

/-- An object that has all the fields of a record in their order. -/
theorem fields?_zip {names : List String} {values : List Json} (hnames : names.Nodup)
    (hlength : names.length = values.length) :
    fields? names (.obj (names.zip values)) = some ⟨false, names.zip values⟩ := by
  have hknown : (names.zip values).filter (fun m => names.contains m.1) = names.zip values :=
    List.filter_eq_self.2 fun m hm => List.contains_iff_mem.2 (List.of_mem_zip hm).1
  have hkeys : (names.zip values).map Prod.fst = names := List.map_fst_zip (Nat.le_of_eq hlength)
  show (if (((names.zip values).filter fun m => names.contains m.1).map (·.1)).Nodup then _ else _) = _
  rw [hknown, hkeys, if_pos hnames]

/-- A member that is set behind all others comes last. -/
theorem insertMember_last {members : List (String × Json)} {key : String} (h : ∀ m ∈ members, m.1 < key)
    (value : Json) : insertMember key value members = members ++ [(key, value)] := by
  induction members with
  | nil => rfl
  | cons m more ih =>
    obtain ⟨hfirst, hmore⟩ := List.forall_mem_cons.1 h
    rw [insertMember, if_neg (String.lt_asymm hfirst), if_neg, ih hmore, List.cons_append]
    rintro rfl
    exact String.lt_irrefl _ hfirst

/-- Entries that are put in one behind the other stand in that order. -/
theorem foldl_in_order {σ α : Type} {r : α → α → Prop} {put : σ → α → σ} {entries : σ → List α}
    (hput : ∀ s a, (∀ b ∈ entries s, r b a) → entries (put s a) = entries s ++ [a]) (s : σ) {more : List α}
    (h : (entries s ++ more).Pairwise r) : entries (more.foldl put s) = entries s ++ more := by
  induction more generalizing s with
  | nil => rw [List.foldl_nil, List.append_nil]
  | cons a more ih =>
    have hlast : entries (put s a) = entries s ++ [a] :=
      hput s a fun b hb => (List.pairwise_append.1 h).2.2 b hb a List.mem_cons_self
    rw [List.foldl_cons, ih, hlast, List.append_assoc, List.singleton_append]
    rwa [hlast, List.append_assoc]

/-- An object is put together again from its members. -/
theorem members_ofList {members : List (String × Json)} (h : KeysIncrease members) :
    (Object.ofList members).members = members := by
  have hput (o : Object) (m : String × Json) (hlast : ∀ a ∈ o.members, a.1 < m.1) :
      (o.insert m.1 m.2).members = o.members ++ [m] := insertMember_last hlast m.2
  exact foldl_in_order hput Object.empty h

/-- The content of a node is read back if and only if it is finite. -/
theorem object?_toJson (o : Object) : object? (shown o.toJson) = some o ↔ Finite o.toJson := by
  have hkeys : KeysIncrease (shownMembers o.members) := by
    rw [shownMembers_eq, KeysIncrease, List.pairwise_map]
    exact o.increasing
  have hobject : object? (shown o.toJson) = some (Object.ofList (shownMembers o.members)) := rfl
  rw [hobject, ← shown_eq_self_iff, Object.toJson, shown, Json.obj.injEq, Option.some_inj]
  constructor
  · intro heq
    rw [← members_ofList hkeys, heq]
  · intro heq
    have hmembers := members_ofList hkeys
    rw [heq] at hmembers ⊢
    cases h : Object.ofList o.members with
    | mk members increasing =>
      rw [h] at hmembers
      cases hmembers
      rfl

end EvidenceGraph.Json
