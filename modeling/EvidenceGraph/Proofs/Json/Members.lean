/-
# `EvidenceGraph.Proofs.Json.Members` — objects by the values of their keys.

Setting a member changes the value of its key and of no other, so an object that is made of members has for each
key the value that came last. As keys increase along an object, the values of its keys are all there is to
it (`Object.ext_of_get?`): in which order they were set is forgotten.
-/
import EvidenceGraph.Json.Basic
import Mathlib.Data.List.Sort

namespace EvidenceGraph.Json

/-! ## Member lists -/

theorem findMember?_cons (key : String) (m : String × Json) (members : List (String × Json)) :
    findMember? key (m :: members) = if m.1 = key then some m.2 else findMember? key members := by
  by_cases h : m.1 = key <;> simp [findMember?, h]

theorem findMember?_append (key : String) (members more : List (String × Json)) :
    findMember? key (members ++ more) = (findMember? key members).or (findMember? key more) := by
  simp [findMember?, List.find?_append, Option.map_or]

/-- A member that is set has its new value, and all others have theirs. -/
theorem findMember?_insertMember (key : String) (value : Json) (members : List (String × Json)) (k : String) :
    findMember? k (insertMember key value members) = if key = k then some value else findMember? k members := by
  induction members with
  | nil => exact findMember?_cons k (key, value) []
  | cons m members ih =>
    unfold insertMember
    split
    · exact findMember?_cons k (key, value) (m :: members)
    · split
      · next hkey =>
        rw [findMember?_cons, findMember?_cons, ← hkey]
        split <;> rfl
      · next hkey =>
        rw [findMember?_cons, findMember?_cons, ih]
        split
        · next hm =>
          rw [if_neg]
          rintro rfl
          exact hkey hm.symm
        · rfl

/-- Along increasing keys a member is found by its key. -/
theorem mem_iff_findMember? {members : List (String × Json)} (h : KeysIncrease members) {m : String × Json} :
    m ∈ members ↔ findMember? m.1 members = some m.2 := by
  induction members with
  | nil => simp [findMember?]
  | cons a members ih =>
    obtain ⟨hfirst, hmore⟩ := List.pairwise_cons.1 h
    rw [List.mem_cons, findMember?_cons, ih hmore]
    split
    · next heq =>
      have hother : findMember? m.1 members ≠ some m.2 := by
        intro hfound
        have hless := hfirst m ((ih hmore).2 hfound)
        rw [heq] at hless
        exact String.lt_irrefl _ hless
      rw [or_iff_left hother, Option.some_inj]
      exact ⟨fun h => h ▸ rfl, fun hvalue => Prod.ext heq.symm hvalue.symm⟩
    · next hne => exact or_iff_right fun h => hne (h ▸ rfl)

/-- The keys of a member list are those with a value. -/
theorem mem_keys_iff {key : String} {members : List (String × Json)} :
    key ∈ members.map Prod.fst ↔ (findMember? key members).isSome := by
  simp [findMember?]

/-- Members that are made of their keys. -/
theorem findMember?_map (value : String → Json) (keys : List String) (key : String) :
    findMember? key (keys.map fun k => (k, value k)) = if key ∈ keys then some (value key) else none := by
  induction keys with
  | nil => rfl
  | cons k keys ih =>
    rw [List.map_cons, findMember?_cons, ih]
    by_cases hk : k = key
    · simp [hk]
    · simp [hk, Ne.symm hk]

namespace Object

/-! ## Objects -/

variable {o p : Object}

@[simp]
theorem get?_empty (key : String) : empty.get? key = none := rfl

@[simp]
theorem get?_insert (o : Object) (key : String) (value : Json) (k : String) :
    (o.insert key value).get? k = if key = k then some value else o.get? k :=
  findMember?_insertMember key value o.members k

/-- Objects with the same values are the same. -/
theorem ext_of_get? (h : ∀ key, o.get? key = p.get? key) : o = p := by
  have hmem (m : String × Json) : m ∈ o.members ↔ m ∈ p.members := by
    rw [mem_iff_findMember? o.increasing, mem_iff_findMember? p.increasing]
    exact iff_of_eq (congrArg (· = some m.2) (h m.1))
  have hnodup (q : Object) : q.members.Nodup := by
    refine List.Pairwise.imp ?_ q.increasing
    rintro a b hlt rfl
    exact String.lt_irrefl _ hlt
  have hmembers : o.members = p.members :=
    ((List.perm_ext_iff_of_nodup (hnodup o) (hnodup p)).2 hmem).eq_of_pairwise
      (fun _ _ _ _ hab hba => absurd hba (String.lt_asymm hab)) o.increasing p.increasing
  cases o
  cases p
  cases hmembers
  rfl

/-- Setting members one after another: the last one of a key counts. -/
theorem get?_foldl_insert (members : List (String × Json)) (o : Object) (key : String) :
    (members.foldl (fun o m => o.insert m.1 m.2) o).get? key =
      (findMember? key members.reverse).or (o.get? key) := by
  induction members generalizing o with
  | nil => rfl
  | cons m members ih =>
    rw [List.foldl_cons, ih, get?_insert, List.reverse_cons, findMember?_append, findMember?_cons, Option.or_assoc]
    split <;> rfl

theorem get?_ofList (members : List (String × Json)) (key : String) :
    (ofList members).get? key = findMember? key members.reverse := by
  rw [ofList, get?_foldl_insert, get?_empty, Option.or_none]

/-- An object of members that are made of their keys, in which keys may be repeated. -/
theorem get?_ofList_map (value : String → Json) (keys : List String) (key : String) :
    (ofList (keys.map fun k => (k, value k))).get? key = if key ∈ keys then some (value key) else none := by
  rw [get?_ofList, ← List.map_reverse, findMember?_map]
  simp only [List.mem_reverse]

end Object

end EvidenceGraph.Json
