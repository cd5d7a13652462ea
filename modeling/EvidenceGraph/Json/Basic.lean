/-
# `EvidenceGraph.Json.Basic` — JSON values.

Integers and binary64 numbers are kept apart: `1` and `1.0` are two values. An object is a list of
members; objects that come from a text have their keys in increasing order (by code points, which is the
order of their UTF-8 bytes) and no key twice, and `Json.Object` is the type of such member lists.
-/

namespace EvidenceGraph

/-- A JSON value. -/
inductive Json where
  | null
  | bool (value : Bool)
  | int (value : Int)
  | float (value : Float)
  | str (text : String)
  | arr (items : List Json)
  | obj (members : List (String × Json))
deriving Inhabited, BEq, Repr

namespace Json

/-- An array of strings. -/
def strings (items : List String) : Json := .arr (items.map .str)

/-- Set a member of a sorted member list; a member of that key is replaced. -/
def insertMember (key : String) (value : Json) : List (String × Json) → List (String × Json)
  | [] => [(key, value)]
  | m :: more =>
    if key < m.1 then (key, value) :: m :: more
    else if key = m.1 then (key, value) :: more
    else m :: insertMember key value more

/-- The value of a key in a member list. -/
def findMember? (key : String) (members : List (String × Json)) : Option Json :=
  (members.find? fun m => m.1 == key).map (·.2)

/-- Keys increase along a member list, and none comes twice. -/
def KeysIncrease (members : List (String × Json)) : Prop := members.Pairwise fun a b => a.1 < b.1

theorem mem_insertMember {key : String} {value : Json} {a : String × Json}
    {members : List (String × Json)} (h : a ∈ insertMember key value members) :
    a.1 = key ∨ a ∈ members := by
  induction members with
  | nil => simp_all [insertMember]
  | cons m more ih =>
    unfold insertMember at h
    split at h
    · simp only [List.mem_cons] at h ⊢
      rcases h with rfl | h | h <;> simp_all
    · split at h
      · simp only [List.mem_cons] at h ⊢
        rcases h with rfl | h <;> simp_all
      · simp only [List.mem_cons] at h ⊢
        rcases h with rfl | h
        · simp
        · rcases ih h with h | h <;> simp_all

theorem KeysIncrease.insertMember {members : List (String × Json)} (h : KeysIncrease members)
    (key : String) (value : Json) : KeysIncrease (Json.insertMember key value members) := by
  induction members with
  | nil => simp [Json.insertMember, KeysIncrease]
  | cons m more ih =>
    have hm := List.pairwise_cons.1 h
    unfold Json.insertMember
    split
    · next hlt =>
      refine List.pairwise_cons.2 ⟨fun a ha => ?_, h⟩
      rcases List.mem_cons.1 ha with rfl | ha
      · exact hlt
      · exact String.lt_trans hlt (hm.1 a ha)
    · split
      · next heq =>
        refine List.pairwise_cons.2 ⟨fun a ha => ?_, hm.2⟩
        have := hm.1 a ha
        simpa [heq] using this
      · next hlt hne =>
        refine List.pairwise_cons.2 ⟨fun a ha => ?_, ih hm.2⟩
        rcases mem_insertMember ha with heq | ha
        · grind
        · exact hm.1 a ha

/-- The members of an object, with increasing keys. -/
structure Object where
  members : List (String × Json)
  increasing : KeysIncrease members

namespace Object

/-- No members. -/
def empty : Object := ⟨[], List.Pairwise.nil⟩

instance : Inhabited Object := ⟨empty⟩

/-- Set a member; a member of that key is replaced. -/
def insert (o : Object) (key : String) (value : Json) : Object :=
  ⟨insertMember key value o.members, o.increasing.insertMember key value⟩

/-- The value of a key. -/
def get? (o : Object) (key : String) : Option Json := findMember? key o.members

/-- The object with the given members; of several with one key the last one stays. -/
def ofList (members : List (String × Json)) : Object :=
  members.foldl (fun o m => o.insert m.1 m.2) empty

/-- The object as a value. -/
def toJson (o : Object) : Json := .obj o.members

end Object

end Json

end EvidenceGraph
