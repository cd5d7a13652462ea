/-
# `EvidenceGraph.Settings.Overlay` — settings from several places laid over one another.

Settings from one place are a JSON object, and later places win over earlier ones. Objects are merged
member by member, at any depth and without regard to ASCII case; every other value replaces what it is laid
over. A key at the top names the place where its value belongs; on the way there, what is not an object
becomes one, and an array grows by nulls. No array has a place before its start or beyond a bound.
-/
import EvidenceGraph.Json.Basic
import EvidenceGraph.Settings.Key

namespace EvidenceGraph.Settings

open EvidenceGraph.Json

/-- The members of a value; what is not an object has none. -/
def membersOf : Json → List (String × Json)
  | .obj members => members
  | _ => []

/-- The items of a value; what is not an array has none. -/
def itemsOf : Json → List Json
  | .arr items => items
  | _ => []

mutual

/-- Lay a value over another one, if there is one. -/
def overlay (below : Option Json) : Json → Json
  | .obj members => overlayMembers (below.getD (.obj [])) members
  | value => value

/-- Lay members over a value, one after another. -/
def overlayMembers (below : Json) : List (String × Json) → Json
  | [] => below
  | (key, value) :: more =>
    let name := smallName key
    let present := membersOf below
    overlayMembers (.obj (insertMember name (overlay (findMember? name present) value) present)) more

end

/-- The greatest position to which an array may grow. -/
def greatestPosition : Nat := 0xFFFFFF

/-- The position of the item with a number in an array of the given size, or behind its end. -/
def position? (index : Int) (size : Nat) : Option Nat :=
  if 0 ≤ index then
    if index.toNat ≤ greatestPosition then some index.toNat else none
  else
    if index.natAbs ≤ size then some (size - index.natAbs) else none

/-- Replace the item at a position; behind the end there are nulls up to it. -/
def setItem (position : Nat) (item : Json) (items : List Json) : List Json :=
  if position < items.length then items.set position item
  else items ++ (List.replicate (position - items.length) .null ++ [item])

/-- Put a value in a place. A member is merged with what is there, an item of an array is replaced. -/
def put? (value : Json) : Option Json → List Step → Option Json
  | below, [] => some (overlay below value)
  | below, .member name :: more =>
    let present := membersOf (below.getD .null)
    (put? value (findMember? name present) more).map fun part =>
      .obj (insertMember name part present)
  | below, .item index :: more => do
    let present := itemsOf (below.getD .null)
    let position ← position? index present.length
    let part ← put? value (if more.isEmpty then none else present[position]?) more
    return .arr (setItem position part present)

/-- Lay settings over those of earlier places, unless one of them has no place. -/
def layOver? (below : Json) (entries : List (String × Json)) : Option Json :=
  entries.foldlM (fun below entry => put? entry.2 (some below) (Step.ofKey entry.1)) below

end EvidenceGraph.Settings
