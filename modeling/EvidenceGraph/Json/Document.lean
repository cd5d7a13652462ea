/-
# `EvidenceGraph.Json.Document` — taking JSON apart.

Records are decoded from a JSON value or straight from the tree of a text; the two differ in what they
can still hold (a tree keeps repeated keys, and parts of it may have no value). A record is an object or
an array of its fields in their order. Unknown members are passed over; a known one must not come twice.
-/
import EvidenceGraph.Json.Tree

namespace EvidenceGraph.Json

/-- The outermost layer of a document. -/
inductive View (δ : Type) where
  | null
  | bool (value : Bool)
  | int (value : Int)
  | float (value : Float)
  | str (text : String)
  | arr (items : List δ)
  | obj (members : List (String × δ))

/-- What can be taken apart like JSON. -/
class Document (δ : Type) where
  /-- The outermost layer, if it has a value. -/
  view? : δ → Option (View δ)
  /-- The whole value. -/
  value? : δ → Option Json

/-- The outermost layer of a value. -/
def view : Json → View Json
  | .null => .null
  | .bool b => .bool b
  | .int i => .int i
  | .float x => .float x
  | .str s => .str s
  | .arr items => .arr items
  | .obj members => .obj members

instance : Document Json where
  view? j := some (view j)
  value? j := some j

/-- A part of the tree of a text, with the nesting that is still allowed there. -/
structure Part where
  depth : Nat
  tree : Tree

/-- A member of an object whose parts may be nested `depth` levels deep. -/
def Part.member? (depth : Nat) (m : Option String × Tree) : Option (String × Part) :=
  m.1.map fun key => (key, ⟨depth, m.2⟩)

/-- The outermost layer of a part of a tree. -/
def Part.view? (p : Part) : Option (View Part) :=
  match p.tree with
  | .null => some .null
  | .bool b => some (.bool b)
  | .number n => n.value?.bind fun
    | .int i => some (.int i)
    | .float x => some (.float x)
    | _ => none
  | .str text => text.map .str
  | .arr items =>
    match p.depth with
    | 0 => none
    | depth + 1 => some (.arr (items.map (Part.mk depth)))
  | .obj members =>
    match p.depth with
    | 0 => none
    | depth + 1 =>
      (members.mapM (Part.member? depth)).map View.obj

instance : Document Part where
  view? := Part.view?
  value? p := p.tree.value? p.depth

/-- Decode a whole text. -/
def decodeText? {α : Type} (decode : Part → Option α) (text : String) : Option α :=
  (Tree.ofText? text).bind fun tree => decode ⟨nestingLimit, tree⟩

section Decoders

variable {δ : Type} [Document δ]

/-- A string. -/
def string? (d : δ) : Option String :=
  match Document.view? d with
  | some (.str s) => some s
  | _ => none

/-- A truth value. -/
def bool? (d : δ) : Option Bool :=
  match Document.view? d with
  | some (.bool b) => some b
  | _ => none

/-- A number as a binary64 value; integers are rounded to the nearest one. -/
def float? (d : δ) : Option Float :=
  match Document.view? d with
  | some (.int i) => some (Float.ofInt i)
  | some (.float x) => some x
  | _ => none

/-- A natural number below `2 ^ 64`, spelled as an integer. -/
def count? (d : δ) : Option UInt64 :=
  match Document.view? d with
  | some (.int i) => if 0 ≤ i then Decimal.uint64? i.toNat else none
  | _ => none

/-- An array, every item decoded. -/
def list? {α : Type} (item : δ → Option α) (d : δ) : Option (List α) :=
  match Document.view? d with
  | some (.arr items) => items.mapM item
  | _ => none

/-- An array of two strings. -/
def pair? (d : δ) : Option (String × String) :=
  match Document.view? d with
  | some (.arr [a, b]) => do return (← string? a, ← string? b)
  | _ => none

/-- Null for nothing, or a value. -/
def nullable? {α : Type} (decode : δ → Option α) (d : δ) : Option (Option α) :=
  match Document.view? d with
  | some .null => some none
  | _ => (decode d).map some

/-- One of a list of names: the name itself, or an object with that name as its only key and null as
its value. -/
def name? {α : Type} (ofName? : String → Option α) (d : δ) : Option α :=
  match Document.view? d with
  | some (.str s) => ofName? s
  | some (.obj [(key, value)]) =>
    match Document.view? value with
    | some .null => ofName? key
    | _ => none
  | _ => none

/-- An object with all its values. -/
def object? (d : δ) : Option Object :=
  match Document.value? d with
  | some (.obj members) => some (Object.ofList members)
  | _ => none

/-- The known fields that a document gives for a record. -/
structure Fields (δ : Type) where
  /-- Whether the fields were given by position. -/
  positional : Bool
  given : List (String × δ)

/-- The fields of a record with the given names. -/
def fields? (names : List String) (d : δ) : Option (Fields δ) :=
  match Document.view? d with
  | some (.arr items) =>
    if items.length ≤ names.length then some ⟨true, names.zip items⟩ else none
  | some (.obj members) =>
    let known := members.filter fun m => names.contains m.1
    if (known.map (·.1)).Nodup then some ⟨false, known⟩ else none
  | _ => none

/-- The document given for a field. -/
def Fields.find? (fields : Fields δ) (name : String) : Option δ :=
  (fields.given.find? fun m => m.1 == name).map (·.2)

/-- A field that has to be given. -/
def Fields.required {α : Type} (fields : Fields δ) (name : String) (decode : δ → Option α) : Option α :=
  (fields.find? name).bind decode

/-- A field that may be left out. -/
def Fields.withDefault {α : Type} (fields : Fields δ) (name : String) (decode : δ → Option α)
    (value : α) : Option α :=
  match fields.find? name with
  | none => some value
  | some d => decode d

/-- A field that may be null or, in an object, left out. -/
def Fields.optional {α : Type} (fields : Fields δ) (name : String) (decode : δ → Option α) :
    Option (Option α) :=
  match fields.find? name with
  | none => if fields.positional then none else some none
  | some d => nullable? decode d

end Decoders

end EvidenceGraph.Json
