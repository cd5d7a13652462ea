/-
# `EvidenceGraph.Store.Selection` — the answer to a query.

The nodes that meet all conditions are put in order and cut to a page. Truth values come before numbers
and numbers before strings; numbers are ordered by the total order of binary64 values, in which `-0.0`
precedes `0.0`, and absent fields count as the empty string. Nodes with equal keys stay in the order of
their arrival, in both directions.
-/
import EvidenceGraph.Query.Parse
import EvidenceGraph.Store.Matching

namespace EvidenceGraph

open EvidenceGraph.Query

/-- What nodes are ordered by. -/
inductive SortKey where
  | bool (value : Bool)
  | number (value : Float)
  | text (value : String)

namespace SortKey

/-- The key of a field. -/
def ofField : Option FieldValue → SortKey
  | none => .text ""
  | some (.bool b) => .bool b
  | some (.int i) => .number (Float.ofInt i.toInt)
  | some (.float x) => .number x
  | some (.text s) => .text s
  | some other => .text (String.ofList other.render)

/-- The place of a binary64 value in the total order: the bits as a signed number, negative values
in reverse. -/
def totalOrder (x : Float) : Int :=
  if Decimal.signBit x then 0x7FFFFFFFFFFFFFFF - x.toBits.toNat else x.toBits.toNat

/-- The rank of a kind of keys. -/
def rank : SortKey → Nat
  | .bool _ => 0
  | .number _ => 1
  | .text _ => 2

/-- The order of two keys. -/
def compare : SortKey → SortKey → Ordering
  | .bool a, .bool b => Ord.compare a.toNat b.toNat
  | .number x, .number y => Ord.compare (totalOrder x) (totalOrder y)
  | .text a, .text b => Ord.compare a b
  | a, b => Ord.compare a.rank b.rank

end SortKey

/-- The answer to a query. -/
structure Answer where
  /-- The nodes of the page, whole. -/
  nodes : List Node
  /-- The number of nodes that meet the conditions. -/
  total : Nat
  /-- The text of the query. -/
  query : String
  /-- The selected fields. -/
  select : List String
  /-- Reports on what was left out of the query's text. -/
  diagnostics : List Diagnostic

namespace Store

/-- The nodes that meet all conditions, in the order of their arrival. -/
def matching (s : Store) (conditions : List Condition) : List Node :=
  s.toList.filter fun n => s.meetsAll n conditions

/-- The sort key of a node. -/
def sortKey (field : String) (n : Node) : SortKey := .ofField (n.resolve field)

/-- Whether a node with key `a` may stand before one with key `b`. -/
def mayPrecede (order : Order) (a b : SortKey) : Bool :=
  match order with
  | .ascending => a.compare b != .gt
  | .descending => b.compare a != .gt

/-- Nodes in the order of a field; each key is taken once. -/
def sortBy (field : String) (order : Order) (nodes : List Node) : List Node :=
  -- the sort is stable, so nodes with equal keys keep their order
  let keyed := nodes.map fun n => (sortKey field n, n)
  (keyed.mergeSort fun a b => mayPrecede order a.1 b.1).map (·.2)

/-- Nodes in the order that a query asks for. -/
def ordered (q : Query) (nodes : List Node) : List Node :=
  match q.orderBy with
  | none => nodes
  | some field => sortBy field q.order nodes

/-- The page of a list that a query asks for. -/
def page (q : Query) (nodes : List Node) : List Node :=
  let from_ := nodes.drop q.offset.toNat
  match q.limit with
  | none => from_
  | some n => from_.take n.toNat

/-- Answer a query; the text of the answer is the canonical one. -/
def execute (s : Store) (q : Query) : Answer :=
  let found := s.matching q.conditions
  { nodes := page q (ordered q found)
    total := found.length
    query := q.display
    select := q.select
    diagnostics := [] }

/-- Answer a query that was read from a text. -/
def executeParsed (s : Store) (source : String) (parsed : Parsed) : Answer :=
  { s.execute parsed.query with query := source, diagnostics := parsed.diagnostics }

/-- Read a query leniently and answer it. -/
def ask (s : Store) (source : String) : Answer := s.executeParsed source (Query.parse source)

/-- Read a query strictly and answer it. -/
def askStrict (s : Store) (source : String) : Except Diagnostic Answer :=
  (Query.parseIn .strict source).map fun parsed => s.executeParsed source parsed

/-- The text of a query with a single condition. -/
def conditionQuery (c : Condition) : String :=
  String.ofList ("SELECT * FROM evidence WHERE ".toList ++ c.write)

/-- The nodes in the given relation to an id. -/
def findRelated (s : Store) (kind : Relation) (id : String) : Answer :=
  s.ask (conditionQuery (.ofRelation kind id))

/-- The nodes that contradict an id. -/
def findContradictions (s : Store) (id : String) : List Node := (s.findRelated .contradicts id).nodes

/-- The nodes that support an id. -/
def findSupporting (s : Store) (id : String) : List Node := (s.findRelated .supports id).nodes

end Store

end EvidenceGraph
