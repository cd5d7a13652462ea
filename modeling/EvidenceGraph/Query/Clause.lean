/-
# `EvidenceGraph.Query.Clause` — reading the clauses of a query.

A reader takes a list of lexemes and either returns a value with the lexemes behind it, or the fault it
met with the lexemes from there on. All readers are built from `item`, which takes one lexeme, and none
of them depends on what is done about a fault. Main statements: whatever a reader leaves over, on success
or on failure, is a suffix of what it was given (`Reader.Forward`).
-/
import EvidenceGraph.Query.Basic
import EvidenceGraph.Query.Fault

namespace EvidenceGraph.Query

open EvidenceGraph.Text

/-- How strictly a query is read. -/
inductive Mode where
  /-- Leave out what cannot be read, and report it. -/
  | lenient
  /-- Stop at the first fault. -/
  | strict
deriving DecidableEq, Repr

/-- A fault and the lexemes from the point where reading stopped. -/
structure Miss where
  fault : Fault
  rest : List Lexeme

/-- A reader takes lexemes from the front of a list. -/
def Reader (α : Type) := List Lexeme → Except Miss (α × List Lexeme)

namespace Reader

/-- Readers in sequence: the second one goes on where the first one stopped. -/
instance : Monad Reader where
  pure a := fun ts => .ok (a, ts)
  bind first next := fun ts =>
    match first ts with
    | .ok (a, rest) => next a rest
    | .error miss => .error miss

/-- Stop with a fault at the next lexeme. -/
def miss {α : Type} (fault : Fault) : Reader α := fun ts => .error ⟨fault, ts⟩

/-- The lexemes to come, all of them left in place. -/
def ahead : Reader (List Lexeme) := fun ts => .ok (ts, ts)

/-- Pass over one lexeme. -/
def advance : Reader Unit := fun ts => .ok ((), ts.tail)

/-- Read one lexeme that `accept` knows a value for. -/
def item {α : Type} (accept : Token → Option α) (fault : Fault) : Reader α
  | [] => .error ⟨fault, []⟩
  | t :: ts =>
    match accept t.token with
    | some a => .ok (a, ts)
    | none => .error ⟨fault, t :: ts⟩

/-- Read one lexeme with the given token. -/
def sign (token : Token) (fault : Fault) : Reader Unit :=
  item (fun t => if t = token then some () else none) fault

/-- Read a keyword. -/
def keyword (k : Keyword) : Reader Unit :=
  item (fun t => if t.isKeyword k then some () else none) (.missingKeyword k)

/-- Read further items, each behind a comma. -/
def moreItems {α : Type} (accept : Token → Option α) (fault : Fault) : Reader (List α)
  | [] => .ok ([], [])
  | [t] => if t.token = .comma then .error ⟨fault, []⟩ else .ok ([], [t])
  | c :: t :: ts =>
    if c.token = .comma then
      match accept t.token with
      | some a =>
        match moreItems accept fault ts with
        | .ok (more, rest) => .ok (a :: more, rest)
        | .error found => .error found
      | none => .error ⟨fault, t :: ts⟩
    else
      .ok ([], c :: t :: ts)

/-- Read one or more items with commas between them. -/
def items {α : Type} (accept : Token → Option α) (fault : Fault) : Reader (List α) := do
  let first ← item accept fault
  let more ← moreItems accept fault
  return first :: more

end Reader

/-! ## What a single lexeme can stand for -/

/-- A field to select: a bare word other than `FROM`. -/
def selectField? : Token → Option String
  | .word w => if Keyword.source.isSpelled w then none else some w
  | _ => none

/-- A source: any bare word. -/
def sourceName? : Token → Option String
  | .word w => some w
  | _ => none

/-- The field of a condition: a bare word other than `AND`. -/
def conditionField? : Token → Option String
  | .word w => if Keyword.and.isSpelled w then none else some w
  | _ => none

/-- The right-hand side of a comparison: a quoted string or a bare word other than `AND`. -/
def literal? : Token → Option Literal
  | .quoted s => some (.text s)
  | .word w => if Keyword.and.isSpelled w then none else some (.ofBare w)
  | _ => none

/-- A string: quoted, or a bare word other than `AND` taken verbatim. -/
def string? : Token → Option String
  | .quoted s => some s
  | .word w => if Keyword.and.isSpelled w then none else some w
  | _ => none

/-- The word `node_id` in any case. -/
def nodeIdWord? : Token → Option Unit
  | .word w => if sameWord w nodeIdField then some () else none
  | _ => none

/-- A field to order by: a bare word that is no structural keyword. -/
def orderField? : Token → Option String
  | .word w => if isStructural w then none else some w
  | _ => none

/-- A count. -/
def count? : Token → Option UInt64
  | .word w => Decimal.readCount w
  | _ => none

/-- The relation with the given name, in any case. -/
def Relation.named? (name : String) : Option Relation :=
  if sameWord name "contradicts" then some .contradicts
  else if sameWord name "supports" then some .supports
  else none

/-! ## Clauses -/

open Reader

/-- The only source there is. -/
def sourceTable : String := "evidence"

/-- `SELECT field, …` -/
def selectClause : Reader (List String) := do
  keyword .select
  items selectField? .missingSelectField

/-- `FROM evidence`; reading leniently, any source will do. -/
def sourceClause (mode : Mode) : Reader Unit := do
  keyword .source
  let table ← item sourceName? .missingSource
  if mode = .strict ∧ sameWord table sourceTable = false then
    miss .unknownSource

/-- `(node_id = id)` behind the name of a relation. -/
def relationArgument (kind : Relation) : Reader Condition := do
  sign .leftParen .missingLeftParen
  item nodeIdWord? .missingNodeId
  sign (.comparison .eq) .missingEquals
  let id ← item string? .missingString
  sign .rightParen .missingRightParen
  return .ofRelation kind id

/-- Whether the next lexeme is an opening parenthesis. -/
def atLeftParen : List Lexeme → Bool
  | [] => false
  | t :: _ => t.token = .leftParen

/-- The items of `IN`: a list in parentheses, or a single one without. -/
def inItems : Reader (List String) := do
  if atLeftParen (← ahead) then
    advance
    let found ← items string? .missingString
    sign .rightParen .unclosedList
    return found
  else
    let found ← item string? .missingString
    return [found]

/-- The comparison symbol that a lexeme list starts with. -/
def comparison? : List Lexeme → Option Comparison
  | ⟨.comparison c, _, _⟩ :: _ => some c
  | _ => none

/-- The operator and right-hand side of a condition on `field`. -/
def comparisonOn (field : String) : Reader Condition := do
  let ts ← ahead
  match comparison? ts with
  | some c =>
    advance
    let value ← item literal? .missingValue
    return ⟨field, .compare c, value⟩
  | none =>
    if atKeyword .isIn ts then
      advance
      let found ← inItems
      return ⟨field, .isIn, .list found⟩
    else if atKeyword .contains ts then
      advance
      let needle ← item string? .missingString
      return ⟨field, .contains, .text needle⟩
    else
      miss .missingOperator

/-- One condition. The name of a relation opens a relation condition only before a parenthesis, and is
a field otherwise. -/
def condition : Reader Condition := do
  let field ← item conditionField? .missingConditionField
  match Relation.named? field, atLeftParen (← ahead) with
  | some kind, true => relationArgument kind
  | _, _ => comparisonOn field

/-- A clause behind the conditions. -/
inductive TailClause where
  | order (field : String) (direction : Order)
  | limit (count : UInt64)
  | offset (count : UInt64)
deriving DecidableEq, Repr

/-- The optional direction of an order, ascending by default. -/
def direction : Reader Order := do
  let ts ← ahead
  if atKeyword .desc ts then
    advance
    return .descending
  else if atKeyword .asc ts then
    advance
    return .ascending
  else
    return .ascending

/-- `ORDER BY field [ASC|DESC]` -/
def orderClause : Reader TailClause := do
  keyword .order
  keyword .by
  let field ← item orderField? .missingOrderField
  let found ← direction
  return .order field found

/-- `LIMIT n` or `OFFSET n` -/
def countClause (k : Keyword) (make : UInt64 → TailClause) : Reader TailClause := do
  keyword k
  let n ← item count? (.missingCount k)
  return make n

/-- The position in a query of the clause that starts here: one for the order, two for the limit, three
for the offset, and zero for anything else. -/
def clauseRank (ts : List Lexeme) : Nat :=
  if atKeyword .order ts then 1
  else if atKeyword .limit ts then 2
  else if atKeyword .offset ts then 3
  else 0

/-- The clause of the given rank. -/
def tailClause : Nat → Reader TailClause
  | 1 => orderClause
  | 2 => countClause .limit .limit
  | 3 => countClause .offset .offset
  | _ => miss .unexpectedText

/-- Whether a clause behind the conditions starts here. `limit = 3` is a condition on a field of that
name, and `ORDER` needs its `BY`. -/
def atTailClause (ts : List Lexeme) : Bool :=
  if atKeyword .order ts then
    atKeyword .by ts.tail
  else if atKeyword .limit ts || atKeyword .offset ts then
    (comparison? ts.tail).isNone && !atKeyword .isIn ts.tail && !atKeyword .contains ts.tail
  else
    false

/-! ## What a reader leaves over -/

namespace Reader

/-- The lexemes that a reader left over, whatever its outcome. -/
def left {α : Type} : Except Miss (α × List Lexeme) → List Lexeme
  | .ok (_, rest) => rest
  | .error found => found.rest

/-- A reader that only ever takes lexemes from the front. -/
def Forward {α : Type} (r : Reader α) : Prop := ∀ ts, left (r ts) <:+ ts

theorem forward_pure {α : Type} (a : α) : Forward (pure a : Reader α) :=
  fun _ => List.suffix_rfl

theorem forward_miss {α : Type} (fault : Fault) : Forward (miss fault : Reader α) :=
  fun _ => List.suffix_rfl

theorem forward_ahead : Forward ahead := fun _ => List.suffix_rfl

theorem forward_advance : Forward advance := fun ts => List.tail_suffix ts

theorem forward_bind {α β : Type} {first : Reader α} {next : α → Reader β}
    (hfirst : Forward first) (hnext : ∀ a, Forward (next a)) : Forward (first >>= next) := by
  intro ts
  have h := hfirst ts
  show left (match first ts with
    | .ok (a, rest) => next a rest
    | .error found => .error found) <:+ ts
  cases hr : first ts with
  | error found => simpa [hr, left] using h
  | ok found =>
    obtain ⟨a, rest⟩ := found
    rw [hr] at h
    exact (hnext a rest).trans h

theorem forward_ite {α : Type} {p : Prop} [Decidable p] {r s : Reader α}
    (hr : Forward r) (hs : Forward s) : Forward (if p then r else s) := by
  split <;> assumption

theorem forward_item {α : Type} (accept : Token → Option α) (fault : Fault) :
    Forward (item accept fault) := by
  intro ts
  cases ts with
  | nil => simp [item, left]
  | cons t ts => cases h : accept t.token <;> simp [item, h, left]

theorem forward_moreItems {α : Type} (accept : Token → Option α) (fault : Fault) :
    Forward (moreItems accept fault) := by
  intro ts
  fun_induction moreItems accept fault ts with
  | case1 => simp [left]
  | case2 t h => simp [left]
  | case3 t h => simp [left]
  | case4 c t ts h a ha more rest hm ih =>
    rw [hm] at ih
    exact ih.trans ((List.suffix_cons t ts).trans (List.suffix_cons c _))
  | case5 c t ts h a ha found hm ih =>
    rw [hm] at ih
    exact ih.trans ((List.suffix_cons t ts).trans (List.suffix_cons c _))
  | case6 c t ts h ha => exact List.suffix_cons _ _
  | case7 c t ts h => simp [left]

theorem forward_items {α : Type} (accept : Token → Option α) (fault : Fault) :
    Forward (items accept fault) :=
  forward_bind (forward_item _ _) fun _ => forward_bind (forward_moreItems _ _) fun _ => forward_pure _

end Reader

theorem forward_selectClause : Forward selectClause :=
  forward_bind (forward_item _ _) fun _ => forward_items _ _

theorem forward_sourceClause (mode : Mode) : Forward (sourceClause mode) :=
  forward_bind (forward_item _ _) fun _ => forward_bind (forward_item _ _) fun _ =>
    forward_ite (forward_miss _) (forward_pure _)

theorem forward_relationArgument (kind : Relation) : Forward (relationArgument kind) :=
  forward_bind (forward_item _ _) fun _ => forward_bind (forward_item _ _) fun _ =>
    forward_bind (forward_item _ _) fun _ => forward_bind (forward_item _ _) fun _ =>
      forward_bind (forward_item _ _) fun _ => forward_pure _

theorem forward_inItems : Forward inItems :=
  forward_bind forward_ahead fun _ => forward_ite
    (forward_bind forward_advance fun _ => forward_bind (forward_items _ _) fun _ =>
      forward_bind (forward_item _ _) fun _ => forward_pure _)
    (forward_bind (forward_item _ _) fun _ => forward_pure _)

theorem forward_comparisonOn (field : String) : Forward (comparisonOn field) :=
  forward_bind forward_ahead fun ts => by
    split
    · exact forward_bind forward_advance fun _ => forward_bind (forward_item _ _) fun _ => forward_pure _
    · exact forward_ite
        (forward_bind forward_advance fun _ => forward_bind forward_inItems fun _ => forward_pure _)
        (forward_ite
          (forward_bind forward_advance fun _ => forward_bind (forward_item _ _) fun _ => forward_pure _)
          (forward_miss _))

theorem forward_condition : Forward condition :=
  forward_bind (forward_item _ _) fun _ => forward_bind forward_ahead fun ts => by
    split
    · exact forward_relationArgument _
    · exact forward_comparisonOn _

theorem forward_direction : Forward direction :=
  forward_bind forward_ahead fun _ => forward_ite
    (forward_bind forward_advance fun _ => forward_pure _)
    (forward_ite (forward_bind forward_advance fun _ => forward_pure _) (forward_pure _))

theorem forward_countClause (k : Keyword) (make : UInt64 → TailClause) :
    Forward (countClause k make) :=
  forward_bind (forward_item _ _) fun _ => forward_bind (forward_item _ _) fun _ => forward_pure _

theorem forward_tailClause (rank : Nat) : Forward (tailClause rank) := by
  unfold tailClause
  split
  · exact forward_bind (forward_item _ _) fun _ => forward_bind (forward_item _ _) fun _ =>
      forward_bind (forward_item _ _) fun _ => forward_bind forward_direction fun _ => forward_pure _
  · exact forward_countClause _ _
  · exact forward_countClause _ _
  · exact forward_miss _

end EvidenceGraph.Query
