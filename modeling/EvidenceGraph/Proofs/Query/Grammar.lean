/-
# `EvidenceGraph.Proofs.Query.Grammar` — the grammar of queries, over tokens.

Each phrase of the query language is an inductive relation between the tokens it is made of and what it
means. Nothing here looks ahead, recovers or keeps a position; a phrase says only which tokens it takes:

    SELECT s {, s} FROM evidence [WHERE c {AND c}] [ORDER BY o [ASC|DESC]] [LIMIT n] [OFFSET n]

    c  ::=  f op value  |  f IN item  |  f IN ( item {, item} )  |  f CONTAINS item
         |  contradicts ( node_id = item )  |  supports ( node_id = item )

Keywords, `evidence`, `node_id` and the names of relations are bare words in any ASCII case. The positions
differ in the words they refuse: `s` refuses `FROM`, fields and values of conditions refuse `AND`, and `o`
refuses every structural keyword.
-/
import EvidenceGraph.Query.Parse

namespace EvidenceGraph.Query.Grammar

open EvidenceGraph.Text

/-! ## Phrases of one token -/

/-- A name: any bare word that spells none of the keywords `refused`. -/
inductive Name (refused : List Keyword) : Token → String → Prop
  | word {w : String} : (∀ k ∈ refused, k.isSpelled w = false) → Name refused (.word w) w

/-- A string: quoted, or any bare word but `AND` as it stands. -/
inductive Item : Token → String → Prop
  | quoted (s : String) : Item (.quoted s) s
  | word {t : Token} {w : String} : Name [.and] t w → Item t w

/-- What a comparison compares with: a quoted string, which is a text, or any bare word but `AND`, which
is read as the literal that it looks like. -/
inductive Value : Token → Literal → Prop
  | quoted (s : String) : Value (.quoted s) (.text s)
  | word {t : Token} {w : String} : Name [.and] t w → Value t (.ofBare w)

/-- A bare word that reads as an unsigned 64-bit integer. -/
inductive Count : Token → UInt64 → Prop
  | word {w : String} {n : UInt64} : Decimal.readCount w = some n → Count (.word w) n

/-! ## Conditions -/

/-- One or more phrases of one token, with commas between them. -/
inductive Separated {α : Type} (one : Token → α → Prop) : List Token → List α → Prop
  | last {t : Token} {a : α} : one t a → Separated one [t] [a]
  | more {t : Token} {a : α} {ts : List Token} {as : List α} :
      one t a → Separated one ts as → Separated one (t :: .comma :: ts) (a :: as)

/-- One condition. -/
inductive Condition : List Token → Query.Condition → Prop
  | comparison {f t : Token} {field : String} {value : Literal} (c : Comparison) :
      Name [.and] f field → Value t value →
      Condition [f, .comparison c, t] ⟨field, .compare c, value⟩
  | isIn {f k t : Token} {field s : String} :
      Name [.and] f field → k.isKeyword .isIn → Item t s →
      Condition [f, k, t] ⟨field, .isIn, .list [s]⟩
  | isInList {f k : Token} {ts : List Token} {field : String} {items : List String} :
      Name [.and] f field → k.isKeyword .isIn → Separated Item ts items →
      Condition (f :: k :: .leftParen :: (ts ++ [.rightParen])) ⟨field, .isIn, .list items⟩
  | contains {f k t : Token} {field s : String} :
      Name [.and] f field → k.isKeyword .contains → Item t s →
      Condition [f, k, t] ⟨field, .contains, .text s⟩
  | relation {w n s : String} {t : Token} (kind : Relation) :
      sameWord w kind.name → sameWord n nodeIdField → Item t s →
      Condition [.word w, .leftParen, .word n, .comparison .eq, t, .rightParen] (.ofRelation kind s)

/-- One or more conditions, joined by `AND`. -/
inductive Conjunction : List Token → List Query.Condition → Prop
  | last {ts : List Token} {c : Query.Condition} : Condition ts c → Conjunction ts [c]
  | more {ts us : List Token} {a : Token} {c : Query.Condition} {cs : List Query.Condition} :
      Condition ts c → a.isKeyword .and → Conjunction us cs → Conjunction (ts ++ a :: us) (c :: cs)

/-! ## Clauses and queries -/

/-- `[WHERE c {AND c}]` -/
inductive Filter : List Token → List Query.Condition → Prop
  | absent : Filter [] []
  | present {w : Token} {ts : List Token} {cs : List Query.Condition} :
      w.isKeyword .filter → Conjunction ts cs → Filter (w :: ts) cs

/-- `[ORDER BY o [ASC|DESC]]` -/
inductive OrderBy : List Token → Option String → Order → Prop
  | absent : OrderBy [] none .ascending
  | plain {o b f : Token} {field : String} :
      o.isKeyword .order → b.isKeyword .by → Name Keyword.structural f field →
      OrderBy [o, b, f] (some field) .ascending
  | ascending {o b f d : Token} {field : String} :
      o.isKeyword .order → b.isKeyword .by → Name Keyword.structural f field → d.isKeyword .asc →
      OrderBy [o, b, f, d] (some field) .ascending
  | descending {o b f d : Token} {field : String} :
      o.isKeyword .order → b.isKeyword .by → Name Keyword.structural f field → d.isKeyword .desc →
      OrderBy [o, b, f, d] (some field) .descending

/-- `[LIMIT n]` -/
inductive Limit : List Token → Option UInt64 → Prop
  | absent : Limit [] none
  | present {l t : Token} {n : UInt64} : l.isKeyword .limit → Count t n → Limit [l, t] (some n)

/-- `[OFFSET n]` -/
inductive Offset : List Token → UInt64 → Prop
  | absent : Offset [] 0
  | present {o t : Token} {n : UInt64} : o.isKeyword .offset → Count t n → Offset [o, t] n

/-- A whole query. -/
inductive Sentence : List Token → Query → Prop
  | mk {s f : Token} {e : String} {names filter ordering limit offset : List Token} {q : Query} :
      s.isKeyword .select → Separated (Name [.source]) names q.select →
      f.isKeyword .source → sameWord e sourceTable →
      Filter filter q.conditions → OrderBy ordering q.orderBy q.order →
      Limit limit q.limit → Offset offset q.offset →
      Sentence (s :: (names ++ f :: .word e :: (filter ++ ordering ++ limit ++ offset))) q

end EvidenceGraph.Query.Grammar
