/-
# `EvidenceGraph.Settings.Variables` — environment variables.

Variables come from the environment and from a file of definitions, and the first definition of a name
counts. A variable whose name starts with `NEXUS__`, in any case, overrides a setting: in the rest of the
name, two underscores stand for a point.
-/
import EvidenceGraph.Decimal.Numeral
import EvidenceGraph.Json.Basic
import EvidenceGraph.Text.Caseless

namespace EvidenceGraph.Settings

open EvidenceGraph.Text

/-- Names with their values; no name comes twice. -/
abbrev Variables := List (String × String)

namespace Variables

/-- The value of a name. -/
def get? (vars : Variables) (name : String) : Option String := vars.lookup name

/-- Define a name, unless it is defined. -/
def define (vars : Variables) (name value : String) : Variables :=
  match vars.get? name with
  | some _ => vars
  | none => vars ++ [(name, value)]

/-- The variables in a block of `name=value` entries that end in a zero character. -/
def ofBlock (block : String) : Variables :=
  (block.toList.splitOn '\x00').foldl (fun vars entry =>
    match entry.dropWhile (· != '=') with
    | [] => vars
    | _ :: value => vars.define (String.ofList (entry.takeWhile (· != '='))) (String.ofList value)) []

/-- Two underscores as a point. -/
def pointed : List Char → List Char
  | [] => []
  | [c] => [c]
  | c :: d :: cs => if c = '_' ∧ d = '_' then '.' :: pointed cs else c :: pointed (d :: cs)

/-- The setting that a variable of the given name overrides. -/
def settingKey? (name : String) : Option String :=
  let mark := "nexus__".toList
  let folded := foldCase name
  if mark.isPrefixOf folded then some (String.ofList (pointed (folded.drop mark.length))) else none

/-- The value of a variable as a setting: a truth value, an integer, a binary64 value or a text. -/
def settingValue (text : String) : Json :=
  if sameWord text "true" then .bool true
  else if sameWord text "false" then .bool false
  else
    match Decimal.readInt64 text with
    | some i => .int i.toInt
    | none =>
      match (Decimal.readFloat text).or (Decimal.readNamedFloat text) with
      | some x => .float x
      | none => .str text

/-- The settings that variables override. -/
def overrides (vars : Variables) : List (String × Json) :=
  vars.filterMap fun v => (settingKey? v.1).map fun key => (key, settingValue v.2)

end Variables

end EvidenceGraph.Settings
