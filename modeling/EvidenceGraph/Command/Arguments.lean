/-
# `EvidenceGraph.Command.Arguments` — reading command lines.

A command line has options, the name of a command, its options and its operand. Words are read from left
to right, and the first one that asks for help or for the version, or that is wrong, decides. Options for
the places of settings and evidence may stand before and behind the name of the command, and the later
place wins; no option may be given twice in one place.
-/
import EvidenceGraph.Command.Basic
import EvidenceGraph.Decimal.Numeral

namespace EvidenceGraph

namespace Command

/-- What help or the version is asked for: the whole program, one of its commands, or `help` itself. -/
inductive Topic where
  | program
  | query
  | traverse
  | contradictions
  | supporting
  | help
deriving DecidableEq, Repr

/-- The commands by name. -/
def Topic.ofName? : String → Option Topic
  | "query" => some .query
  | "traverse" => some .traverse
  | "contradictions" => some .contradictions
  | "supporting" => some .supporting
  | "help" => some .help
  | _ => none

/-- Why a command line is read no further. -/
inductive Stop where
  | help (topic : Topic)
  | version (topic : Topic)
  | misuse (problem : String)
deriving DecidableEq, Repr

/-- A word of a command line. -/
inductive Word where
  /-- Two hyphens: whatever follows is an operand. -/
  | separator
  /-- An option by its long name, with the value behind `=` if there is one. -/
  | long (name : String) (value : Option String)
  /-- Options by their letters. -/
  | letters (first : Char)
  | plain
deriving DecidableEq, Repr

/-- Tell a word by its hyphens; a single one is an ordinary word. -/
def Word.ofText (text : String) : Word :=
  match text.toList with
  | ['-', '-'] => .separator
  | '-' :: '-' :: cs =>
    let name := String.ofList (cs.takeWhile (· != '='))
    match cs.dropWhile (· != '=') with
    | [] => .long name none
    | _ :: value => .long name (some (String.ofList value))
  | '-' :: c :: _ => .letters c
  | _ => .plain

/-- What was read of one part of a command line. -/
structure Given where
  settings : Option String := none
  snapshot : Option String := none
  strict : Bool := false
  project : Bool := false
  depth : Option UInt64 := none
  direction : Option Causal.Direction := none
  operand : Option String := none

/-- Set something that is not set yet. -/
def once {α β : Type} (old : Option α) (new : Option α) (set : α → β) (name : String) : Except Stop β :=
  match old, new with
  | none, some a => .ok (set a)
  | some _, _ => .error (.misuse ("given twice: " ++ name))
  | none, none => .error (.misuse ("invalid value: " ++ name))

/-- An option without a value. -/
def Given.setFlag? (given : Given) (topic : Topic) (name : String) : Option (Except Stop Given) :=
  let flag (old : Bool) (new : Given) : Except Stop Given :=
    if old then .error (.misuse ("given twice: " ++ name)) else .ok new
  match topic, name with
  | .query, "strict" => some (flag given.strict { given with strict := true })
  | .query, "project" => some (flag given.project { given with project := true })
  | _, _ => none

/-- An option with a value. -/
def Given.setOption? (given : Given) (topic : Topic) (name : String) :
    Option (String → Except Stop Given) :=
  match topic, name with
  | _, "config" => some fun v => once given.settings (some v) (fun s => { given with settings := some s }) name
  | _, "snapshot" => some fun v => once given.snapshot (some v) (fun s => { given with snapshot := some s }) name
  | .traverse, "depth" =>
    some fun v => once given.depth (Decimal.readCount v) (fun d => { given with depth := some d }) name
  | .traverse, "direction" =>
    some fun v =>
      once given.direction (Causal.Direction.ofName v).toOption (fun d => { given with direction := some d })
        name
  | _, _ => none

/-- The operand of a command. -/
def Given.setOperand (given : Given) (text : String) : Except Stop Given :=
  once given.operand (some text) (fun o => { given with operand := some o }) "operand"

/-- Read words that are all operands. -/
def readOperands (topic : Topic) (given : Given) : List String → Except Stop Given
  | [] => .ok given
  | text :: more =>
    if topic = .program then .error (.misuse ("unexpected: " ++ text))
    else (given.setOperand text).bind fun given => readOperands topic given more

/-- The help that the words behind `help` ask for. -/
def readHelp : List String → Stop
  | [] => .help .program
  | [name] =>
    match Topic.ofName? name with
    | some topic => .help topic
    | none => .misuse ("no such command: " ++ name)
  | _ :: extra :: _ => .misuse ("no such command: " ++ extra)

/-- Read one part of a command line: up to the name of a command, or to the end. -/
def readPart (topic : Topic) (given : Given) : List String → Except Stop (Given × Option (Topic × List String))
  | [] => .ok (given, none)
  | text :: more =>
    match Word.ofText text with
    | .separator => (readOperands topic given more).map fun given => (given, none)
    | .letters 'h' => .error (.help topic)
    | .letters 'V' => .error (.version topic)
    | .letters _ => .error (.misuse ("unexpected: " ++ text))
    | .plain =>
      if topic = .program then
        match Topic.ofName? text with
        | some .help => .error (readHelp more)
        | some command => .ok (given, some (command, more))
        | none => .error (.misuse ("no such command: " ++ text))
      else
        (given.setOperand text).bind fun given => readPart topic given more
    | .long "help" none => .error (.help topic)
    | .long "version" none => .error (.version topic)
    | .long name value =>
      match given.setFlag? topic name, given.setOption? topic name, value with
      | some flagged, _, none => flagged.bind fun given => readPart topic given more
      | none, some set, some v => (set v).bind fun given => readPart topic given more
      | none, some set, none =>
        -- the value is the next word, unless that is an option itself
        match more with
        | [] => .error (.misuse ("value expected: " ++ text))
        | v :: rest =>
          if Word.ofText v = .plain then (set v).bind fun given => readPart topic given rest
          else .error (.misuse ("value expected: " ++ text))
      | _, _, _ => .error (.misuse ("unexpected: " ++ text))

/-- The command that one part of a command line describes. -/
def Given.command (given : Given) : Topic → String → Except Stop Command
  | .query, text => .ok (.query text given.strict given.project)
  | .traverse, root => .ok (.traverse root given.depth given.direction)
  | .contradictions, id => .ok (.contradictions id)
  | .supporting, id => .ok (.supporting id)
  | _, _ => .error (.misuse "command expected")

end Command

open Command

/-- Read a command line. -/
def Request.ofArguments (arguments : List String) : Except Stop Request := do
  match ← readPart .program {} arguments with
  | (_, none) => .error (.misuse "command expected")
  | (before, some (topic, more)) =>
    let (given, _) ← readPart topic {} more
    match given.operand with
    | none => .error (.misuse "operand expected")
    | some operand =>
      return {
        settings := given.settings.or before.settings
        snapshot := given.snapshot.or before.snapshot
        command := ← given.command topic operand }

end EvidenceGraph
