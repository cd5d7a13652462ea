/-
# `EvidenceGraph.Settings.Definitions` — the text of a file of definitions.

A definition is a name, `=` and a value, with the word `export` before it or not. A value ends where its
line ends, unless a quote is open there, and after a blank there is room for a comment only. Single quotes
keep everything between them as it is; elsewhere `$` stands for the value of a variable and a backslash
keeps the character behind it from meaning anything but itself. The first malformed definition ends the
reading, and those before it count. No variable takes a value with a zero character, which would end it.
-/
import EvidenceGraph.Settings.Variables
import EvidenceGraph.Text.Alphanumeric
import EvidenceGraph.Text.Blank

namespace EvidenceGraph.Settings

open EvidenceGraph.Text

/-! ## Entries: lines that belong together -/

/-- What a character of a text stands in, as far as it matters for where an entry ends. -/
inductive Scan where
  | plain
  /-- Behind a blank, where a comment may start. -/
  | gap
  | escape
  | single
  | singleEscape
  | double
  | doubleEscape
deriving DecidableEq, Repr

namespace Scan

/-- The state behind a character outside of quotes that is no blank. -/
def outside (c : Char) : Scan :=
  if c = '\\' then .escape
  else if c = '"' then .double
  else if c = '\'' then .single
  else .plain

/-- The state behind a character, or nothing if a comment starts with it. Of two blanks in a row, the
second one counts as a plain character. -/
def next? : Scan → Char → Option Scan
  | .plain, c => some (if isBlank c && c != '\n' && c != '\r' then .gap else outside c)
  | .gap, c => if c = '#' then none else some (outside c)
  | .escape, _ => some .plain
  | .single, c => some (if c = '\\' then .singleEscape else if c = '\'' then .plain else .single)
  | .singleEscape, _ => some .single
  | .double, c => some (if c = '\\' then .doubleEscape else if c = '"' then .plain else .double)
  | .doubleEscape, _ => some .double

/-- A line up to a comment, and the state behind it unless there is a comment. -/
def line (scan : Scan) : List Char → List Char × Option Scan
  | [] => ([], some scan)
  | c :: cs =>
    match scan.next? c with
    | none => ([], none)
    | some scan =>
      let (kept, last) := scan.line cs
      (c :: kept, last)

end Scan

/-- The lines of a text, each with the line break at its end. -/
def linesWithBreaks (text : List Char) : List (List Char) :=
  let pieces := text.splitOn '\n'
  pieces.dropLast.map (· ++ ['\n']) ++ pieces.getLast?.toList.filter (!·.isEmpty)

/-- A line without the line break at its end. -/
def dropBreak (line : List Char) : List Char :=
  match line.reverse with
  | '\n' :: '\r' :: cs => cs.reverse
  | '\n' :: cs => cs.reverse
  | _ => line

/-- The entries in lines, behind an entry that is open at a state. An entry that never ends is `none`. -/
def entries (started : List Char) (scan : Scan) : List (List Char) → List (Option (List Char))
  | [] => if scan = .plain then [] else [none]
  | line :: more =>
    if ((started ++ line).dropWhile isBlank).head? = some '#' then
      some [] :: entries [] .plain more
    else
      match scan.line line with
      | (kept, none) => some (started ++ kept) :: entries [] .plain more
      | (kept, some .plain) => some (dropBreak (started ++ kept)) :: entries [] .plain more
      | (kept, some scan) => entries (started ++ kept) scan more

/-! ## Values -/

/-- What a character of a value stands in; `quoted` tells whether double quotes are open around it. -/
inductive Place where
  | text (quoted : Bool)
  /-- Between single quotes. -/
  | literal
  /-- Behind a backslash. -/
  | escape (quoted : Bool)
  /-- In the name of a variable behind `$`. -/
  | name (quoted : Bool) (read : List Char)
  /-- In the name of a variable between braces. -/
  | braced (quoted : Bool) (read : List Char)
  /-- Behind a blank that ends the value. -/
  | done
deriving DecidableEq, Repr

/-- The characters that a backslash keeps as they are. -/
def escapable : List Char := ['\\', '\'', '"', '$', ' ']

/-- Spaces and tabs, which end a value. -/
def endsValue (c : Char) : Bool := c = ' ' || c = '\t'

/-- The text of a value from a place on; `find` gives the values of variables. -/
def valueText? (find : List Char → List Char) : Place → List Char → Option (List Char)
  | .text quoted, [] => if quoted then none else some []
  | .escape quoted, [] => if quoted then none else some []
  | .name quoted read, [] => if quoted then none else some (find read)
  | .done, [] => some []
  | .literal, [] => none
  | .braced _ _, [] => none
  | .text quoted, c :: cs =>
    if c = '$' then valueText? find (.name quoted []) cs
    else if c = '"' then valueText? find (.text !quoted) cs
    else if c = '\\' then valueText? find (.escape quoted) cs
    else if c = '\'' ∧ !quoted then valueText? find .literal cs
    else if endsValue c ∧ !quoted then valueText? find .done cs
    else (valueText? find (.text quoted) cs).map (c :: ·)
  | .literal, c :: cs =>
    if c = '\'' then valueText? find (.text false) cs
    else (valueText? find .literal cs).map (c :: ·)
  | .escape quoted, c :: cs =>
    if escapable.contains c then (valueText? find (.text quoted) cs).map (c :: ·)
    else if c = 'n' then (valueText? find (.text quoted) cs).map ('\n' :: ·)
    else none
  | .name quoted read, c :: cs =>
    if isAlphanumeric c then valueText? find (.name quoted (read ++ [c])) cs
    else if c = '\x7b' ∧ read = [] then valueText? find (.braced quoted []) cs
    else if c = '$' then (valueText? find (.name quoted []) cs).map (find read ++ ·)
    -- the character that ends the name stands for itself, a quote too
    else (valueText? find (.text quoted) cs).map (find read ++ c :: ·)
  | .braced quoted read, c :: cs =>
    if c = '\x7d' then (valueText? find (.text quoted) cs).map (find read ++ ·)
    else valueText? find (.braced quoted (read ++ [c])) cs
  | .done, c :: cs =>
    if endsValue c then valueText? find .done cs
    else if c = '#' then some []
    else none

/-! ## Definitions -/

namespace Variables

/-- The value that a reference to a variable stands for: what comes behind the name and `=` where the first
such variable is written as `name=value`, or nothing. A name that holds `=` itself reaches into a value. -/
def referredTo (vars : Variables) (name : List Char) : List Char :=
  let start := name ++ ['=']
  match (vars.map fun v => v.1.toList ++ '=' :: v.2.toList).find? start.isPrefixOf with
  | some written => written.drop start.length
  | none => []

/-- What an entry of a file of definitions says. -/
inductive Entry where
  /-- Nothing, or a comment after `#`. -/
  | empty
  | definition (name value : String)
  | malformed
deriving DecidableEq, Repr

namespace Entry

/-- Whether nothing or only a comment stands here. -/
def isVoid (cs : List Char) : Bool := cs.isEmpty || cs.head? = some '#'

/-- The characters of the name of a variable behind the first one. -/
def isNameChar (c : Char) : Bool := c.isAlphanum || c = '_' || c = '.'

/-- A name, and what follows it. -/
def takeName? (cs : List Char) : Option (List Char × List Char) :=
  if cs.head?.any fun c => c.isAlpha || c = '_' then
    some (cs.takeWhile isNameChar, cs.dropWhile isNameChar)
  else
    none

/-- What follows `=`, without the blanks around the sign. -/
def behindEquals? (cs : List Char) : Option (List Char) :=
  match cs.dropWhile isBlank with
  | '=' :: cs => some (cs.dropWhile isBlank)
  | _ => none

/-- The word that may stand before a definition; it is a name itself if `=` follows. -/
def exportWord : List Char := "export".toList

/-- The name and the written value of a definition. -/
def parts? (cs : List Char) : Option (List Char × List Char) := do
  let (name, rest) ← takeName? cs
  match behindEquals? rest with
  | some value => return (name, value)
  | none =>
    if name = exportWord then
      let (name, rest) ← takeName? (rest.dropWhile isBlank)
      return (name, ← behindEquals? rest)
    else
      none

/-- Read an entry; values may refer to variables that are defined already. -/
def ofText (vars : Variables) (text : List Char) : Entry :=
  let cs := trim text
  if isVoid cs then
    .empty
  else
    match parts? cs with
    | none => .malformed
    | some (name, written) =>
      match if isVoid written then some [] else valueText? vars.referredTo (.text false) written with
      | none => .malformed
      | some value => .definition (String.ofList name) (String.ofList value)

end Entry

/-- Define a name, unless it is defined. It cannot be defined with a value that holds a zero character. -/
def define? (vars : Variables) (name value : String) : Option Variables :=
  if vars.get? name = none ∧ value.toList.contains '\x00' then none else some (vars.define name value)

/-- Define what entries say, up to the first malformed one. -/
def defineEntries? (vars : Variables) : List (Option (List Char)) → Option Variables
  | [] => some vars
  | none :: _ => some vars
  | some text :: more =>
    match Entry.ofText vars text with
    | .empty => vars.defineEntries? more
    | .definition name value => (vars.define? name value).bind fun vars => vars.defineEntries? more
    | .malformed => some vars

/-- Define what the text of a file says; a byte order mark at its start is passed over. -/
def defineText? (vars : Variables) (text : String) : Option Variables :=
  let cs := text.toList
  let cs := if cs.head? = some '\uFEFF' then cs.tail else cs
  vars.defineEntries? (entries [] .plain (linesWithBreaks cs))

end Variables

end EvidenceGraph.Settings
