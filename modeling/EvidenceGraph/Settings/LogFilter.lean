/-
# `EvidenceGraph.Settings.LogFilter` — which log filters are well formed.

A log filter is a list of directives with commas between them; empty ones do not count. A directive is a
level or a target, which may be any text that starts like a name, or a target or a span in brackets with
`=` and a level behind it. A span may ask for a field in braces.

Places in a directive are found without the blanks around it, but what lies between two places is cut out
of the directive with its blanks. So with blanks in front a field or a level is another text than the one
that stands there, and a cut may fall inside of a character.
-/
import EvidenceGraph.Decimal.Numeral
import EvidenceGraph.Pattern.Reader
import EvidenceGraph.Text.Alphanumeric
import EvidenceGraph.Text.Blank
import EvidenceGraph.Text.Bytes
import EvidenceGraph.Text.Caseless

namespace EvidenceGraph.Settings.LogFilter

open EvidenceGraph.Text

/-- Why a text is no log filter. -/
inductive Fault where
  | level
  | directive
deriving DecidableEq, Repr

/-- The wording of a fault. -/
def Fault.message : Fault → String
  | .level =>
    "error parsing level filter: expected one of \"off\", \"error\", \"warn\", \"info\", \"debug\", "
      ++ "\"trace\", or a number 0-5"
  | .directive => "invalid filter directive"

/-- Why a log filter is not taken. -/
inductive Refusal where
  | fault (fault : Fault)
  /-- A cut falls inside of a character, and nothing more is checked. -/
  | brokenOff
deriving DecidableEq, Repr

/-! ## Levels and fields -/

/-- The names of the levels. -/
def levelNames : List String := ["off", "error", "warn", "info", "debug", "trace"]

/-- Whether a text is a level: a name in any case, a number up to five, or nothing. -/
def isLevel (text : List Char) : Bool :=
  text.isEmpty
    || levelNames.any (fun name => sameWord name (String.ofList text))
    || ((Decimal.readCount (String.ofList text)).map fun n => decide (n ≤ 5)).getD false

/-- Whether a text is the value that a field has to have: a number or a pattern. -/
def isFieldValue (text : List Char) : Bool :=
  ((Decimal.readFloat (String.ofList text)).or (Decimal.readNamedFloat (String.ofList text))).isSome
    || Pattern.isUsable text

/-- Whether a text asks for a field: a name, and maybe `=` and a value. -/
def isField (text : List Char) : Bool :=
  !text.isEmpty
    && match text.dropWhile (· != '=') with
      | [] => true
      | _ :: value => isFieldValue (value.takeWhile (· != '='))

/-! ## Directives

In what follows, `whole` is a directive with its blanks, and `place` the number of bytes from the start of
the directive without them to the text that is still to be checked. -/

/-- What lies between two places. -/
def cut (whole : List Char) (start stop : Nat) : Except Refusal (List Char) :=
  match between? start stop whole with
  | some text => .ok text
  | none => .error .brokenOff

/-- Refuse a text unless it is right. -/
def require (right : Bool) (fault : Fault) : Except Refusal Unit :=
  if right then .ok () else .error (.fault fault)

/-- Check the level from a place on; it goes to the end of the directive with its blanks. -/
def checkLevel (whole : List Char) (place : Nat) : Except Refusal Unit := do
  require (isLevel (← cut whole place (width whole))) .level

/-- Check what follows the bracket that ends a span. -/
def checkBehindSpan (whole : List Char) (place : Nat) : List Char → Except Refusal Unit
  | [] => .ok ()
  | c :: _ => if c = '=' then checkLevel whole (place + 1) else .error (.fault .directive)

/-- Check what follows the brace that starts a field. -/
def checkField (whole : List Char) (place : Nat) (text : List Char) : Except Refusal Unit :=
  let stop := place + width (text.takeWhile (· != '\x7d'))
  match text.dropWhile (· != '\x7d') with
  | [] => .error (.fault .directive)
  | _ :: rest => do
    require (isField (← cut whole place stop)) .directive
    match rest with
    | ']' :: rest => checkBehindSpan whole (stop + 2) rest
    | _ => .error (.fault .directive)

/-- Whether a character ends the name of a span. -/
def endsSpan (c : Char) : Bool := c = ']' || c = '\x7b'

/-- Check what follows the bracket that starts a span. -/
def checkSpan (whole : List Char) (place : Nat) (text : List Char) : Except Refusal Unit :=
  let stop := place + width (text.takeWhile (!endsSpan ·))
  match text.dropWhile (!endsSpan ·) with
  | [] => .error (.fault .directive)
  | c :: rest => do
    let _name ← cut whole place stop
    if c = ']' then checkBehindSpan whole (stop + 1) rest else checkField whole (stop + 1) rest

/-- Whether a directive without brackets may start with a character. -/
def startsDirective (c : Char) : Bool := ['-', ':', '_'].contains c || isAlphanumeric c

/-- Whether a character ends a target. -/
def endsTarget (c : Char) : Bool := c = '=' || c = '['

/-- Check a directive that starts with a target or a level. -/
def checkTarget (whole text : List Char) : Except Refusal Unit :=
  let stop := width (text.takeWhile (!endsTarget ·))
  match text.dropWhile (!endsTarget ·) with
  | [] => .ok ()
  | c :: rest => do
    let _target ← cut whole 0 stop
    if c = '=' then checkLevel whole (stop + 1) else checkSpan whole (stop + 1) rest

/-- Check a directive. -/
def checkDirective (whole : List Char) : Except Refusal Unit :=
  match trim whole with
  | [] => .error (.fault .directive)
  | '[' :: span => checkSpan whole 1 span
  | c :: cs => if startsDirective c then checkTarget whole (c :: cs) else .error (.fault .directive)

/-- Check a log filter; the first refusal counts. -/
def check (text : String) : Except Refusal Unit :=
  ((text.toList.splitOn ',').filter (!·.isEmpty)).forM checkDirective

end EvidenceGraph.Settings.LogFilter
