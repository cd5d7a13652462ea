/-
# `EvidenceGraph.Settings.Load` — the settings of a run.

Settings come from a file that the caller names or else from three files that may be missing, and
variables win over all files. What is found is laid over one another, read loosely and checked. Files are
read through a function that gives their text or the reason why there is none. A value for an item that no
array can have breaks the reading off.
-/
import EvidenceGraph.Error
import EvidenceGraph.Json.Tree
import EvidenceGraph.Settings.FileName
import EvidenceGraph.Settings.Loose
import EvidenceGraph.Settings.Overlay
import EvidenceGraph.Settings.Variables

namespace EvidenceGraph.Settings

/-- Why there are no settings. -/
inductive Refusal where
  | invalid (cause : Error)
  /-- A value has no place, and nothing more is read. -/
  | brokenOff
deriving DecidableEq, Repr

/-- Refuse settings that are not well formed. -/
def invalid {α : Type} (problem : String) : Except Refusal α := .error (.invalid (.configuration problem))

/-- How the text of a file is read. -/
abbrev ReadFile (m : Type → Type) := String → m (Except String String)

/-- The three files of settings, in the order in which they are laid over one another. The second one is
named by the variable `NEXUS_ENV`. -/
def standardFiles (vars : Variables) : List String :=
  ["config/default", "config/" ++ (vars.get? "NEXUS_ENV").getD "development", "config/local"]

/-- A file of settings. -/
inductive File where
  | missing
  /-- It is there but not by a name of such a file. -/
  | foreign
  | text (content : String)
deriving DecidableEq, Repr

/-- Look for a file of settings by its full name or without the ending of it. -/
def findFile {m : Type → Type} [Monad m] (read : ReadFile m) (name : String) : m File := do
  match ← read name with
  -- a file of exactly this name comes first, and its name tells what it is
  | .ok content => return if FileName.isSettings name then .text content else .foreign
  | .error _ =>
    match FileName.withEnding? name with
    | none => return .missing
    | some full =>
      match ← read full with
      | .ok content => return .text content
      | .error _ => return .missing

/-- Lay settings over those of earlier places. -/
def layEntries (below : Json) (entries : List (String × Json)) : Except Refusal Json :=
  match layOver? below entries with
  | some found => .ok found
  | none => .error .brokenOff

/-- Lay the settings in a text over those of earlier places. -/
def layText (below : Json) (content : String) : Except Refusal Json :=
  match Json.ofText? content with
  | some (.obj members) => layEntries below members
  | _ => invalid "not an object"

/-- Lay a file that may be missing over the settings of earlier places. -/
def layFile (below : Json) : File → Except Refusal Json
  | .text content => layText below content
  | _ => .ok below

/-- Lay a file that has to be there over the settings of earlier places. -/
def layRequired (below : Json) : File → Except Refusal Json
  | .text content => layText below content
  | .missing => invalid "no such file"
  | .foreign => invalid "not a file of settings"

/-- Read what all places together say, and check it. -/
def finish (found : Json) : Except Refusal Settings :=
  match decode? byMeaning found with
  | none => invalid "a setting of the wrong kind"
  | some settings =>
    match settings.violations with
    | [] => .ok settings
    | violations => invalid (Violation.describe violations)

/-- What the files of a run say. -/
def readFiles {m : Type → Type} [Monad m] (read : ReadFile m) (vars : Variables) :
    Option String → m (Except Refusal Json)
  | some name => do return layRequired (.obj []) (← findFile read name)
  | none => do
    let files ← (standardFiles vars).mapM (findFile read)
    return files.foldlM layFile (.obj [])

/-- The settings of a run; `file` is the file that the caller names. -/
def load {m : Type → Type} [Monad m] (read : ReadFile m) (vars : Variables) (file : Option String) :
    m (Except Refusal Settings) := do
  let found ← readFiles read vars file
  return (found.bind fun below => layEntries below vars.overrides).bind finish

end EvidenceGraph.Settings
