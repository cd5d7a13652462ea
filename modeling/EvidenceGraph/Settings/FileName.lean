/-
# `EvidenceGraph.Settings.FileName` — names of files of settings.

A path is a list of parts with slashes between them. Empty parts and single points do not lead anywhere, so
the last part that does is the name of the file, however many slashes follow it. A file of settings has a
name with something before its ending; an ending alone makes no such name.
-/

namespace EvidenceGraph.Settings.FileName

/-- What stands at the end of the name of a file of settings. -/
def ending : List Char := ".json".toList

/-- Whether a part of a path leads to another place. -/
def leads (part : List Char) : Bool := part != [] && part != ['.']

/-- The parts of a path from the last one that leads somewhere to the first one. -/
def partsFromLast (path : String) : List (List Char) :=
  (path.toList.splitOn '/').reverse.dropWhile fun part => !leads part

/-- Whether a path leads to a file of settings by its name. -/
def isSettings (path : String) : Bool :=
  match partsFromLast path with
  | [] => false
  | name :: _ => ending.isSuffixOf name && ending.length < name.length

/-- The path with the ending behind the name of the file; a path to a parent has no such name. -/
def withEnding? (path : String) : Option String :=
  match partsFromLast path with
  | [] => none
  | name :: before =>
    if name = ['.', '.'] then none
    else some (String.ofList (['/'].intercalate ((name ++ ending) :: before).reverse))

end EvidenceGraph.Settings.FileName
