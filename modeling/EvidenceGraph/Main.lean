/-
# `EvidenceGraph.Main` — the command line.

Everything but reading files, reading the environment and printing is `Command.run`.
-/
import EvidenceGraph.Command.Help
import EvidenceGraph.Command.Session
import EvidenceGraph.Json.Writer

namespace EvidenceGraph.Command

open EvidenceGraph.Settings

/-- The text of a file, or why there is none. -/
def readText (path : String) : IO (Except String String) := do
  match ← (IO.FS.readFile path).toBaseIO with
  | .ok text => return .ok text
  | .error (.noFileOrDirectory _ _ _) => return .error "No such file or directory (os error 2)"
  | .error e => return .error (toString e)

/-- The variables of this process. -/
def readEnvironment : IO Variables := do
  match ← (IO.FS.readBinFile "/proc/self/environ").toBaseIO with
  | .ok bytes => return Variables.ofBlock ((String.fromUTF8? bytes).getD "")
  | .error _ => return []

/-- Print lines to a stream. -/
def printLines (stream : IO.FS.Stream) (lines : List String) : IO Unit :=
  lines.forM fun line => stream.putStrLn line

end EvidenceGraph.Command

open EvidenceGraph EvidenceGraph.Command in
/-- Run the command line and print how it ends. -/
def main (arguments : List String) : IO UInt32 := do
  let output ← IO.getStdout
  let errors ← IO.getStderr
  let start ← IO.monoNanosNow
  let outcome ← Command.run readText (← readEnvironment) arguments
  match outcome with
  | .stopped stop =>
    printLines output stop.answer
    printLines errors stop.complaint
  | .failed failure => printLines errors failure.report
  | .brokenOff => errors.putStrLn "broken off"
  | .answered found metrics =>
    let stop ← IO.monoNanosNow
    output.putStrLn (found.toTimedJson ((stop - start).toFloat / 1000000)).indented
    printLines errors (metrics.map Metric.line)
  return outcome.exitCode
