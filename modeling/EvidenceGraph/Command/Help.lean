/-
# `EvidenceGraph.Command.Help` — what the program says about itself.
-/
import EvidenceGraph.Command.Arguments

namespace EvidenceGraph.Command

namespace Topic

/-- The name of a command; the program itself has none. -/
def name : Topic → String
  | .program => ""
  | .query => "query"
  | .traverse => "traverse"
  | .contradictions => "contradictions"
  | .supporting => "supporting"
  | .help => "help"

/-- What a command does, in one line. -/
def about : Topic → String
  | .program => "Query and traverse an evidence snapshot"
  | .query => "Run a query against the snapshot"
  | .traverse => "Walk causal links from a node"
  | .contradictions => "Nodes contradicting the given node"
  | .supporting => "Nodes supporting the given node"
  | .help => "Print this message or the help of the given subcommand(s)"

/-- The version of the program. -/
def version : Topic → String
  | .program => "nexus 0.3.0"
  | topic => "nexus-" ++ topic.name ++ " 0.3.0"

/-- How a command is called. -/
def usage : Topic → String
  | .program => "Usage: nexus [OPTIONS] <COMMAND>"
  | .query => "Usage: nexus query [OPTIONS] <TEXT>"
  | .traverse => "Usage: nexus traverse [OPTIONS] <ROOT>"
  | .contradictions => "Usage: nexus contradictions [OPTIONS] <NODE_ID>"
  | .supporting => "Usage: nexus supporting [OPTIONS] <NODE_ID>"
  | .help => "Usage: nexus help [COMMAND]..."

/-- An item of a list with its explanation in a column of its own. -/
def item (width : Nat) (term explanation : String) : String :=
  "  " ++ term ++ String.ofList (List.replicate (width + 2 - term.length) ' ') ++ explanation

/-- Items under a heading, with an empty line before. -/
def items (heading : String) (entries : List (String × String)) : List String :=
  let width := (entries.map fun e => e.1.length).foldl max 0
  if entries.isEmpty then []
  else "" :: (heading ++ ":") :: entries.map fun e => item width e.1 e.2

/-- The commands, one a line. -/
def commands : Topic → List (String × String)
  | .program => [query, traverse, contradictions, supporting, help].map fun t => (t.name, t.about)
  | _ => []

/-- The operand of a command. -/
def operands : Topic → List (String × String)
  | .query => [("<TEXT>", "Query text, e.g. \"SELECT * FROM evidence WHERE confidence > 0.8\"")]
  | .traverse => [("<ROOT>", "Root node id")]
  | .contradictions => [("<NODE_ID>", "")]
  | .supporting => [("<NODE_ID>", "")]
  | _ => []

/-- The options that only one command has. -/
def ownOptions : Topic → List (String × String)
  | .query =>
    [("    --strict", "Reject queries with unparseable fragments instead of dropping them"),
     ("    --project", "Print only the selected fields of each node")]
  | .traverse =>
    [("    --depth <DEPTH>", "Maximum depth (defaults to `engine.default_max_depth`)"),
     ("    --direction <DIRECTION>", "downstream, upstream or both")]
  | _ => []

/-- The options of a command. -/
def options (topic : Topic) : List (String × String) :=
  [("    --config <CONFIG>", "Configuration file (defaults to the layered `config/` directory)"),
   ("    --snapshot <SNAPSHOT>", "Evidence snapshot (overrides `snapshot.path`)")]
    ++ topic.ownOptions
    ++ [("-h, --help", "Print help"), ("-V, --version", "Print version")]

/-- The help on a command, line by line. -/
def helpLines (topic : Topic) : List String :=
  [topic.about, "", topic.usage]
    ++ items "Commands" topic.commands
    ++ items "Arguments" topic.operands
    ++ items "Options" topic.options

end Topic

/-- What was asked for, line by line. -/
def Stop.answer : Stop → List String
  | .help topic => topic.helpLines
  | .version topic => [topic.version]
  | .misuse _ => []

/-- What is wrong with a command line, line by line. -/
def Stop.complaint : Stop → List String
  | .misuse problem =>
    ["error: " ++ problem, "", Topic.program.usage, "", "For more information, try '--help'."]
  | _ => []

end EvidenceGraph.Command
