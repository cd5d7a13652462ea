/-
# `EvidenceGraph.Command.Session` — running commands.

A run reads its command line, then its settings, checks the log filter, finds and loads the snapshot, takes
the defaults of walks from the settings, and answers the command. The first of these steps that fails
decides how the run ends. Some of the first steps can also break off, which ends a run without any wording.
-/
import EvidenceGraph.Causal.Defaults
import EvidenceGraph.Command.Arguments
import EvidenceGraph.Command.Metrics
import EvidenceGraph.Settings.Definitions
import EvidenceGraph.Settings.Load
import EvidenceGraph.Settings.LogFilter
import EvidenceGraph.Snapshot
import EvidenceGraph.Store.Projection

namespace EvidenceGraph

namespace Command

/-- Why a run fails. -/
inductive Failure where
  | settings (cause : Error)
  | noSnapshot
  | snapshot (path : String) (cause : Error)
  | other (cause : Error)
deriving DecidableEq, Repr

/-- The wording of a failure. -/
def Failure.message : Failure → String
  | .settings _ => "failed to load configuration"
  | .noSnapshot => "no snapshot given; pass --snapshot <path> or set snapshot.path"
  | .snapshot path _ => "failed to load snapshot " ++ path
  | .other cause => cause.message

/-- What is behind a failure, if its wording does not say so. -/
def Failure.cause? : Failure → Option Error
  | .settings cause => some cause
  | .snapshot _ cause => some cause
  | _ => none

/-- A failure with what is behind it, line by line. -/
def Failure.report (failure : Failure) : List String :=
  ("Error: " ++ failure.message) ::
    match failure.cause? with
    | none => []
    | some cause => ["", "Caused by:", "    " ++ cause.message]

/-- What a command answers. -/
inductive Output where
  | answer (found : Answer)
  /-- An answer of which only the selected fields are shown. -/
  | rows (found : Answer)
  | graph (found : Causal.Graph)
  | nodes (found : List Node)

/-- An answer as JSON. -/
def Output.toJson : Output → Json
  | .answer found => found.toJson
  | .rows found => found.projectedJson
  | .graph found => found.toJson
  | .nodes found => .arr (found.map Node.toJson)

/-- An answer as JSON, for a query with the time that it took in milliseconds. -/
def Output.toTimedJson (output : Output) (millis : Float) : Json :=
  match output, output.toJson with
  | .answer _, .obj members => .obj (members ++ [("execution_time_ms", .float millis)])
  | .rows _, .obj members => .obj (Json.insertMember "execution_time_ms" (.float millis) members)
  | _, json => json

/-- What commands work on. -/
structure Session where
  settings : Settings
  store : Store
  defaults : Causal.Defaults

/-- The answer to a command and what was counted. -/
structure Result where
  output : Output
  metrics : List Metric

namespace Session

/-- The result of a query. -/
def ofAnswer (toOutput : Answer → Output) (a : Answer) : Result := ⟨toOutput a, Metric.ofAnswer a⟩

/-- Answer a command. -/
def run (s : Session) : Command → Except Error Result
  | .query text strict project =>
    let result := ofAnswer (if project then .rows else .answer)
    if strict || s.settings.engine.strictParsing then
      match s.store.askStrict text with
      | .ok found => .ok (result found)
      | .error d => .error d.error
    else
      .ok (result (s.store.ask text))
  | .traverse root depth direction =>
    let direction := direction.getD s.defaults.direction
    let found := s.store.walk root ((depth.map UInt64.toNat).getD s.defaults.maxDepth) direction
    .ok ⟨.graph found, Metric.ofGraph direction found⟩
  | .contradictions id => .ok (ofAnswer (fun a => .nodes a.nodes) (s.store.findRelated .contradicts id))
  | .supporting id => .ok (ofAnswer (fun a => .nodes a.nodes) (s.store.findRelated .supports id))

end Session

open Settings

/-- The variable whose log filter is taken before the one of the settings. -/
def logFilterVariable : String := "RUST_LOG"

/-- How a run ends. -/
inductive Outcome where
  | stopped (stop : Stop)
  | failed (failure : Failure)
  | brokenOff
  | answered (output : Output) (metrics : List Metric)

/-- The exit code of a run. -/
def Outcome.exitCode : Outcome → UInt32
  | .stopped (.misuse _) => 2
  | .stopped _ => 0
  | .failed _ => 1
  | .brokenOff => 101
  | .answered _ _ => 0

/-- How a run without settings ends. -/
def Outcome.ofSettingsRefusal : Settings.Refusal → Outcome
  | .invalid cause => .failed (.settings cause)
  | .brokenOff => .brokenOff

/-- How a run ends whose settings hold a log filter that is not taken. -/
def Outcome.ofFilterRefusal (filter : String) : LogFilter.Refusal → Outcome
  | .fault fault => .failed (.other (.validation ("invalid log level `" ++ filter ++ "`: " ++ fault.message)))
  | .brokenOff => .brokenOff

/-- Check the log filter: the one in the variable if it is usable, or else the one in the settings. -/
def checkLogFilter (vars : Variables) (settings : Settings) : Except Outcome Unit :=
  match (vars.get? logFilterVariable).map LogFilter.check with
  | some (.ok ()) => .ok ()
  | some (.error .brokenOff) => .error .brokenOff
  | _ =>
    let filter := settings.observability.logLevel
    (LogFilter.check filter).mapError (Outcome.ofFilterRefusal filter)

/-- Find and load what a request works on, or tell how the run ends without it. -/
def Session.prepare {m : Type → Type} [Monad m] (read : ReadFile m) (vars : Variables) (request : Request) :
    m (Except Outcome Session) := do
  match ← Settings.load read vars request.settings with
  | .error refusal => return .error (.ofSettingsRefusal refusal)
  | .ok settings =>
    match checkLogFilter vars settings, request.snapshot.or settings.snapshot.path with
    | .error outcome, _ => return .error outcome
    | .ok _, none => return .error (.failed .noSnapshot)
    | .ok _, some path =>
      match (Snapshot.ofFile path (← read path)).bind Snapshot.toStore with
      | .error e => return .error (.failed (.snapshot path e))
      | .ok store =>
        match Causal.Defaults.ofSettings settings.engine with
        | .error e => return .error (.failed (.other e))
        | .ok defaults => return .ok { settings, store, defaults }

/-- The file of definitions of variables. -/
def definitionsFile : String := ".env"

/-- Run a command line under variables. Metrics are reported if the settings ask for them. -/
def runUnder {m : Type → Type} [Monad m] (read : ReadFile m) (vars : Variables)
    (arguments : List String) : m Outcome := do
  match Request.ofArguments arguments with
  | .error stop => return .stopped stop
  | .ok request =>
    match ← Session.prepare read vars request with
    | .error outcome => return outcome
    | .ok session =>
      match session.run request.command with
      | .error e => return .failed (.other e)
      | .ok result =>
        return .answered result.output
          (if session.settings.observability.metricsEnabled then result.metrics else [])

/-- Run a command line under the variables of the environment and of the file of definitions. -/
def run {m : Type → Type} [Monad m] (read : ReadFile m) (environment : Variables)
    (arguments : List String) : m Outcome := do
  match ← read definitionsFile with
  | .error _ => runUnder read environment arguments
  | .ok text =>
    match environment.defineText? text with
    | none => return .brokenOff
    | some vars => runUnder read vars arguments

end Command

end EvidenceGraph
