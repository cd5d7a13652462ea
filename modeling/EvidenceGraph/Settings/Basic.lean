/-
# `EvidenceGraph.Settings.Basic` — the settings of the program.

Settings come in three sections, and every single one has a default. As JSON they are written with all
fields in a fixed order; reading them takes the defaults for what is left out.
-/
import EvidenceGraph.Json.Document
import EvidenceGraph.Violation

namespace EvidenceGraph

namespace Settings

/-- Defaults of queries and walks. -/
structure Engine where
  /-- The depth of a walk that does not name one. -/
  defaultMaxDepth : UInt64 := 5
  /-- The direction of a walk that does not name one. -/
  defaultDirection : String := "downstream"
  /-- Whether queries are read strictly. -/
  strictParsing : Bool := false

/-- Where the evidence comes from. -/
structure Snapshot where
  path : Option String := none

/-- Logs and metrics. -/
structure Observability where
  logLevel : String := "info"
  jsonLogging : Bool := false
  serviceName : String := "evidence-nexus"
  metricsEnabled : Bool := false

end Settings

/-- The settings of the program. -/
structure Settings where
  engine : Settings.Engine := {}
  snapshot : Settings.Snapshot := {}
  observability : Settings.Observability := {}

namespace Settings

open EvidenceGraph.Json

/-- Settings as JSON. -/
def toJson (s : Settings) : Json :=
  .obj
    [("engine", .obj
      [("default_max_depth", .int s.engine.defaultMaxDepth.toNat),
       ("default_direction", .str s.engine.defaultDirection),
       ("strict_parsing", .bool s.engine.strictParsing)]),
     ("snapshot", .obj [("path", (s.snapshot.path.map Json.str).getD .null)]),
     ("observability", .obj
      [("log_level", .str s.observability.logLevel),
       ("json_logging", .bool s.observability.jsonLogging),
       ("service_name", .str s.observability.serviceName),
       ("metrics_enabled", .bool s.observability.metricsEnabled)])]

/-- How sections and the single settings in them are read. -/
structure Reading (δ : Type) where
  /-- The fields of a section, by their names. -/
  fields? : List String → δ → Option (Fields δ)
  count? : δ → Option UInt64
  string? : δ → Option String
  bool? : δ → Option Bool

variable {δ : Type} [Document δ]

/-- Read the engine section. -/
def Engine.decode? (reading : Reading δ) (d : δ) : Option Engine := do
  let fields ← reading.fields? ["default_max_depth", "default_direction", "strict_parsing"] d
  let defaultMaxDepth ← fields.withDefault "default_max_depth" reading.count? 5
  let defaultDirection ← fields.withDefault "default_direction" reading.string? "downstream"
  let strictParsing ← fields.withDefault "strict_parsing" reading.bool? false
  return { defaultMaxDepth, defaultDirection, strictParsing }

/-- Read the snapshot section. -/
def Snapshot.decode? (reading : Reading δ) (d : δ) : Option Snapshot := do
  let fields ← reading.fields? ["path"] d
  let path ← fields.optional "path" reading.string?
  return { path }

/-- Read the observability section. -/
def Observability.decode? (reading : Reading δ) (d : δ) : Option Observability := do
  let fields ← reading.fields? ["log_level", "json_logging", "service_name", "metrics_enabled"] d
  let logLevel ← fields.withDefault "log_level" reading.string? "info"
  let jsonLogging ← fields.withDefault "json_logging" reading.bool? false
  let serviceName ← fields.withDefault "service_name" reading.string? "evidence-nexus"
  let metricsEnabled ← fields.withDefault "metrics_enabled" reading.bool? false
  return { logLevel, jsonLogging, serviceName, metricsEnabled }

/-- Read settings. -/
def decode? (reading : Reading δ) (d : δ) : Option Settings := do
  let fields ← reading.fields? ["engine", "snapshot", "observability"] d
  let engine ← fields.withDefault "engine" (Engine.decode? reading) {}
  let snapshot ← fields.withDefault "snapshot" (Snapshot.decode? reading) {}
  let observability ← fields.withDefault "observability" (Observability.decode? reading) {}
  return { engine, snapshot, observability }

/-- Settings of exactly the expected kinds. -/
def exactly : Reading δ := ⟨Json.fields?, Json.count?, Json.string?, Json.bool?⟩

/-- The greatest default depth. -/
def greatestDefaultDepth : UInt64 := 64

/-- The settings that are out of range, and why. -/
def violations (s : Settings) : List (String × Violation) :=
  if s.engine.defaultMaxDepth ≤ greatestDefaultDepth then []
  else [("engine.default_max_depth", .range)]

end Settings

end EvidenceGraph
