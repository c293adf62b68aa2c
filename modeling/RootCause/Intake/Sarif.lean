import RootCause.Intake.Compiler
import RootCause.Json.Decode

/-!
# SARIF logs

The part of a SARIF 2.1.0 log that a problem is made of: the tool of each run, and rule, level,
message and first location of each result. Runs of other tools and results without a location are
passed over.
-/

namespace RootCause.Intake

/-- A place in a SARIF log. -/
structure SarifPlace where
  uri : String
  startLine : Nat
  startColumn : Nat
  endLine : Option Nat
  endColumn : Option Nat
  deriving DecidableEq

/-- A result in a SARIF log. -/
structure SarifResult where
  rule : Option String
  level : String
  message : String
  places : List SarifPlace
  deriving DecidableEq

/-- A run in a SARIF log. -/
structure SarifRun where
  toolName : String
  results : List SarifResult
  deriving DecidableEq

/-- Reads the only field of a record. -/
def onlyField {α : Type} (name : String) (read : Json.Reader α) : Json.Reader α := fun v => do
  match ← Json.fields? [name] v with
  | [field] => Json.required read field
  | _ => none

/-- Reads lines and columns of a place; a start that is not given is 1. -/
def readRegion (v : Json) : Option (Nat × Nat × Option Nat × Option Nat) := do
  match ← Json.fields? ["startLine", "startColumn", "endLine", "endColumn"] v with
  | [startLine, startColumn, endLine, endColumn] =>
    let startLine ← Json.withDefault 1 Json.Reader.nat startLine
    let startColumn ← Json.withDefault 1 Json.Reader.nat startColumn
    let endLine ← Json.optionalField Json.Reader.nat endLine
    let endColumn ← Json.optionalField Json.Reader.nat endColumn
    return (startLine, startColumn, endLine, endColumn)
  | _ => none

/-- Reads a physical location. -/
def readPhysical (v : Json) : Option SarifPlace := do
  match ← Json.fields? ["artifactLocation", "region"] v with
  | [artifact, region] =>
    let uri ← Json.required (onlyField "uri" Json.Reader.string) artifact
    let (startLine, startColumn, endLine, endColumn) ←
      Json.withDefault (1, 1, none, none) readRegion region
    return ⟨uri, startLine, startColumn, endLine, endColumn⟩
  | _ => none

/-- Reads a location. -/
def SarifPlace.ofJson? : Json.Reader SarifPlace := onlyField "physicalLocation" readPhysical

/-- Reads a result; a level that is not given is a warning. -/
def SarifResult.ofJson? (v : Json) : Option SarifResult := do
  match ← Json.fields? ["ruleId", "level", "message", "locations"] v with
  | [rule, level, message, places] =>
    let rule ← Json.optionalField Json.Reader.string rule
    let level ← Json.withDefault "warning" Json.Reader.string level
    let message ← Json.required (onlyField "text" Json.Reader.string) message
    let places ← Json.withDefault [] (Json.Reader.list SarifPlace.ofJson?) places
    return ⟨rule, level, message, places⟩
  | _ => none

/-- Reads a run. -/
def SarifRun.ofJson? (v : Json) : Option SarifRun := do
  match ← Json.fields? ["tool", "results"] v with
  | [tool, results] =>
    let toolName ← Json.required (onlyField "driver" (onlyField "name" Json.Reader.string)) tool
    let results ← Json.withDefault [] (Json.Reader.list SarifResult.ofJson?) results
    return ⟨toolName, results⟩
  | _ => none

/-- Reads the runs of a log. The version has to be a string, but it may be any. -/
def sarifRuns? (v : Json) : Option (List SarifRun) := do
  match ← Json.fields? ["version", "runs"] v with
  | [version, runs] =>
    let _ ← Json.withDefault "" Json.Reader.string version
    Json.withDefault [] (Json.Reader.list SarifRun.ofJson?) runs
  | _ => none

/-- The path that a URI names. -/
def uriPath (uri : String) : Path :=
  ⟨((Text.stripStart? "file://".toList uri.toList).map String.ofList).getD uri⟩

/-- The problem that a result of a tool reports, if it says where. -/
def SarifResult.diagnostic? (tool : Tool) (r : SarifResult) : Option Diagnostic :=
  r.places.head?.map fun p =>
    { tool := tool
      rule := r.rule
      message := r.message
      severity := .ofSarifLevel r.level
      location := ⟨uriPath p.uri, oneBased p.startLine, oneBased p.startColumn, p.endLine,
        p.endColumn⟩ }

/-- The problems that a run reports. -/
def SarifRun.diagnostics (r : SarifRun) : List Diagnostic :=
  match Tool.ofOwnName? r.toolName with
  | some tool => r.results.filterMap (SarifResult.diagnostic? tool)
  | none => []

/-- The problems in a SARIF log. -/
def ofSarif? (v : Json) : Option (List Diagnostic) :=
  (sarifRuns? v).map fun runs => runs.flatMap SarifRun.diagnostics

end RootCause.Intake
