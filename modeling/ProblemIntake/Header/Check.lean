import ProblemIntake.Config
import ProblemIntake.Header.Record
import ProblemIntake.Journal

/-! Headers are followed step by step. A declaration is recorded, even if its value is not allowed;
a solve request takes the recorded status with it. What is still missing at the end is reported
once. -/

namespace ProblemIntake

/-- The event of a diagnostic for the file being read. -/
def Config.diagnosis (config : Config) (severity : Severity) (loc : Option Span) (cause : Cause) :
    Event :=
  .diagnosed ⟨severity, ⟨config.inputFile, loc⟩, cause⟩

/-- The problem with a value outside a list of allowed values that is not empty. -/
def Config.disallowed? (config : Config) (field : Field) (value : String) :
    Option HeaderProblem :=
  let judge (allowed : List String) (problem : HeaderProblem) :=
    if allowed.isEmpty || allowed.contains value then none else some problem
  match field with
  | .license => judge config.allowedLicenses (.licenseNotAllowed value)
  | .languageVersion => judge config.allowedVersions (.versionNotAllowed value)
  | _ => none

namespace Record

/-- Follows an attribute; `loc` is the place of the step that sets it. -/
def follow (config : Config) (loc : Option Span) (r : Record) : Reading → Record × List Event
  | .other => (r, [])
  | .malformed place fault =>
    (r, [config.diagnosis .error place (.header (.malformed fault))])
  | .declares field value =>
    let refusal := (config.disallowed? field value).toList.map fun problem =>
      config.diagnosis .error loc (.header problem)
    (r.set field value, refusal ++ [.declared field value])

/-- Takes the status for a solve request at `loc`. -/
def consume (config : Config) (loc : Option Span) (r : Record) : Record × List Event :=
  match r.get? .status with
  | some status => (r.erase .status, [.consumed status])
  | none =>
    let problem := HeaderProblem.missingStatus (Field.status.name config.language)
    (r, [config.diagnosis .error loc (.header problem)])

/-- The record after a step, and what there is to tell about it. -/
def check (config : Config) (r : Record) (step : Step Pooled) : Record × List Event :=
  match step.action with
  | .setInfo info => r.follow config step.label.loc (.ofTerm config.language info)
  | .prove _ => r.consume config step.label.loc
  | _ => (r, [])

/-- The names of the fields without a value. -/
def missing (config : Config) (r : Record) (fields : List Field) : List String :=
  (fields.filter (!r.contains ·)).map (Field.name config.language)

/-- What there is to tell in the end: a warning for the fields that have a default, an error for
those that have none. -/
def review (config : Config) (r : Record) : List Event :=
  let wanted := match r.missing config (Field.wanted config.language) with
    | [] => []
    | names => [config.diagnosis .warning none (.header (.missingWanted names))]
  let required := match r.missing config (Field.required config.language) with
    | [] => []
    | names => [config.diagnosis .error none (.header (.missingRequired names))]
  wanted ++ required

end Record

end ProblemIntake
