import ProblemIntake.Language

namespace ProblemIntake

inductive Field where
  | languageVersion
  | problemVersion
  | source
  | license
  | category
  /-- The expected answer of the next solve request. -/
  | status
  deriving DecidableEq, Repr

namespace Field

instance : Spelled Field where
  all := [.languageVersion, .problemVersion, .source, .license, .category, .status]
  spelling
    | .languageVersion => "language version"
    | .problemVersion => "problem version"
    | .source => "problem source"
    | .license => "problem license"
    | .category => "problem category"
    | .status => "problem status"
  mem_all f := by cases f <;> decide
  nodup_spellings := by decide

/-- The attribute that declares the field. -/
def keyword? : Option Language → Field → Option String
  | some .smtlib, .languageVersion => some ":smt-lib-version"
  | some .smtlib, .source => some ":source"
  | some .smtlib, .license => some ":license"
  | some .smtlib, .category => some ":category"
  | some .smtlib, .status => some ":status"
  | _, _ => none

/-- How reports call the field. -/
def name (language : Option Language) (field : Field) : String :=
  (field.keyword? language).getD (spelling field)

/-- The fields a problem must declare. -/
def required : Option Language → List Field
  | some .smtlib => [.languageVersion, .source, .category]
  | _ => []

/-- The fields that have a default value. -/
def wanted : Option Language → List Field
  | some .smtlib => [.license]
  | _ => []

end Field

end ProblemIntake
