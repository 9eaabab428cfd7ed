import ProblemIntake.Canonical.Basic
import ProblemIntake.Header.Problem

namespace ProblemIntake

inductive Severity where
  | warning
  | error
  deriving DecidableEq, Repr

instance : Spelled Severity where
  all := [.warning, .error]
  spelling
    | .warning => "warning"
    | .error => "error"
  mem_all s := by cases s <;> decide
  nodup_spellings := by decide

/-- What a diagnostic is about: an item refused, a problem with the headers, or a remark from
outside. -/
inductive Cause where
  | item (warning : Warning)
  | header (problem : HeaderProblem)
  | remark (text : String)
  deriving DecidableEq, Repr

def Cause.text : Cause → String
  | .item warning => warning.text
  | .header problem => problem.text
  | .remark text => text

structure Diagnostic where
  severity : Severity
  location : Location
  cause : Cause
  deriving DecidableEq, Repr

namespace Diagnostic

def isError (d : Diagnostic) : Bool := d.severity == .error

/-- The place and what is to be said of it. -/
def placedText (d : Diagnostic) : String :=
  d.location.text ++ ": " ++ d.cause.text

def text (d : Diagnostic) : String :=
  spelling d.severity ++ ": " ++ d.placedText

end Diagnostic

end ProblemIntake
