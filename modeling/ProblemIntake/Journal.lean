import ProblemIntake.Diagnostic

/-! Everything worth telling about a run, in the order it happened. The diagnostics are one part of
it; the log lines are the view of the whole. -/

namespace ProblemIntake

inductive Event where
  | started (file : String) (language : Language)
  | diagnosed (d : Diagnostic)
  | declared (field : Field) (value : String)
  /-- A solve request took the status that was declared for it. -/
  | consumed (status : String)
  | finished (file : String) (statements errors warnings : Nat)
  deriving DecidableEq, Repr

inductive LogLevel where
  | debug
  | info
  | warn
  | error
  deriving DecidableEq, Repr

namespace Event

def diagnostic? : Event → Option Diagnostic
  | .diagnosed d => some d
  | _ => none

/-- The level a diagnostic is logged at stands for its severity. -/
def level : Event → LogLevel
  | .started .. | .declared .. | .consumed .. => .debug
  | .finished .. => .info
  | .diagnosed d =>
    match d.severity with
    | .warning => .warn
    | .error => .error

def text : Event → String
  | .started file language => "normalizing '" ++ file ++ "' as " ++ spelling language
  | .diagnosed d => d.placedText
  | .declared field value => "header " ++ spelling field ++ " set to '" ++ value ++ "'"
  | .consumed status => "solve request consumes status '" ++ status ++ "'"
  | .finished file statements errors warnings =>
    "'" ++ file ++ "': " ++ statements.repr ++ " statements, " ++ errors.repr ++ " errors, " ++
      warnings.repr ++ " warnings"

end Event

/-- The diagnostics among the events, in order. -/
def diagnosticsOf (events : List Event) : List Diagnostic :=
  events.filterMap Event.diagnostic?

end ProblemIntake
