import ProblemIntake.Diagnostic

namespace ProblemIntake

/-- Why there is no result. -/
inductive Failure where
  | noLanguage
  | unknownExtension (path : String)
  | rejected (diagnostics : List Diagnostic)
  deriving DecidableEq, Repr

def Failure.text : Failure → String
  | .noLanguage => "no input language was configured"
  | .unknownExtension path => "could not detect the language of '" ++ path ++ "'"
  | .rejected diagnostics =>
    "input rejected with " ++ (diagnostics.countP Diagnostic.isError).repr ++ " error(s)"

/-- The language announced by a file's name. -/
def Language.detect (path : String) : Except Failure Language :=
  match ofPath? path with
  | some language => .ok language
  | none => .error (.unknownExtension path)

end ProblemIntake
