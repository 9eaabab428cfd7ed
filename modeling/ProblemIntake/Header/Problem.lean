import ProblemIntake.Header.Reading

namespace ProblemIntake

/-- What can be wrong with the headers of a problem. Fields are called by their names in the
problem's language. -/
inductive HeaderProblem where
  | malformed (fault : Fault)
  | licenseNotAllowed (value : String)
  | versionNotAllowed (value : String)
  /-- A solve request without a status of its own. -/
  | missingStatus (name : String)
  | missingWanted (names : List String)
  | missingRequired (names : List String)
  deriving DecidableEq, Repr

namespace HeaderProblem

def text : HeaderProblem → String
  | .malformed fault => fault.text
  | .licenseNotAllowed value => "'" ++ value ++ "' is not an allowed license"
  | .versionNotAllowed value => "'" ++ value ++ "' is not an allowed language version"
  | .missingStatus name => "missing " ++ name ++ " header before this solve request"
  | .missingWanted names =>
    "the following header fields are missing, default values will be assumed: " ++
      ", ".intercalate names
  | .missingRequired names =>
    "the following header fields are missing: " ++ ", ".intercalate names

end HeaderProblem

end ProblemIntake
