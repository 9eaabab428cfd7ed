import ProblemIntake.Language

namespace ProblemIntake

/-- An empty list of licenses or versions allows all of them. -/
structure Config where
  language : Option Language := none
  checkHeaders : Bool := false
  allowedLicenses : List String := []
  allowedVersions : List String := []
  /-- The name that locations show. -/
  inputFile : String := "<input>"
  deriving DecidableEq, Repr

end ProblemIntake
