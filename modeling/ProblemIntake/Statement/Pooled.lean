import ProblemIntake.Pool
import ProblemIntake.Statement.Basic

namespace ProblemIntake.Statement

/-- A reference to a file. Restrictions, if there are any, are noted as one conjunction. -/
def includeFile (path : String) : List Pooled → StateM Pool (Statement Pooled)
  | [] => return ofAction (.includeFile path)
  | restrictions => do
    let all ← Pool.intern (.op .and restrictions) none
    return (ofAction (.includeFile path)).noted (some all)

/-- Assumes the disjunction of the literals. -/
def clause (literals : List Pooled) : StateM Pool (Statement Pooled) := do
  let disjunction ← Pool.intern (.op .or literals) none
  return ofAction (.assume disjunction)

/-- The statement over the numbers of its cells. Two statements are the same, reference for
reference, if these are equal. -/
def cells (s : Statement Pooled) : Statement Nat := s.map Term.number

end ProblemIntake.Statement
