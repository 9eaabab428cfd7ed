import ProblemIntake.Canonical.Basic

namespace ProblemIntake

inductive Line where
  | clause
  /-- Announces the sizes of the problem. -/
  | sizes
  /-- The literals assumed by one solve request. -/
  | assumptions
  deriving DecidableEq, Repr

instance : Spelled Line where
  all := [.clause, .sizes, .assumptions]
  spelling
    | .clause => "clause"
    | .sizes => "p"
    | .assumptions => "a"
  mem_all l := by cases l <;> decide
  nodup_spellings := by decide

/-- A line of plain or incremental CNF. Assumption lines are unknown to plain CNF. -/
def Canonical.ofLine (incremental : Bool) (item : Item Pooled) : StateM Pool Canonical :=
  match (Spelled.read? item.keyword : Option Line), incremental with
  | some .clause, _ => do return settle item.loc (.ok (← Statement.clause item.args))
  | some .sizes, _ => return settle item.loc (.ok .empty)
  | some .assumptions, true => return settle item.loc (.ok (.ofAction (.prove item.args)))
  | some .assumptions, false | none, _ =>
    return settle item.loc (.error (.unknownCommand item.keyword))

end ProblemIntake
