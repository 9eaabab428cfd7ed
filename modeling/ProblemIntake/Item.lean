import ProblemIntake.Pool

namespace ProblemIntake

/-- A statement of an input language as its reader hands it over. For annotated formulas the keyword
is the role, and the note tells their source. -/
structure Item (ρ : Type) where
  keyword : String
  args : List ρ
  name : Option ρ := none
  note : Option ρ := none
  loc : Option Span := none
  deriving DecidableEq, Repr

/-- The arguments come first, then the name, then the note. -/
def Item.build (item : Item Written) : StateM Pool (Item Pooled) := do
  let args ← item.args.mapM Pool.build
  let name ← item.name.mapM Pool.build
  let note ← item.note.mapM Pool.build
  return { item with args, name, note }

end ProblemIntake
