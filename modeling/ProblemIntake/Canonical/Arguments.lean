import ProblemIntake.Statement.Action
import ProblemIntake.Term.Basic

namespace ProblemIntake

namespace Scope

/-- Scope counts fit in a machine word. -/
def limit : Nat := UInt64.size

/-- A text without the plus sign it may have in front. -/
def unsigned (text : List Char) : List Char :=
  match text with
  | '+' :: rest => rest
  | _ => text

/-- A numeral below the limit: one plus sign at most, and one or more digits. -/
def count? (numeral : List Char) : Option Nat :=
  let digits := unsigned numeral
  if digits ≠ [] ∧ digits.all Char.isDigit ∧ Nat.ofDigitChars 10 digits 0 < limit then
    some (Nat.ofDigitChars 10 digits 0)
  else none

end Scope

namespace Term

variable {ℓ : Type}

def scopeCount? (t : Term ℓ) : Option Nat :=
  (t.literal? .integer).bind fun numeral => Scope.count? numeral.toList

/-- The keyword of an attribute without values. -/
def bareKeyword? (t : Term ℓ) : Option String :=
  match t.attribute? with
  | some (keyword, []) => some keyword
  | _ => none

/-- A constructor is a symbol alone, or applied to the types of its arguments. -/
def constructor? (t : Term ℓ) : Option (Symbol × List (Term ℓ)) :=
  match t.shape with
  | .symbol s => some (s, [])
  | .app head fields => head.symbol?.map (·, fields)
  | _ => none

end Term

/-- A datatype without parameters: its name, then its constructors. One bad constructor refuses
the whole. -/
def Datatype.ofArguments? {ℓ : Type} (loc : Option Span) :
    List (Term ℓ) → Option (Datatype (Term ℓ))
  | [] => none
  | name :: constructors => do
    let name ← name.symbol?
    let constructors ← constructors.mapM Term.constructor?
    return { name, params := [], constructors, loc }

end ProblemIntake
