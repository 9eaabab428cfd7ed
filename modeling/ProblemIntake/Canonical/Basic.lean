import ProblemIntake.Item
import ProblemIntake.Statement.Pooled

namespace ProblemIntake

/-- Why an item was refused. -/
inductive Warning where
  | unknownRole (role : String)
  | badTypeDeclaration (formula : String)
  | unknownCommand (keyword : String)
  | wrongArguments (keyword : String)
  deriving DecidableEq, Repr

def Warning.text : Warning → String
  | .unknownRole role => "unknown formula role: `" ++ role ++ "`"
  | .badTypeDeclaration formula => "unexpected type declaration shape: `" ++ formula ++ "`"
  | .unknownCommand keyword => "unknown command: `" ++ keyword ++ "`"
  | .wrongArguments keyword => "wrong arguments for `" ++ keyword ++ "`"

/-- The statement an item stands for, and the warning if it was refused. -/
structure Canonical where
  statement : Statement Pooled
  warning : Option Warning

namespace Canonical

/-- Whatever the answer, it stands where the item stands. -/
def settle (loc : Option Span) : Except Warning (Statement Pooled) → Canonical
  | .ok s => ⟨s.located loc, none⟩
  | .error w => ⟨Statement.empty.located loc, some w⟩

/-- Reads a keyword, then the arguments it was given: an unknown keyword is an unknown command,
and a known one refuses arguments of the wrong number or shape. -/
def ofKeyword {κ : Type} [Spelled κ] (item : Item Pooled)
    (statement? : κ → StateM Pool (Option (Statement Pooled))) : StateM Pool Canonical :=
  match Spelled.read? item.keyword with
  | none => return settle item.loc (.error (.unknownCommand item.keyword))
  | some keyword => do
    match ← statement? keyword with
    | some s => return settle item.loc (.ok s)
    | none => return settle item.loc (.error (.wrongArguments item.keyword))

end Canonical

end ProblemIntake
