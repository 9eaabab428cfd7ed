import ProblemIntake.Canonical.Arguments
import ProblemIntake.Canonical.Basic

namespace ProblemIntake

inductive Directive where
  | goal
  | assert
  /-- An equation to be used from left to right. -/
  | rule
  | declare
  | define
  | data
  | includeFile
  deriving DecidableEq, Repr

namespace Directive

instance : Spelled Directive where
  all := [.goal, .assert, .rule, .declare, .define, .data, .includeFile]
  spelling
    | .goal => "goal"
    | .assert => "assert"
    | .rule => "rewrite"
    | .declare => "decl"
    | .define => "def"
    | .data => "data"
    | .includeFile => "include"
  mem_all d := by cases d <;> decide
  nodup_spellings := by decide

/-- The statement of a directive, if it takes these arguments. A rule is assumed, and noted to be
one. -/
def statement? (loc : Option Span) (directive : Directive) (args : List Pooled) :
    StateM Pool (Option (Statement Pooled)) :=
  match directive, args with
  | .goal, [t] => return some (.goal t)
  | .assert, [t] => return some (.ofAction (.assume t))
  | .rule, [t] => do
    let keyword ← Pool.intern (.symbol (.attr (spelling Directive.rule))) none
    return some ((Statement.ofAction (.assume t)).noted (some keyword))
  | .declare, [t] => return t.declaration?.map fun (id, type) => .ofAction (.declare id type)
  | .define, [f, body] => return f.symbol?.map fun id => .ofAction (.define id body)
  | .data, args => return (Datatype.ofArguments? loc args).map .datatype
  | .includeFile, [path] =>
    match path.literal? .string with
    | some path => some <$> Statement.includeFile path []
    | none => return none
  | _, _ => return none

end Directive

/-- A Zf directive. -/
def Canonical.ofDirective (item : Item Pooled) : StateM Pool Canonical :=
  ofKeyword item fun directive : Directive => directive.statement? item.loc item.args

end ProblemIntake
