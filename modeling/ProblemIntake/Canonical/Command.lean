import ProblemIntake.Canonical.Arguments
import ProblemIntake.Canonical.Basic

namespace ProblemIntake

inductive Command where
  | assert
  | checkSat
  | checkSatAssuming
  | push
  | pop
  | setLogic
  | setInfo
  | getInfo
  | setOption
  | getOption
  | declareFun
  | declareConst
  | declareSort
  | defineFun
  | declareDatatype
  | getProof
  | getUnsatCore
  | getValue
  | getAssignment
  | getAssertions
  | getModel
  | echo
  | reset
  | resetAssertions
  | exit
  deriving DecidableEq, Repr

namespace Command

instance : Spelled Command where
  all := [.assert, .checkSat, .checkSatAssuming, .push, .pop, .setLogic, .setInfo, .getInfo,
    .setOption, .getOption, .declareFun, .declareConst, .declareSort, .defineFun,
    .declareDatatype, .getProof, .getUnsatCore, .getValue, .getAssignment, .getAssertions,
    .getModel, .echo, .reset, .resetAssertions, .exit]
  spelling
    | .assert => "assert"
    | .checkSat => "check-sat"
    | .checkSatAssuming => "check-sat-assuming"
    | .push => "push"
    | .pop => "pop"
    | .setLogic => "set-logic"
    | .setInfo => "set-info"
    | .getInfo => "get-info"
    | .setOption => "set-option"
    | .getOption => "get-option"
    | .declareFun => "declare-fun"
    | .declareConst => "declare-const"
    | .declareSort => "declare-sort"
    | .defineFun => "define-fun"
    | .declareDatatype => "declare-datatype"
    | .getProof => "get-proof"
    | .getUnsatCore => "get-unsat-core"
    | .getValue => "get-value"
    | .getAssignment => "get-assignment"
    | .getAssertions => "get-assertions"
    | .getModel => "get-model"
    | .echo => "echo"
    | .reset => "reset"
    | .resetAssertions => "reset-assertions"
    | .exit => "exit"
  mem_all c := by cases c <;> decide
  nodup_spellings := by decide

variable {ℓ : Type}

/-- The action of a command, if it takes these arguments. One scope is opened or dropped unless
a count is given. -/
def action? (loc : Option Span) : Command → List (Term ℓ) → Option (Action (Term ℓ))
  | .assert, [t] => some (.assume t)
  | .checkSat, [] => some (.prove [])
  | .checkSatAssuming, assumptions => some (.prove assumptions)
  | .push, [] => some (.push 1)
  | .push, [n] => n.scopeCount?.map .push
  | .pop, [] => some (.pop 1)
  | .pop, [n] => n.scopeCount?.map .pop
  | .setLogic, [logic] => logic.symbol?.map fun s => .setLogic s.name
  | .setInfo, [info] => if info.attribute?.isSome then some (.setInfo info) else none
  | .getInfo, [key] => key.bareKeyword?.map .getInfo
  | .setOption, [option] => if option.attribute?.isSome then some (.setOption option) else none
  | .getOption, [key] => key.bareKeyword?.map .getOption
  | .declareFun, [t] | .declareConst, [t] | .declareSort, [t] =>
    t.declaration?.map fun (id, type) => .declare id type
  | .defineFun, [f, body] => f.symbol?.map (.define · body)
  | .declareDatatype, args => (Datatype.ofArguments? loc args).map .datatype
  | .getProof, [] => some .getProof
  | .getUnsatCore, [] => some .getUnsatCore
  | .getValue, t :: ts => some (.getValue (t :: ts))
  | .getAssignment, [] => some .getAssignment
  | .getAssertions, [] => some .getAssertions
  | .getModel, [] => some .getModel
  | .echo, [message] => (message.literal? .string).map .echo
  | .reset, [] => some .reset
  | .resetAssertions, [] => some .resetAssertions
  | .exit, [] => some .exit
  | _, _ => none

end Command

/-- An SMT-LIB command. -/
def Canonical.ofCommand (item : Item Pooled) : StateM Pool Canonical :=
  ofKeyword item fun command : Command =>
    return (command.action? item.loc item.args).map Statement.ofAction

end ProblemIntake
