import ProblemIntake.Proofs.Canonical.Kept
import ProblemIntake.Proofs.Canonical.Outline

/-!
# No argument is lost

Commands and directives make their statements of what they keep of their arguments, and of nothing
else, and what they keep can be told from the statement. Only the one scope that `push` and `pop`
act on unless told otherwise is not told apart from a numeral.
-/

namespace ProblemIntake

variable {loc : Option Span} {args args' : List Pooled} {ks ks' : List Kept}

namespace Kept

theorem map_term_inj {ts us : List Nat} : ts.map term = us.map term ↔ ts = us :=
  (List.map_injective_iff.mpr fun _ _ => term.inj).eq_iff

/-- What is kept of a datatype: the name it is given, and its constructors. -/
def data (id : Symbol) (constructors : List (Symbol × List Nat)) : List Kept :=
  .symbol id :: constructors.map .constructor

theorem data_inj {id id' : Symbol} {cs cs' : List (Symbol × List Nat)} :
    data id cs = data id' cs' ↔ id = id' ∧ cs = cs' := by
  have constructors : cs.map constructor = cs'.map constructor ↔ cs = cs' :=
    (List.map_injective_iff.mpr fun _ _ => constructor.inj).eq_iff
  rw [data, data, List.cons.injEq, symbol.injEq, constructors]

end Kept

namespace Command

/-- How a command keeps its arguments, if it takes any. -/
def keeping : Command → Keeping
  | .push | .pop => .each .count
  | .setLogic => .each .name
  | .getInfo | .getOption => .each .keyword
  | .declareFun | .declareConst | .declareSort => .each .declaration
  | .defineFun => ⟨.symbol, .term⟩
  | .declareDatatype => ⟨.symbol, .constructor⟩
  | .echo => .each .string
  | _ => .each .term

/-- The action that a command makes of what it keeps. -/
inductive Makes (loc : Option Span) : Command → List Kept → Action Nat → Prop
  | assert (t : Nat) : Makes loc .assert [.term t] (.assume t)
  | checkSat : Makes loc .checkSat [] (.prove [])
  | checkSatAssuming (ts : List Nat) : Makes loc .checkSatAssuming (ts.map .term) (.prove ts)
  | pushOne : Makes loc .push [] (.push 1)
  | push (n : Nat) : Makes loc .push [.count n] (.push n)
  | popOne : Makes loc .pop [] (.pop 1)
  | pop (n : Nat) : Makes loc .pop [.count n] (.pop n)
  | setLogic (logic : String) : Makes loc .setLogic [.text logic] (.setLogic logic)
  | setInfo (t : Nat) : Makes loc .setInfo [.term t] (.setInfo t)
  | getInfo (key : String) : Makes loc .getInfo [.text key] (.getInfo key)
  | setOption (t : Nat) : Makes loc .setOption [.term t] (.setOption t)
  | getOption (key : String) : Makes loc .getOption [.text key] (.getOption key)
  | declareFun (id : Symbol) (type : Nat) :
      Makes loc .declareFun [.declaration id type] (.declare id type)
  | declareConst (id : Symbol) (type : Nat) :
      Makes loc .declareConst [.declaration id type] (.declare id type)
  | declareSort (id : Symbol) (type : Nat) :
      Makes loc .declareSort [.declaration id type] (.declare id type)
  | defineFun (id : Symbol) (body : Nat) :
      Makes loc .defineFun [.symbol id, .term body] (.define id body)
  | declareDatatype (id : Symbol) (cs : List (Symbol × List Nat)) :
      Makes loc .declareDatatype (Kept.data id cs) (.datatype ⟨id, [], cs, loc⟩)
  | getProof : Makes loc .getProof [] .getProof
  | getUnsatCore : Makes loc .getUnsatCore [] .getUnsatCore
  | getValue (ts : List Nat) : Makes loc .getValue (ts.map .term) (.getValue ts)
  | getAssignment : Makes loc .getAssignment [] .getAssignment
  | getAssertions : Makes loc .getAssertions [] .getAssertions
  | getModel : Makes loc .getModel [] .getModel
  | echo (message : String) : Makes loc .echo [.text message] (.echo message)
  | reset : Makes loc .reset [] .reset
  | resetAssertions : Makes loc .resetAssertions [] .resetAssertions
  | exit : Makes loc .exit [] .exit

variable {command : Command}

/-- The commands that act on one scope unless told otherwise. -/
def isScoped : Command → Bool
  | .push | .pop => true
  | _ => false

/-- The same action is made of the same, or of no scope count and a scope count of one. -/
theorem Makes.eq_iff {a b : Action Nat} (made : Makes loc command ks a)
    (made' : Makes loc command ks' b) :
    a = b ↔ ks = ks' ∨ command.isScoped ∧
      (ks = [] ∧ ks' = [.count 1] ∨ ks' = [] ∧ ks = [.count 1]) := by
  cases made <;> cases made'
  -- Only these commands have two rows, and the first is the second one at a count of one.
  case pushOne.push | popOne.pop => simp [isScoped, eq_comm]
  all_goals simp [isScoped, Kept.map_term_inj, Kept.data_inj]

/-- No scope count is given in the first row, and one that is equal to one in the second. -/
def OneScope (args args' : List Pooled) : Prop :=
  args = [] ∧ ∃ t, args' = [t] ∧ t.scopeCount? = some 1

end Command

/-! ## Directives -/

namespace Statement

end Statement

namespace Directive

/-- How a directive keeps its arguments. -/
def keeping : Directive → Keeping
  | .goal | .assert | .rule => .each .term
  | .declare => .each .declaration
  | .define => ⟨.symbol, .term⟩
  | .data => ⟨.symbol, .constructor⟩
  | .includeFile => .each .string

/-- The statement that a directive makes of what it keeps, but for its place. Rules are noted with
the cell `note`. -/
inductive Makes (loc : Option Span) (note : Nat) : Directive → List Kept → Statement Nat → Prop
  | goal (t : Nat) : Makes loc note .goal [.term t] (.goal t)
  | assert (t : Nat) : Makes loc note .assert [.term t] (.ofAction (.assume t))
  | rule (t : Nat) :
      Makes loc note .rule [.term t] ((Statement.ofAction (.assume t)).noted (some note))
  | declare (id : Symbol) (type : Nat) :
      Makes loc note .declare [.declaration id type] (.ofAction (.declare id type))
  | define (id : Symbol) (body : Nat) :
      Makes loc note .define [.symbol id, .term body] (.ofAction (.define id body))
  | data (id : Symbol) (cs : List (Symbol × List Nat)) :
      Makes loc note .data (Kept.data id cs) (.datatype ⟨id, [], cs, loc⟩)
  | includeFile (path : String) :
      Makes loc note .includeFile [.text path] (.ofAction (.includeFile path))

variable {directive : Directive} {pool : Pool}

/-- The same statement is made of the same. -/
theorem Makes.eq_iff {note : Nat} {s s' : Statement Nat} (made : Makes loc note directive ks s)
    (made' : Makes loc note directive ks' s') : s.located loc = s'.located loc ↔ ks = ks' := by
  cases made <;> cases made'
  all_goals simp [Statement.goal, Statement.ofAction, Statement.datatype, Statement.noted,
    Statement.located, Statement.relabel, Kept.data_inj]

end Directive

/-! ## Items -/

namespace Canonical

end Canonical

namespace Item

/-- Items of one keyword whose arguments are told apart by nothing that is kept of them. -/
inductive Alike : Language → Item Pooled → Item Pooled → Prop
  | command {item item' : Item Pooled} {command : Command}
      (keyword : spelling command = item.keyword)
      (alike : command.keeping.Alike item.args item'.args) : Alike .smtlib item item'
  /-- One of the rows is empty, and the other is a scope count of one. -/
  | oneScope {item item' : Item Pooled} {command : Command}
      (keyword : spelling command = item.keyword) (counted : command.isScoped)
      (one : Command.OneScope item.args item'.args ∨ Command.OneScope item'.args item.args) :
      Alike .smtlib item item'
  | directive {item item' : Item Pooled} {directive : Directive}
      (keyword : spelling directive = item.keyword)
      (alike : directive.keeping.Alike item.args item'.args) : Alike .zf item item'

variable {item item' : Item Pooled} {pool : Pool}

end Item

end ProblemIntake
