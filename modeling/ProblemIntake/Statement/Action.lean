import ProblemIntake.Span
import ProblemIntake.Symbol

namespace ProblemIntake

/-- An inductive type: its parameters, and each constructor with the types of its arguments. -/
structure Datatype (ρ : Type) where
  name : Symbol
  params : List ρ
  constructors : List (Symbol × List ρ)
  loc : Option Span
  deriving DecidableEq, Repr

/-- What a single step asks for, whatever language it was written in. -/
inductive Action (ρ : Type) where
  /-- Opens assertion scopes. -/
  | push (count : Nat)
  /-- Drops the innermost scopes with all they assume. -/
  | pop (count : Nat)
  /-- Asks for a solution under assumptions of its own. -/
  | prove (assumptions : List ρ)
  /-- States what is to be proved. -/
  | goal (term : ρ)
  /-- Takes a term for granted. -/
  | assume (term : ρ)
  | includeFile (path : String)
  | setLogic (logic : String)
  | getInfo (key : String)
  | setInfo (info : ρ)
  | getOption (key : String)
  | setOption (option : ρ)
  | define (id : Symbol) (body : ρ)
  | declare (id : Symbol) (type : ρ)
  | datatype (d : Datatype ρ)
  | getProof
  | getUnsatCore
  | getValue (terms : List ρ)
  | getAssignment
  | getAssertions
  | getModel
  | echo (message : String)
  | reset
  | resetAssertions
  | exit
  deriving DecidableEq, Repr

variable {ρ τ : Type}

def Datatype.map (f : ρ → τ) (d : Datatype ρ) : Datatype τ where
  name := d.name
  params := d.params.map f
  constructors := d.constructors.map fun (name, fields) => (name, fields.map f)
  loc := d.loc

def Action.map (f : ρ → τ) : Action ρ → Action τ
  | .push count => .push count
  | .pop count => .pop count
  | .prove assumptions => .prove (assumptions.map f)
  | .goal term => .goal (f term)
  | .assume term => .assume (f term)
  | .includeFile path => .includeFile path
  | .setLogic logic => .setLogic logic
  | .getInfo key => .getInfo key
  | .setInfo info => .setInfo (f info)
  | .getOption key => .getOption key
  | .setOption option => .setOption (f option)
  | .define id body => .define id (f body)
  | .declare id type => .declare id (f type)
  | .datatype d => .datatype (d.map f)
  | .getProof => .getProof
  | .getUnsatCore => .getUnsatCore
  | .getValue terms => .getValue (terms.map f)
  | .getAssignment => .getAssignment
  | .getAssertions => .getAssertions
  | .getModel => .getModel
  | .echo message => .echo message
  | .reset => .reset
  | .resetAssertions => .resetAssertions
  | .exit => .exit

def Action.isProve : Action ρ → Bool
  | .prove _ => true
  | _ => false

end ProblemIntake
