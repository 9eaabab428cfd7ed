import ProblemIntake.SExpr
import ProblemIntake.Term.Basic

namespace ProblemIntake

/-- The expression of a node from those of its subterms. -/
def Shape.skeleton : Shape SExpr → SExpr
  | .builtin b => .atom (spelling b)
  | .symbol s => .atom s.token
  | .app head args => .list (head :: args)
  | .op c args => .list (.atom (spelling c) :: args)
  | .typed term type => .list [.atom ":", term, type]
  | .binder b vars body => .list [.atom (spelling b), .list vars, body]

namespace Term

variable {ℓ : Type}

def skeleton : Term ℓ → SExpr :=
  fold fun _ shape => shape.skeleton

@[simp] theorem skeleton_mk (label : ℓ) (s : Shape (Term ℓ)) :
    (mk label s).skeleton = (s.map skeleton).skeleton :=
  fold_mk _ label s

def text (t : Term ℓ) : String := t.skeleton.text

end Term

end ProblemIntake
