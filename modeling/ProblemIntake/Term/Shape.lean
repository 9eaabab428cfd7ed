import ProblemIntake.Symbol

namespace ProblemIntake

/-- One layer of a term: its immediate subterms are references of any type. -/
inductive Shape (ρ : Type) where
  | builtin (b : Builtin)
  | symbol (s : Symbol)
  /-- A function, or an attribute keyword, applied to terms. -/
  | app (head : ρ) (args : List ρ)
  | op (connective : Connective) (args : List ρ)
  /-- A term with its type. -/
  | typed (term type : ρ)
  | binder (binder : Binder) (vars : List ρ) (body : ρ)
  deriving DecidableEq, Hashable, Repr

namespace Shape

variable {ρ τ υ : Type}

def map (f : ρ → τ) : Shape ρ → Shape τ
  | .builtin b => .builtin b
  | .symbol s => .symbol s
  | .app head args => .app (f head) (args.map f)
  | .op c args => .op c (args.map f)
  | .typed term type => .typed (f term) (f type)
  | .binder b vars body => .binder b (vars.map f) (f body)

/-- The references, from left to right. -/
def children : Shape ρ → List ρ
  | .builtin _ | .symbol _ => []
  | .app head args => head :: args
  | .op _ args => args
  | .typed term type => [term, type]
  | .binder _ vars body => vars ++ [body]

/-- The effects of the references happen from left to right. -/
def traverse {m : Type → Type} [Monad m] (f : ρ → m τ) : Shape ρ → m (Shape τ)
  | .builtin b => pure (.builtin b)
  | .symbol s => pure (.symbol s)
  | .app head args => return .app (← f head) (← args.mapM f)
  | .op c args => return .op c (← args.mapM f)
  | .typed term type => return .typed (← f term) (← f type)
  | .binder b vars body => return .binder b (← vars.mapM f) (← f body)

@[simp] theorem children_map (f : ρ → τ) (s : Shape ρ) :
    (s.map f).children = s.children.map f := by
  cases s <;> simp [map, children]

theorem map_congr {f g : ρ → τ} {s : Shape ρ} (same : ∀ r ∈ s.children, f r = g r) :
    s.map f = s.map g := by
  cases s <;> simp_all [map, children]

@[simp] theorem map_map (f : ρ → τ) (g : τ → υ) (s : Shape ρ) :
    (s.map f).map g = s.map (g ∘ f) := by
  cases s <;> simp [map]

@[simp] theorem map_id (s : Shape ρ) : s.map id = s := by
  cases s <;> simp [map]

end Shape

end ProblemIntake
