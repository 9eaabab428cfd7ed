import ProblemIntake.Span
import ProblemIntake.Term.Shape

namespace ProblemIntake

/-- A tree of shapes with a label at every node: its span as written, or its cell in a pool. -/
inductive Term (ℓ : Type) where
  | mk (label : ℓ) (shape : Shape (Term ℓ))

/-- A term as read, each node with its place if known. -/
abbrev Written := Term (Option Span)

namespace Term

variable {ℓ μ β : Type}

def label : Term ℓ → ℓ
  | .mk label _ => label

def shape : Term ℓ → Shape (Term ℓ)
  | .mk _ shape => shape

@[simp, grind =] theorem label_mk (label : ℓ) (shape : Shape (Term ℓ)) :
    (mk label shape).label = label := rfl

@[simp, grind =] theorem shape_mk (label : ℓ) (shape : Shape (Term ℓ)) :
    (mk label shape).shape = shape := rfl

mutual

/-- The value of a term, computed from the leaves up. -/
def fold (step : ℓ → Shape β → β) : Term ℓ → β
  | .mk label shape => step label (foldShape step shape)

/-- The values of the subterms, in their places. -/
def foldShape (step : ℓ → Shape β → β) : Shape (Term ℓ) → Shape β
  | .builtin b => .builtin b
  | .symbol s => .symbol s
  | .app head args => .app (head.fold step) (foldList step args)
  | .op c args => .op c (foldList step args)
  | .typed term type => .typed (term.fold step) (type.fold step)
  | .binder b vars body => .binder b (foldList step vars) (body.fold step)

/-- The values of terms in a row. -/
def foldList (step : ℓ → Shape β → β) : List (Term ℓ) → List β
  | [] => []
  | t :: ts => t.fold step :: foldList step ts

end

theorem foldList_eq_map (step : ℓ → Shape β → β) (ts : List (Term ℓ)) :
    foldList step ts = ts.map (fold step) := by
  induction ts with
  | nil => rfl
  | cons t ts ih => rw [foldList, ih, List.map_cons]

theorem foldShape_eq_map (step : ℓ → Shape β → β) (s : Shape (Term ℓ)) :
    foldShape step s = s.map (fold step) := by
  cases s <;> simp [foldShape, Shape.map, foldList_eq_map]

@[simp] theorem fold_mk (step : ℓ → Shape β → β) (label : ℓ) (s : Shape (Term ℓ)) :
    (mk label s).fold step = step label (s.map (fold step)) := by
  rw [fold, foldShape_eq_map]

theorem sizeOf_lt_of_mem_children {label : ℓ} {s : Shape (Term ℓ)} {t : Term ℓ}
    (child : t ∈ s.children) : sizeOf t < sizeOf (mk label s) := by
  cases s with
  | builtin | symbol => cases child
  | app head args =>
    rcases List.mem_cons.mp child with rfl | mem
    · simp; omega
    · have := List.sizeOf_lt_of_mem mem; simp; omega
  | op c args =>
    have : sizeOf t < sizeOf args := List.sizeOf_lt_of_mem child
    simp; omega
  | typed term type =>
    simp [Shape.children] at child
    rcases child with rfl | rfl <;> simp <;> omega
  | binder b vars body =>
    rcases List.mem_append.mp child with mem | mem
    · have := List.sizeOf_lt_of_mem mem; simp; omega
    · simp at mem; subst mem; simp; omega

theorem induction {P : Term ℓ → Prop}
    (node : ∀ label s, (∀ t ∈ s.children, P t) → P (mk label s)) (t : Term ℓ) : P t :=
  match t with
  | .mk label s => node label s fun t _ => induction node t
termination_by sizeOf t
decreasing_by exact sizeOf_lt_of_mem_children ‹_›

/-- The same tree under other labels. -/
def map (f : ℓ → μ) : Term ℓ → Term μ :=
  fold fun label shape => .mk (f label) shape

@[simp] theorem map_mk (f : ℓ → μ) (label : ℓ) (s : Shape (Term ℓ)) :
    (mk label s).map f = mk (f label) (s.map (map f)) := by
  rw [map, fold_mk]

def symbol? (t : Term ℓ) : Option Symbol :=
  match t.shape with
  | .symbol s => some s
  | _ => none

/-- The text of a literal of the given kind. -/
def literal? (kind : Literal) (t : Term ℓ) : Option String :=
  t.symbol?.bind fun s => if s.space = .literal kind then some s.name else none

/-- The name of a symbol in the attribute namespace. -/
def keyword? (t : Term ℓ) : Option String :=
  t.symbol?.bind fun s => if s.space = .attr then some s.name else none

def typed? (t : Term ℓ) : Option (Term ℓ × Term ℓ) :=
  match t.shape with
  | .typed term type => some (term, type)
  | _ => none

/-- A typed symbol. -/
def declaration? (t : Term ℓ) : Option (Symbol × Term ℓ) :=
  t.typed?.bind fun (term, type) => term.symbol?.map (·, type)

/-- An attribute is a keyword applied to its values, or a keyword alone, which has none. -/
def attribute? (t : Term ℓ) : Option (String × List (Term ℓ)) :=
  match t.shape with
  | .app head args => head.keyword?.map (·, args)
  | _ => t.keyword?.map (·, [])

/-- Whether the term is the constant true, wherever it stands. -/
def isTrue (t : Term ℓ) : Bool :=
  match t.shape with
  | .builtin .top => true
  | _ => false

end Term

end ProblemIntake
