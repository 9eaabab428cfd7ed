import Mathlib.Data.List.Forall2
import ProblemIntake.Journal
import ProblemIntake.Proofs.Pool.Extension
import ProblemIntake.Proofs.Term.Labels

/-! Things are looked at with their places in the input, or without. Cells are not seen in either
view: two terms look alike if they are the same tree. -/

namespace ProblemIntake

/-- How things are looked at: with their places in the input, or as if they had none. -/
inductive View where
  | placed
  | bare
  deriving DecidableEq, Repr

namespace View

def place : View → Option Span → Option Span
  | .placed, loc => loc
  | .bare, _ => none

def tree (v : View) : Written → Written := Term.map v.place

def term (v : View) (t : Pooled) : Written := v.tree t.written

def item (v : View) (item : Item Written) : Item Written where
  keyword := item.keyword
  args := item.args.map v.tree
  name := item.name.map v.tree
  note := item.note.map v.tree
  loc := v.place item.loc

def label (v : View) (l : Label Pooled) : Label Written :=
  ⟨l.name, l.note.map v.term, v.place l.loc⟩

def datatype (v : View) (d : Datatype Pooled) : Datatype Written :=
  { d.map v.term with loc := v.place d.loc }

def action (v : View) : Action Pooled → Action Written
  | .datatype d => .datatype (v.datatype d)
  | a => a.map v.term

def step (v : View) (s : Step Pooled) : Step Written := ⟨v.action s.action, v.label s.label⟩

def statement (v : View) : Statement Pooled → Statement Written :=
  Statement.fold (fun s => .step (v.step s)) fun items label => .pack items (v.label label)

/-- A diagnostic always shows what it is about. -/
def diagnostic (v : View) (d : Diagnostic) : Diagnostic :=
  { d with location := ⟨d.location.file, v.place d.location.span⟩ }

def event (v : View) : Event → Event
  | .diagnosed d => .diagnosed (v.diagnostic d)
  | e => e

variable {v : View}

theorem place_none : v.place none = none := by
  cases v <;> rfl

theorem place_or (a b : Option Span) : v.place (a.or b) = (v.place a).or (v.place b) := by
  cases v <;> rfl

/-- The terms are the same tree in the view. -/
def Alike (v : View) (t t' : Pooled) : Prop := v.term t = v.term t'

theorem term_eq_map : v.term = Term.map (v.place ∘ Cell.loc) :=
  funext fun t => Term.map_map _ _ t

theorem term_intern {pool : Pool} {shape : Shape Pooled} {loc : Option Span}
    (coherent : pool.Coherent) (given : ∀ u ∈ shape.children, pool.Owns u) :
    v.term (Pool.intern shape loc pool).1 = .mk (v.place loc) (shape.map v.term) := by
  rw [term, coherent.written_intern given, tree, Term.map_mk, Shape.map_map]
  rfl

@[simp] theorem symbol?_term (t : Pooled) : (v.term t).symbol? = t.symbol? := by
  rw [term_eq_map, Term.symbol?_map]

@[simp] theorem literal?_term (t : Pooled) (kind : Literal) :
    (v.term t).literal? kind = t.literal? kind := by
  rw [term_eq_map, Term.literal?_map]

@[simp] theorem keyword?_term (t : Pooled) : (v.term t).keyword? = t.keyword? := by
  rw [term_eq_map, Term.keyword?_map]

@[simp] theorem scopeCount?_term (t : Pooled) : (v.term t).scopeCount? = t.scopeCount? := by
  rw [term_eq_map, Term.scopeCount?_map]

@[simp] theorem bareKeyword?_term (t : Pooled) : (v.term t).bareKeyword? = t.bareKeyword? := by
  rw [term_eq_map, Term.bareKeyword?_map]

@[simp] theorem text_term (t : Pooled) : (v.term t).text = t.text := by
  rw [term_eq_map, Term.text_map]

@[simp] theorem declaration?_term (t : Pooled) :
    (v.term t).declaration? = t.declaration?.map fun (id, type) => (id, v.term type) := by
  rw [term_eq_map, Term.declaration?_map]

@[simp] theorem attribute?_term (t : Pooled) :
    (v.term t).attribute? = t.attribute?.map fun (keyword, args) => (keyword, args.map v.term) := by
  rw [term_eq_map, Term.attribute?_map]

@[simp] theorem constructor?_term (t : Pooled) :
    (v.term t).constructor? =
      t.constructor?.map fun (name, fields) => (name, fields.map v.term) := by
  rw [term_eq_map, Term.constructor?_map]

theorem map_term_eq_iff {ts ts' : List Pooled} :
    ts.map v.term = ts'.map v.term ↔ List.Forall₂ v.Alike ts ts' := by
  rw [← List.forall₂_eq_eq_eq, List.forall₂_map_left_iff, List.forall₂_map_right_iff]
  rfl

theorem option_cases {α β : Type} {f : α → β} {o o' : Option α} (same : o.map f = o'.map f) :
    (o = none ∧ o' = none) ∨ ∃ a a', o = some a ∧ o' = some a' ∧ f a = f a' := by
  cases o with
  | none => exact .inl ⟨rfl, Option.map_eq_none_iff.mp same.symm⟩
  | some a =>
    obtain ⟨a', found, seen⟩ := Option.map_eq_some_iff.mp same.symm
    exact .inr ⟨a, a', rfl, found, seen.symm⟩

namespace Alike

variable {t t' : Pooled}

theorem place (alike : v.Alike t t') : v.place t.loc = v.place t'.loc := by
  have labels := congrArg Term.label alike
  rwa [term_eq_map, Term.label_map, Term.label_map] at labels

theorem symbol? (alike : v.Alike t t') : t.symbol? = t'.symbol? := by
  rw [← symbol?_term (v := v), alike, symbol?_term]

theorem literal? (alike : v.Alike t t') (kind : Literal) : t.literal? kind = t'.literal? kind := by
  rw [← literal?_term (v := v), alike, literal?_term]

theorem keyword? (alike : v.Alike t t') : t.keyword? = t'.keyword? := by
  rw [← keyword?_term (v := v), alike, keyword?_term]

theorem text (alike : v.Alike t t') : t.text = t'.text := by
  rw [← text_term (v := v), alike, text_term]

/-- Both terms are declarations, of one symbol and of types that look alike, or neither is. -/
theorem declaration?_cases (alike : v.Alike t t') :
    (t.declaration? = none ∧ t'.declaration? = none) ∨
      ∃ id type type', t.declaration? = some (id, type) ∧ t'.declaration? = some (id, type') ∧
        v.Alike type type' := by
  have same := congrArg Term.declaration? alike
  rw [declaration?_term, declaration?_term] at same
  rcases option_cases same with ⟨none, none'⟩ | ⟨⟨id, type⟩, ⟨id', type'⟩, first, second, seen⟩
  · exact .inl ⟨none, none'⟩
  · obtain ⟨rfl, types⟩ := Prod.mk.inj seen
    exact .inr ⟨id, type, type', first, second, types⟩

/-- Both terms are attributes, of one keyword and of values that look alike, or neither is. -/
theorem attribute?_cases (alike : v.Alike t t') :
    (t.attribute? = none ∧ t'.attribute? = none) ∨
      ∃ keyword args args', t.attribute? = some (keyword, args) ∧
        t'.attribute? = some (keyword, args') ∧ List.Forall₂ v.Alike args args' := by
  have same := congrArg Term.attribute? alike
  rw [attribute?_term, attribute?_term] at same
  rcases option_cases same with
    ⟨none, none'⟩ | ⟨⟨keyword, args⟩, ⟨keyword', args'⟩, first, second, seen⟩
  · exact .inl ⟨none, none'⟩
  · obtain ⟨rfl, values⟩ := Prod.mk.inj seen
    exact .inr ⟨keyword, args, args', first, second, map_term_eq_iff.mp values⟩

end Alike

end View

end ProblemIntake
