import ProblemIntake.Canonical.Command
import ProblemIntake.Term.Text

namespace ProblemIntake

namespace Term

variable {ℓ μ ν : Type}

theorem map_map (f : ℓ → μ) (g : μ → ν) (t : Term ℓ) : (t.map f).map g = t.map (g ∘ f) := by
  induction t using Term.induction with
  | node label s ih =>
    rw [map_mk, map_mk, map_mk, Shape.map_map]
    exact congrArg (mk _) (Shape.map_congr ih)

theorem label_map (f : ℓ → μ) (t : Term ℓ) : (t.map f).label = f t.label := by
  cases t with
  | mk label s => rw [map_mk, label_mk, label_mk]

theorem shape_map (f : ℓ → μ) (t : Term ℓ) : (t.map f).shape = t.shape.map (map f) := by
  cases t with
  | mk label s => rw [map_mk, shape_mk, shape_mk]

variable (f : ℓ → μ) (t : Term ℓ)

@[simp] theorem symbol?_map : (t.map f).symbol? = t.symbol? := by
  unfold symbol?
  rw [shape_map]
  cases t.shape <;> rfl

@[simp] theorem literal?_map (kind : Literal) : (t.map f).literal? kind = t.literal? kind := by
  rw [literal?, symbol?_map, literal?]

@[simp] theorem keyword?_map : (t.map f).keyword? = t.keyword? := by
  rw [keyword?, symbol?_map, keyword?]

@[simp] theorem scopeCount?_map : (t.map f).scopeCount? = t.scopeCount? := by
  rw [scopeCount?, literal?_map, scopeCount?]

@[simp] theorem typed?_map :
    (t.map f).typed? = t.typed?.map fun (term, type) => (term.map f, type.map f) := by
  unfold typed?
  rw [shape_map]
  cases t.shape <;> rfl

@[simp] theorem declaration?_map :
    (t.map f).declaration? = t.declaration?.map fun (id, type) => (id, type.map f) := by
  rw [declaration?, typed?_map, declaration?]
  cases t.typed? with
  | none => rfl
  | some found =>
    simp only [Option.map_some, Option.bind_some, symbol?_map, Option.map_map]
    rfl

@[simp] theorem attribute?_map :
    (t.map f).attribute? = t.attribute?.map fun (keyword, args) => (keyword, args.map (map f)) := by
  unfold attribute?
  rw [shape_map]
  cases t.shape with
  | app head args =>
    simp only [Shape.map, keyword?_map, Option.map_map]
    rfl
  | builtin | symbol | op | typed | binder =>
    simp only [Shape.map, keyword?_map, Option.map_map]
    rfl

@[simp] theorem bareKeyword?_map : (t.map f).bareKeyword? = t.bareKeyword? := by
  unfold bareKeyword?
  rw [attribute?_map]
  cases t.attribute? with
  | none => rfl
  | some found =>
    obtain ⟨keyword, args⟩ := found
    cases args <;> rfl

@[simp] theorem constructor?_map :
    (t.map f).constructor? =
      t.constructor?.map fun (name, fields) => (name, fields.map (map f)) := by
  unfold constructor?
  rw [shape_map]
  cases t.shape with
  | symbol s => rfl
  | app head fields =>
    simp only [Shape.map, symbol?_map, Option.map_map]
    rfl
  | builtin | op | typed | binder => rfl

theorem skeleton_map : (t.map f).skeleton = t.skeleton := by
  induction t using Term.induction with
  | node label s ih =>
    rw [map_mk, skeleton_mk, skeleton_mk, Shape.map_map]
    exact congrArg Shape.skeleton (Shape.map_congr ih)

@[simp] theorem text_map : (t.map f).text = t.text := by
  rw [text, skeleton_map, text]

end Term

end ProblemIntake
