import Mathlib.Logic.Basic
import ProblemIntake.Pool

namespace ProblemIntake

namespace Shape

variable {ρ τ υ : Type}

private theorem list_eq_of_map_eq {f : ρ → τ} {xs ys : List ρ} (same : xs.map f = ys.map f)
    (distinct : ∀ a ∈ xs, ∀ b ∈ ys, f a = f b → a = b) : xs = ys := by
  induction xs generalizing ys with
  | nil => exact (List.map_eq_nil_iff.mp same.symm).symm
  | cons x xs ih =>
    cases ys with
    | nil => cases same
    | cons y ys =>
      obtain ⟨head, tail⟩ := List.cons.inj same
      have first := distinct x List.mem_cons_self y List.mem_cons_self head
      have rest := ih tail fun a mem b mem' =>
        distinct a (List.mem_cons_of_mem x mem) b (List.mem_cons_of_mem y mem')
      rw [first, rest]

theorem eq_of_map_eq {f : ρ → τ} {s r : Shape ρ} (same : s.map f = r.map f)
    (distinct : ∀ a ∈ s.children, ∀ b ∈ r.children, f a = f b → a = b) : s = r := by
  have children : s.children = r.children := by
    refine list_eq_of_map_eq ?_ distinct
    rw [← children_map, same, children_map]
  cases s <;> cases r <;> simp only [map, reduceCtorEq] at same
  all_goals simp_all [Shape.children]

theorem traverse_map {m : Type → Type} [Monad m] [LawfulMonad m] (f : υ → ρ) (g : ρ → m τ)
    (s : Shape υ) : (s.map f).traverse g = s.traverse (g ∘ f) := by
  cases s <;> simp [map, traverse]

variable {σ : Type} (f : ρ → StateM σ τ)

theorem run_mapM_cons (r : ρ) (rs : List ρ) (start : σ) :
    (r :: rs).mapM f start =
      let first := f r start
      let rest := rs.mapM f first.2
      (first.1 :: rest.1, rest.2) := by
  rw [List.mapM_cons]
  rfl

theorem run_mapM_append (rs more : List ρ) (start : σ) :
    (rs ++ more).mapM f start =
      let front := rs.mapM f start
      let back := more.mapM f front.2
      (front.1 ++ back.1, back.2) := by
  rw [List.mapM_append]
  rfl

theorem run_mapM_concat (rs : List ρ) (r : ρ) (start : σ) :
    (rs ++ [r]).mapM f start =
      let front := rs.mapM f start
      let last := f r front.2
      (front.1 ++ [last.1], last.2) := by
  simp only [List.mapM_append, List.mapM_cons, List.mapM_nil]
  rfl

/-- The references are visited in a row, and the shape around them stays. -/
theorem traverse_run (s : Shape ρ) (start : σ) :
    let visited := s.children.mapM f start
    let traversed := s.traverse f start
    traversed.2 = visited.2 ∧ traversed.1.children = visited.1 ∧
      ∀ {υ : Type} (g : τ → υ) (h : ρ → υ), visited.1.map g = s.children.map h →
        traversed.1.map g = s.map h := by
  intro visited traversed
  cases s with
  | builtin b => exact ⟨rfl, rfl, fun _ _ _ => rfl⟩
  | symbol s => exact ⟨rfl, rfl, fun _ _ _ => rfl⟩
  | app head args =>
    rw [show visited = _ from run_mapM_cons f head args start]
    refine ⟨rfl, rfl, fun g h same => ?_⟩
    obtain ⟨first, rest⟩ := List.cons.inj same
    exact congrArg₂ Shape.app first rest
  | op c args => exact ⟨rfl, rfl, fun g h same => congrArg (Shape.op c) same⟩
  | typed term type =>
    rw [show visited = _ from run_mapM_cons f term [type] start]
    dsimp only
    rw [run_mapM_cons]
    refine ⟨rfl, rfl, fun g h same => ?_⟩
    obtain ⟨first, rest⟩ := List.cons.inj same
    exact congrArg₂ Shape.typed first (List.cons.inj rest).1
  | binder b vars body =>
    rw [show visited = _ from run_mapM_concat f vars body start]
    refine ⟨rfl, rfl, fun g h same => ?_⟩
    rw [children, List.map_append, List.map_append] at same
    obtain ⟨front, last⟩ := List.append_inj' same rfl
    exact congrArg₂ (Shape.binder b) front (List.cons.inj last).1

end Shape

namespace Term

variable {ℓ : Type}

/-- A term is part of itself and of every term that has it in it. -/
inductive PartOf (v : Term ℓ) : Term ℓ → Prop
  | self : PartOf v v
  | child {label : ℓ} {s : Shape (Term ℓ)} {t : Term ℓ} (mem : t ∈ s.children)
      (within : PartOf v t) : PartOf v (mk label s)

theorem partOf_mk_iff {v : Term ℓ} {label : ℓ} {s : Shape (Term ℓ)} :
    v.PartOf (mk label s) ↔ v = mk label s ∨ ∃ t ∈ s.children, v.PartOf t := by
  constructor
  · intro part
    cases part with
    | self => exact .inl rfl
    | child mem within => exact .inr ⟨_, mem, within⟩
  · rintro (rfl | ⟨t, mem, within⟩)
    · exact .self
    · exact .child mem within

/-- The tree of a term in cells, places included. -/
def written (t : Pooled) : Written := t.map Cell.loc

theorem written_eq (t : Pooled) : t.written = mk t.loc (t.shape.map written) := by
  cases t with
  | mk cell shape => exact map_mk Cell.loc cell shape

end Term

end ProblemIntake
