import Mathlib.Data.List.Basic
import ProblemIntake.Proofs.Term.Parts
import ProblemIntake.Statement.Basic

namespace ProblemIntake

namespace Term

variable {ℓ μ : Type}

/-- The term and all terms inside of it, from the top down and from left to right. -/
def subterms (t : Term ℓ) : List (Term ℓ) :=
  let visit (label : ℓ) (s : Shape (Term ℓ × List (Term ℓ))) : Term ℓ × List (Term ℓ) :=
    let whole := mk label (s.map Prod.fst)
    (whole, whole :: s.children.flatMap Prod.snd)
  (t.fold visit).2

@[simp] theorem subterms_mk (label : ℓ) (s : Shape (Term ℓ)) :
    (mk label s).subterms = mk label s :: s.children.flatMap subterms := by
  unfold subterms
  extract_lets visit
  have frame (s : Shape (Term ℓ)) (same : ∀ t ∈ s.children, (t.fold visit).1 = t) :
      (s.map (fold visit)).map Prod.fst = s :=
    calc (s.map (fold visit)).map Prod.fst
      _ = s.map (Prod.fst ∘ fold visit) := Shape.map_map _ _ s
      _ = s.map id := Shape.map_congr same
      _ = s := Shape.map_id s
  have whole (t : Term ℓ) : (t.fold visit).1 = t := by
    induction t using Term.induction with
    | node label s ih =>
      rw [fold_mk]
      exact congrArg (mk label) (frame s ih)
  rw [fold_mk]
  change mk label _ :: (s.map (fold visit)).children.flatMap Prod.snd = _
  rw [frame s fun t _ => whole t, Shape.children_map, List.flatMap_map]

theorem mem_subterms_iff {v t : Term ℓ} : v ∈ t.subterms ↔ v.PartOf t := by
  induction t using Term.induction with
  | node label s ih =>
    rw [subterms_mk, List.mem_cons, List.mem_flatMap, partOf_mk_iff]
    exact or_congr_right (exists_congr fun t => and_congr_right fun mem => ih t mem)

theorem subterms_map (f : ℓ → μ) (t : Term ℓ) : (t.map f).subterms = t.subterms.map (map f) := by
  induction t using Term.induction with
  | node label s ih =>
    rw [map_mk, subterms_mk, subterms_mk, Shape.children_map, List.flatMap_map, List.map_cons,
      map_mk, List.map_flatMap]
    exact congrArg _ (List.flatMap_congr ih)

end Term

variable {ρ τ : Type}

namespace Action

/-- The terms an action refers to. -/
def terms : Action ρ → List ρ
  | .prove ts | .getValue ts => ts
  | .goal t | .assume t | .setInfo t | .setOption t | .define _ t | .declare _ t => [t]
  | .datatype d => d.params ++ d.constructors.flatMap Prod.snd
  | _ => []

theorem terms_map (f : ρ → τ) (a : Action ρ) : (a.map f).terms = a.terms.map f := by
  cases a with
  | datatype d =>
    simp only [map, terms, Datatype.map, List.map_append, List.flatMap_map, List.map_flatMap]
  | _ => rfl

end Action

/-- The terms of a step: those of its action, then the note. -/
def Step.terms (s : Step ρ) : List ρ := s.action.terms ++ s.label.note.toList

namespace Statement

/-- The terms of a statement: those of its steps in order, and after the members of a pack the note
on the pack. -/
def terms : Statement ρ → List ρ :=
  fold Step.terms fun items label => items.flatten ++ label.note.toList

@[simp] theorem terms_step (s : Step ρ) : (Statement.step s).terms = s.terms := rfl

@[simp] theorem terms_pack (items : List (Statement ρ)) (label : Label ρ) :
    (Statement.pack items label).terms = items.flatMap terms ++ label.note.toList := by
  rw [terms, fold_pack, ← List.flatMap_def]

theorem terms_map (f : ρ → τ) (s : Statement ρ) : (s.map f).terms = s.terms.map f := by
  have noted (label : Label ρ) : (label.map f).note.toList = label.note.toList.map f :=
    Option.toList_map
  induction s using Statement.induction with
  | step s =>
    rw [map_step, terms_step, terms_step, Step.terms, Step.terms, List.map_append, ← noted]
    exact congrArg (· ++ _) (Action.terms_map f s.action)
  | pack items label ih =>
    rw [map_pack, terms_pack, terms_pack, List.map_append, ← noted, List.flatMap_map,
      List.map_flatMap]
    exact congrArg (· ++ _) (List.flatMap_congr ih)

/-- A label has no terms but its note. -/
theorem mem_terms_relabel {f : Label ρ → Label ρ} {s : Statement ρ} {t : ρ}
    (mem : t ∈ (s.relabel f).terms) : t ∈ s.terms ∨ (f s.label).note = some t := by
  cases s with
  | step s =>
    rcases List.mem_append.mp mem with mem | mem
    · exact .inl (List.mem_append_left _ mem)
    · exact .inr (Option.mem_toList.mp mem)
  | pack items label =>
    rw [relabel, terms_pack] at mem
    rw [terms_pack]
    rcases List.mem_append.mp mem with mem | mem
    · exact .inl (List.mem_append_left _ mem)
    · exact .inr (Option.mem_toList.mp mem)

@[simp] theorem terms_located (loc : Option Span) (s : Statement ρ) :
    (s.located loc).terms = s.terms := by
  cases s with
  | step s => rfl
  | pack items label => rw [located, relabel, terms_pack, terms_pack]

end Statement

end ProblemIntake
