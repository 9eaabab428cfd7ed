import ProblemIntake.Statement.Action

/-! A statement is one step, or a pack of statements that stands for its members in order. Both
carry a label. Flattening leaves the steps alone; the labels of packs are lost. -/

namespace ProblemIntake

variable {ρ τ β : Type}

/-- A readable name, a note on where the statement is from or how it is meant, and a place in the
input. -/
structure Label (ρ : Type) where
  name : Option String := none
  note : Option ρ := none
  loc : Option Span := none
  deriving DecidableEq, Repr

def Label.map (f : ρ → τ) (l : Label ρ) : Label τ :=
  ⟨l.name, l.note.map f, l.loc⟩

structure Step (ρ : Type) where
  action : Action ρ
  label : Label ρ
  deriving DecidableEq, Repr

def Step.map (f : ρ → τ) (s : Step ρ) : Step τ :=
  ⟨s.action.map f, s.label.map f⟩

inductive Statement (ρ : Type) where
  | step (step : Step ρ)
  | pack (items : List (Statement ρ)) (label : Label ρ)

namespace Statement

def label : Statement ρ → Label ρ
  | .step s => s.label
  | .pack _ label => label

def relabel (f : Label ρ → Label ρ) : Statement ρ → Statement ρ
  | .step s => .step { s with label := f s.label }
  | .pack items label => .pack items (f label)

def named (name : Option String) : Statement ρ → Statement ρ :=
  relabel ({ · with name })

def noted (note : Option ρ) : Statement ρ → Statement ρ :=
  relabel ({ · with note })

def located (loc : Option Span) : Statement ρ → Statement ρ :=
  relabel ({ · with loc })

@[simp] theorem label_relabel (f : Label ρ → Label ρ) (s : Statement ρ) :
    (s.relabel f).label = f s.label := by
  cases s <;> rfl

/-- The statement of one action, without a label. -/
def ofAction (action : Action ρ) : Statement ρ := .step ⟨action, {}⟩

/-- Nothing to do. -/
def empty : Statement ρ := .pack [] {}

/-- A datatype stands where its declaration stands. -/
def datatype (d : Datatype ρ) : Statement ρ :=
  (ofAction (.datatype d)).located d.loc

/-- States a goal and asks for its proof at once. -/
def goal (term : ρ) : Statement ρ :=
  .pack [ofAction (.goal term), ofAction (.prove [])] {}

mutual

/-- The value of a statement, computed from its steps up. -/
def fold (step : Step ρ → β) (pack : List β → Label ρ → β) : Statement ρ → β
  | .step s => step s
  | .pack items label => pack (foldList step pack items) label

/-- The values of statements in a row. -/
def foldList (step : Step ρ → β) (pack : List β → Label ρ → β) : List (Statement ρ) → List β
  | [] => []
  | s :: ss => s.fold step pack :: foldList step pack ss

end

theorem foldList_eq_map (step : Step ρ → β) (pack : List β → Label ρ → β)
    (ss : List (Statement ρ)) : foldList step pack ss = ss.map (fold step pack) := by
  induction ss with
  | nil => rfl
  | cons s ss ih => rw [foldList, ih, List.map_cons]

@[simp] theorem fold_step (step : Step ρ → β) (pack : List β → Label ρ → β) (s : Step ρ) :
    (Statement.step s).fold step pack = step s := rfl

@[simp] theorem fold_pack (step : Step ρ → β) (pack : List β → Label ρ → β)
    (items : List (Statement ρ)) (label : Label ρ) :
    (Statement.pack items label).fold step pack = pack (items.map (fold step pack)) label := by
  rw [fold, foldList_eq_map]

theorem induction {P : Statement ρ → Prop} (step : ∀ s, P (.step s))
    (pack : ∀ items label, (∀ s ∈ items, P s) → P (.pack items label)) (s : Statement ρ) : P s :=
  match s with
  | .step s => step s
  | .pack items label => pack items label fun s _ => induction step pack s

/-- The steps, in order. -/
def flatten : Statement ρ → List (Step ρ) :=
  fold (fun s => [s]) fun items _ => items.flatten

@[simp] theorem flatten_step (s : Step ρ) : (Statement.step s).flatten = [s] := rfl

@[simp] theorem flatten_pack (items : List (Statement ρ)) (label : Label ρ) :
    (Statement.pack items label).flatten = items.flatMap flatten := by
  rw [flatten, fold_pack, ← List.flatMap_def]

def map (f : ρ → τ) : Statement ρ → Statement τ :=
  fold (fun s => .step (s.map f)) fun items label => .pack items (label.map f)

@[simp] theorem map_step (f : ρ → τ) (s : Step ρ) :
    (Statement.step s).map f = .step (s.map f) := rfl

@[simp] theorem map_pack (f : ρ → τ) (items : List (Statement ρ)) (label : Label ρ) :
    (Statement.pack items label).map f = .pack (items.map (map f)) (label.map f) := by
  rw [map, fold_pack]

/-- A solve request, not inside a pack. -/
def isProve : Statement ρ → Bool
  | .step s => s.action.isProve
  | .pack _ _ => false

mutual

def decEq [DecidableEq ρ] (a b : Statement ρ) : Decidable (a = b) :=
  match a, b with
  | .step s, .step t =>
    if same : s = t then isTrue (by rw [same]) else isFalse (by grind)
  | .pack xs l, .pack ys m =>
    match decEqList xs ys with
    | isTrue sameItems =>
      if same : l = m then isTrue (by rw [sameItems, same]) else isFalse (by grind)
    | isFalse _ => isFalse (by grind)
  | .step _, .pack _ _ | .pack _ _, .step _ => isFalse (by grind)

def decEqList [DecidableEq ρ] (xs ys : List (Statement ρ)) : Decidable (xs = ys) :=
  match xs, ys with
  | [], [] => isTrue rfl
  | x :: xs, y :: ys =>
    match decEq x y, decEqList xs ys with
    | isTrue sameHead, isTrue sameTail => isTrue (by rw [sameHead, sameTail])
    | isFalse _, _ | _, isFalse _ => isFalse (by grind)
  | [], _ :: _ | _ :: _, [] => isFalse (by grind)

end

instance [DecidableEq ρ] : DecidableEq (Statement ρ) := decEq

end Statement

end ProblemIntake
