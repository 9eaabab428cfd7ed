import ProblemIntake.Statement.Pooled

namespace ProblemIntake

/-- The terms assumed and the goals stated in one scope, in order. -/
structure Level where
  assumed : List Pooled := []
  goals : List Pooled := []

/-- The open levels, the innermost first and the base last. -/
abbrev AssertionStack := List Level

namespace AssertionStack

/-- Pushing opens empty levels, popping discards the innermost ones, and terms go to the innermost
level. Every other action leaves the stack alone. -/
def enact (stack : AssertionStack) : Action Pooled → AssertionStack
  | .push count => List.replicate count {} ++ stack
  | .pop count => stack.drop count
  | .assume t => stack.modifyHead fun level => { level with assumed := level.assumed ++ [t] }
  | .goal t => stack.modifyHead fun level => { level with goals := level.goals ++ [t] }
  | _ => stack

/-- The stack after actions in a row. -/
def run (stack : AssertionStack) (actions : List (Action Pooled)) : AssertionStack :=
  actions.foldl enact stack

@[simp] theorem run_nil (stack : AssertionStack) : run stack [] = stack := rfl

@[simp] theorem run_cons (stack : AssertionStack) (a : Action Pooled)
    (actions : List (Action Pooled)) : run stack (a :: actions) = run (enact stack a) actions := rfl

theorem run_append (stack : AssertionStack) (actions more : List (Action Pooled)) :
    run stack (actions ++ more) = run (run stack actions) more :=
  List.foldl_append

/-- Each action meets a stack on which the property holds. -/
def Along (P : AssertionStack → Action Pooled → Prop) (stack : AssertionStack) :
    List (Action Pooled) → Prop
  | [] => True
  | a :: actions => P stack a ∧ Along P (enact stack a) actions

theorem along_iff {P : AssertionStack → Action Pooled → Prop} {stack : AssertionStack}
    {actions : List (Action Pooled)} :
    Along P stack actions ↔
      ∀ begun a rest, actions = begun ++ a :: rest → P (run stack begun) a := by
  induction actions generalizing stack with
  | nil => simp [Along]
  | cons a actions ih =>
    rw [Along, ih]
    constructor
    · rintro ⟨now, later⟩ begun b rest split
      cases begun with
      | nil =>
        obtain ⟨rfl, rfl⟩ := List.cons.inj split
        exact now
      | cons c begun =>
        obtain ⟨rfl, rfl⟩ := List.cons.inj split
        exact later begun b rest rfl
    · intro all
      refine ⟨all [] a actions rfl, fun begun b rest split => ?_⟩
      exact all (a :: begun) b rest (by rw [split, List.cons_append])

end AssertionStack

end ProblemIntake
