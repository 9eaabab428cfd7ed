import Mathlib.Algebra.Ring.Nat
import ProblemIntake.Statement.Action

namespace ProblemIntake

variable {ρ : Type}

/-- How many scopes an action opens. -/
def Action.opens : Action ρ → Nat
  | .push count => count
  | _ => 0

/-- How many scopes an action drops. -/
def Action.drops : Action ρ → Nat
  | .pop count => count
  | _ => 0

/-- How many scopes actions in a row open. -/
def opened (actions : List (Action ρ)) : Nat := (actions.map Action.opens).sum

/-- How many scopes actions in a row drop. -/
def dropped (actions : List (Action ρ)) : Nat := (actions.map Action.drops).sum

structure Balanced (actions : List (Action ρ)) : Prop where
  /-- However far the actions have come, what they dropped was opened by them. -/
  covered (n : Nat) : dropped (actions.take n) ≤ opened (actions.take n)
  /-- In the end everything is dropped that was opened. -/
  closed : dropped actions = opened actions

@[simp] theorem opened_nil : opened ([] : List (Action ρ)) = 0 := rfl

@[simp] theorem dropped_nil : dropped ([] : List (Action ρ)) = 0 := rfl

@[simp] theorem opened_cons (a : Action ρ) (actions : List (Action ρ)) :
    opened (a :: actions) = a.opens + opened actions := by
  simp [opened]

@[simp] theorem dropped_cons (a : Action ρ) (actions : List (Action ρ)) :
    dropped (a :: actions) = a.drops + dropped actions := by
  simp [dropped]

@[simp] theorem opened_append (actions more : List (Action ρ)) :
    opened (actions ++ more) = opened actions + opened more := by
  simp [opened]

@[simp] theorem dropped_append (actions more : List (Action ρ)) :
    dropped (actions ++ more) = dropped actions + dropped more := by
  simp [dropped]

variable {actions more : List (Action ρ)}

theorem balanced_nil : Balanced ([] : List (Action ρ)) where
  covered n := by simp
  closed := rfl

/-- An action that has nothing to do with scopes. -/
theorem balanced_singleton {a : Action ρ} (opens : a.opens = 0) (drops : a.drops = 0) :
    Balanced [a] where
  covered n := by cases n <;> simp [drops]
  closed := by simp [opens, drops]

theorem Balanced.append (first : Balanced actions) (second : Balanced more) :
    Balanced (actions ++ more) where
  covered n := by
    rw [List.take_append, dropped_append, opened_append]
    rcases Nat.le_total n actions.length with early | late
    · rw [Nat.sub_eq_zero_of_le early, List.take_zero]
      exact first.covered n
    · have whole := first.closed
      have rest := second.covered (n - actions.length)
      rw [List.take_of_length_le late]
      omega
  closed := by rw [dropped_append, opened_append, first.closed, second.closed]

/-- Scopes are opened, and dropped after something that is balanced by itself. -/
theorem Balanced.scope (inside : Balanced actions) (count : Nat) :
    Balanced (.push count :: (actions ++ [.pop count])) where
  covered n := by
    cases n with
    | zero => exact Nat.le_refl 0
    | succ n =>
      have within := inside.covered n
      have last (k : Nat) : dropped ([Action.pop count].take k : List (Action ρ)) ≤ count := by
        cases k <;> simp [Action.drops]
      have once := last (n - actions.length)
      rw [List.take_succ_cons, List.take_append]
      simp only [dropped_cons, dropped_append, opened_cons, opened_append, Action.opens,
        Action.drops]
      omega
  closed := by
    have within := inside.closed
    simp only [dropped_cons, dropped_append, dropped_nil, opened_cons, opened_append, opened_nil,
      Action.opens, Action.drops]
    omega

end ProblemIntake
