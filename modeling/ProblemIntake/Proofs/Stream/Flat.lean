import ProblemIntake.Proofs.Canonical.Actions
import ProblemIntake.Proofs.Statement.Balance
import ProblemIntake.Proofs.Stream.Forms

namespace ProblemIntake

/-- The members of a pack. A step is its own only member. -/
def Statement.members {ρ : Type} : Statement ρ → List (Statement ρ)
  | .step s => [.step s]
  | .pack items _ => items

/-- Whether an action sets metadata. -/
def Action.isSetInfo {ρ : Type} : Action ρ → Bool
  | .setInfo _ => true
  | _ => false

theorem Canonical.Outline.members_eq {language : Language} {item : Item Pooled} {form : Canonical}
    (outline : Outline language item form) :
    form.statement.members = form.statement.flatten.map .step := by
  cases outline with
  | refused | idle | single | attempt | goal => rfl

/-- Solve requests and metadata are what header checks look at. -/
theorem countP_isProve_add_countP_isSetInfo {ρ : Type} (actions : List (Action ρ)) :
    actions.countP Action.isProve + actions.countP Action.isSetInfo =
      actions.countP Action.concernsHeaders := by
  induction actions with
  | nil => rfl
  | cons a actions ih =>
    have alone : (if a.isProve then 1 else 0) + (if a.isSetInfo then 1 else 0) =
        if a.concernsHeaders then 1 else 0 := by
      cases a <;> rfl
    rw [List.countP_cons, List.countP_cons, List.countP_cons, ← ih]
    omega

namespace Item

variable {language : Language} {item : Item Pooled} {actions : List (Action Pooled)}

theorem balanced_of_isContent {a : Action Pooled} (content : a.isContent) : Balanced [a] := by
  have still : a.opens = 0 ∧ a.drops = 0 := by
    cases a with
    | push | pop => cases content
    | _ => exact ⟨rfl, rfl⟩
  exact balanced_singleton still.1 still.2

theorem balanced_prove (assumptions : List Pooled) : Balanced [.prove assumptions] :=
  balanced_singleton rfl rfl

theorem Performs.length_le (performs : item.Performs language actions) : actions.length ≤ 5 := by
  cases performs with
  | nothing | command | content | request | goal | attempt => simp

/-- Only commands of SMT-LIB leave scopes open, or drop those of others. -/
theorem Performs.balanced (performs : item.Performs language actions)
    (other : language ≠ .smtlib) : Balanced actions := by
  cases performs with
  | nothing => exact balanced_nil
  | command smtlib => exact absurd smtlib other
  | content content => exact balanced_of_isContent content
  | request => exact balanced_prove item.args
  | @goal t => exact (balanced_of_isContent (a := .goal t) rfl).append (balanced_prove [])
  | attempt _ tried lasting =>
    have inside := (balanced_of_isContent tried).append (balanced_prove [])
    exact (inside.scope 1).append (balanced_of_isContent lasting)

/-- So do the scopes of a whole input, item after item. -/
theorem balanced_flatSteps (other : language ≠ .smtlib) (items : List (Item Pooled)) (pool : Pool) :
    Balanced ((Stream.flatSteps language items pool).map Step.action) := by
  induction items generalizing pool with
  | nil => exact balanced_nil
  | cons item items ih =>
    have first := (performs_canonical item language pool).balanced other
    rw [Stream.flatSteps_cons, List.map_append]
    exact first.append (ih _)

/-- **Canonical forms are flat.** The canonical form of an item is a step, or a pack of nothing but
steps, so that taking a pack apart once is flattening it. There are at most five steps, and among
them at most one that sets metadata or asks for a solution. Metadata comes from the command of
SMT-LIB that sets it, and is an attribute. In the other languages an item drops no scope but those
that it opened, and leaves none of them open; the same holds of whole inputs. -/
theorem canonical_forms_flat (language : Language) :
    (∀ (item : Item Pooled) (pool : Pool),
      let s := (item.canonical language pool).1.statement
      (∀ items label, s = .pack items label → ∀ member ∈ items, ∃ t, member = .step t) ∧
      s.members = s.flatten.map .step ∧
      s.flatten.length ≤ 5 ∧
      s.actions.countP Action.isProve + s.actions.countP Action.isSetInfo ≤ 1 ∧
      (∀ info, .setInfo info ∈ s.actions →
        language = .smtlib ∧ item.keyword = "set-info" ∧ info.attribute?.isSome) ∧
      (language ≠ .smtlib → Balanced s.actions)) ∧
    (language ≠ .smtlib → ∀ (items : List (Item Pooled)) (pool : Pool),
      Balanced ((Stream.flatSteps language items pool).map Step.action)) := by
  refine ⟨fun item pool => ?_, balanced_flatSteps⟩
  intro s
  have performs : item.Performs language s.actions := performs_canonical item language pool
  have members : s.members = s.flatten.map .step :=
    (item.outline_canonical language pool).members_eq
  refine ⟨?_, members, ?_, ?_, ?_, performs.balanced⟩
  · intro items label packed member mem
    have inside : member ∈ s.members := by
      rw [packed]
      exact mem
    rw [members] at inside
    obtain ⟨t, _, same⟩ := List.mem_map.mp inside
    exact ⟨t, same.symm⟩
  · have short := performs.length_le
    rwa [Statement.actions, List.length_map] at short
  · rw [countP_isProve_add_countP_isSetInfo]
    exact performs.countP_concernsHeaders_le
  · intro info mem
    obtain ⟨smtlib, keyword, _, keyed⟩ := performs.setInfo mem
    exact ⟨smtlib, keyword, keyed⟩

/-- A goal of Zf is a pack of two steps, metadata of SMT-LIB is what it was given, and a conjecture
of TPTP closes the scope that it opens, also when it comes twice. -/
theorem goal_info_conjecture_flat :
    let p : Pooled := Pool.constant true
    let info : Pooled := .mk ⟨2, none⟩ (.symbol (.attr ":source"))
    let goal : Item Pooled := { keyword := "goal", args := [p] }
    let metadata : Item Pooled := { keyword := "set-info", args := [info] }
    let conjecture : Item Pooled := { keyword := "conjecture", args := [p] }
    let attempt : List (Action Pooled) := [.push 1, .goal p, .prove [], .pop 1, .assume p]
    (∃ items label, (goal.canonical .zf .new).1.statement = .pack items label ∧
      ∀ member ∈ items, ∃ t, member = .step t) ∧
    (metadata.canonical .smtlib .new).1.statement.actions = [.setInfo info] ∧
    info.attribute?.isSome ∧
    (conjecture.canonical .tptp .new).1.statement.actions = attempt ∧ Balanced attempt ∧
    Balanced ((Stream.flatSteps .tptp [conjecture, conjecture] .new).map Step.action) := by
  intro p info goal metadata conjecture attempt
  obtain ⟨zf, _⟩ := canonical_forms_flat .zf
  obtain ⟨smtlib, _⟩ := canonical_forms_flat .smtlib
  obtain ⟨tptp, whole⟩ := canonical_forms_flat .tptp
  obtain ⟨packed, _⟩ := zf goal .new
  obtain ⟨_, _, _, _, told, _⟩ := smtlib metadata .new
  obtain ⟨_, _, _, _, _, balanced⟩ := tptp conjecture .new
  exact ⟨⟨_, _, rfl, packed _ _ rfl⟩, rfl, (told info List.mem_cons_self).2.2, rfl,
    balanced nofun, whole nofun _ .new⟩

end Item

end ProblemIntake
