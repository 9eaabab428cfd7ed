import Mathlib.Data.List.Induction
import ProblemIntake.Context
import ProblemIntake.Proofs.Header.Listing

/-!
# Headers along a sequence of steps

Header checks read a statement step by step, so everything they do can be told from the flat
sequence of steps.

* `Record.check_cases`: a step declares a field, is malformed, asks for a solution, or leaves the
  checks alone, and this is all a check can do;
* `Record.get?_after`: a field other than the status holds the value declared last.
-/

namespace ProblemIntake

/-- The attribute that an action sets as metadata. -/
def Action.info? {ρ : Type} : Action ρ → Option ρ
  | .setInfo info => some info
  | _ => none

namespace Step

/-- What a step says about the headers in the given language. -/
def reading (language : Option Language) (s : Step Pooled) : Reading :=
  match s.action with
  | .setInfo info => .ofTerm language info
  | _ => .other

/-- The value a step declares for the field. -/
def declared? (language : Option Language) (field : Field) (s : Step Pooled) : Option String :=
  match s.reading language with
  | .declares f value => if f = field then some value else none
  | _ => none

theorem reading_eq (language : Option Language) (s : Step Pooled) :
    s.reading language =
      match s.action.info? with
      | some info => .ofTerm language info
      | none => .other := by
  unfold reading
  cases s.action <;> rfl

/-- A solve request. -/
def isProve {ρ : Type} (s : Step ρ) : Bool := s.action.isProve

theorem reading_of_isProve {s : Step Pooled} (request : s.isProve) (language : Option Language) :
    s.reading language = .other := by
  unfold reading
  split
  · rename_i info action
    simp [isProve, action, Action.isProve] at request
  · rfl

theorem declared?_eq_some_iff {language : Option Language} {field : Field} {s : Step Pooled}
    {value : String} :
    s.declared? language field = some value ↔ s.reading language = .declares field value := by
  unfold declared?
  split
  · rename_i f v reading
    rw [reading]
    by_cases same : f = field <;> simp [same]
  · rename_i other
    simp only [reduceCtorEq, false_iff]
    exact other field value

theorem declared?_of_isProve {s : Step Pooled} (request : s.isProve)
    (language : Option Language) (field : Field) : s.declared? language field = none := by
  simp [declared?, reading_of_isProve request]

/-- The value declared last for the field. -/
def lastDeclared? (language : Option Language) (field : Field) (steps : List (Step Pooled)) :
    Option String :=
  (steps.filterMap (declared? language field)).getLast?

@[simp] theorem lastDeclared?_nil (language : Option Language) (field : Field) :
    lastDeclared? language field [] = none := rfl

theorem lastDeclared?_concat (language : Option Language) (field : Field)
    (steps : List (Step Pooled)) (s : Step Pooled) :
    lastDeclared? language field (steps ++ [s]) =
      (s.declared? language field).or (lastDeclared? language field steps) := by
  rw [lastDeclared?, getLast?_filterMap_concat, lastDeclared?]

theorem lastDeclared?_eq_none_iff {language : Option Language} {field : Field}
    {steps : List (Step Pooled)} :
    lastDeclared? language field steps = none ↔
      ∀ s ∈ steps, ∀ value, s.reading language ≠ .declares field value := by
  rw [lastDeclared?, List.getLast?_eq_none_iff, List.filterMap_eq_nil_iff]
  refine forall₂_congr fun s _ => ?_
  simp only [Option.eq_none_iff_forall_ne_some, ne_eq, declared?_eq_some_iff]

end Step

namespace Record

variable {config : Config} {r : Record} {s : Step Pooled}

/-- A solve request takes the status; of any other step the attribute is followed, if it has one. -/
theorem check_eq (config : Config) (r : Record) (s : Step Pooled) :
    r.check config s =
      if s.isProve then r.consume config s.label.loc
      else r.follow config s.label.loc (s.reading config.language) := by
  unfold check Step.isProve Step.reading
  cases s.action <;> rfl

theorem check_of_declares {field : Field} {value : String}
    (declares : s.reading config.language = .declares field value) :
    r.check config s = (r.set field value,
      ((config.disallowed? field value).toList.map fun problem =>
        config.diagnosis .error s.label.loc (.header problem)) ++ [.declared field value]) := by
  unfold Step.reading at declares
  split at declares
  · rename_i info action
    simp only [check, action, declares, follow]
  · cases declares

theorem check_of_malformed {place : Option Span} {fault : Fault}
    (malformed : s.reading config.language = .malformed place fault) :
    r.check config s =
      (r, [config.diagnosis .error place (.header (.malformed fault))]) := by
  unfold Step.reading at malformed
  split at malformed
  · rename_i info action
    simp only [check, action, malformed, follow]
  · cases malformed

theorem check_of_isProve (request : s.isProve) :
    r.check config s = r.consume config s.label.loc := by
  unfold Step.isProve Action.isProve at request
  split at request
  · rename_i assumptions action
    simp only [check, action]
  · cases request

theorem check_of_other (other : s.reading config.language = .other) (passive : ¬ s.isProve) :
    r.check config s = (r, []) := by
  unfold Step.reading at other
  unfold check
  split at other
  · rename_i info action
    simp only [action, other, follow]
  · rename_i notInfo
    split
    · exact absurd ‹_› (notInfo _)
    · rename_i assumptions action
      simp [Step.isProve, action, Action.isProve] at passive
    · rfl

/-- A step does one of four things to the headers. -/
theorem check_cases (config : Config) (s : Step Pooled) :
    (∃ field value, s.reading config.language = .declares field value ∧ ¬ s.isProve) ∨
    (∃ place fault, s.reading config.language = .malformed place fault ∧ ¬ s.isProve) ∨
    s.isProve ∨
    (s.reading config.language = .other ∧ ¬ s.isProve) := by
  by_cases request : s.isProve
  · exact .inr (.inr (.inl request))
  · cases reading : s.reading config.language with
    | declares field value => exact .inl ⟨field, value, rfl, request⟩
    | malformed place fault => exact .inr (.inl ⟨place, fault, rfl, request⟩)
    | other => exact .inr (.inr (.inr ⟨rfl, request⟩))

theorem get?_consume (config : Config) (loc : Option Span) (r : Record) (field : Field) :
    (r.consume config loc).1.get? field = if field = .status then none else r.get? field := by
  unfold consume
  split
  · exact get?_erase r .status field
  · rename_i absent
    by_cases status : field = .status
    · simp [status, absent]
    · simp [status]

/-- What a field holds after a step: a solve request takes the status, a declaration writes its
own field, and nothing else is changed. -/
theorem get?_check (config : Config) (r : Record) (s : Step Pooled) (field : Field) :
    (r.check config s).1.get? field =
      if s.isProve ∧ field = .status then none
      else (s.declared? config.language field).or (r.get? field) := by
  rcases check_cases config s with
    ⟨f, value, declares, passive⟩ | ⟨place, fault, malformed, passive⟩ | request | ⟨other, passive⟩
  · rw [check_of_declares declares, get?_set]
    by_cases same : f = field
    · simp [Step.declared?, declares, passive, same]
    · simp [Step.declared?, declares, passive, same, Ne.symm same]
  · simp [check_of_malformed malformed, Step.declared?, malformed, passive]
  · simp [check_of_isProve request, get?_consume, request, Step.declared?_of_isProve request]
  · simp [check_of_other other passive, Step.declared?, other, passive]

/-- The record after steps in a row. -/
def after (config : Config) (r : Record) (steps : List (Step Pooled)) : Record :=
  steps.foldl (fun r s => (r.check config s).1) r

/-- All there is to tell about steps in a row. -/
def told (config : Config) (r : Record) : List (Step Pooled) → List Event
  | [] => []
  | s :: steps => (r.check config s).2 ++ told config (r.check config s).1 steps

@[simp] theorem after_nil (config : Config) (r : Record) : r.after config [] = r := rfl

@[simp] theorem after_cons (config : Config) (r : Record) (s : Step Pooled)
    (steps : List (Step Pooled)) :
    r.after config (s :: steps) = (r.check config s).1.after config steps := rfl

theorem after_append (config : Config) (r : Record) (steps more : List (Step Pooled)) :
    r.after config (steps ++ more) = (r.after config steps).after config more := by
  simp only [after, List.foldl_append]

theorem after_concat (config : Config) (r : Record) (steps : List (Step Pooled))
    (s : Step Pooled) :
    r.after config (steps ++ [s]) = ((r.after config steps).check config s).1 :=
  after_append config r steps [s]

@[simp] theorem told_nil (config : Config) (r : Record) : r.told config [] = [] := rfl

theorem told_append (config : Config) (r : Record) (steps more : List (Step Pooled)) :
    r.told config (steps ++ more) =
      r.told config steps ++ (r.after config steps).told config more := by
  induction steps generalizing r with
  | nil => rfl
  | cons s steps ih =>
    simp only [List.cons_append, told, ih, after_cons, List.append_assoc]

/-- Every event is told by one of the steps, from the record the earlier steps left. -/
theorem mem_told_iff {config : Config} {r : Record} {steps : List (Step Pooled)} {e : Event} :
    e ∈ r.told config steps ↔
      ∃ before s rest, steps = before ++ s :: rest ∧
        e ∈ ((r.after config before).check config s).2 := by
  induction steps generalizing r with
  | nil => simp
  | cons s steps ih =>
    rw [told, List.mem_append, ih]
    constructor
    · rintro (now | ⟨before, t, rest, rfl, later⟩)
      · exact ⟨[], s, steps, rfl, now⟩
      · exact ⟨s :: before, t, rest, rfl, later⟩
    · rintro ⟨before, t, rest, split, mem⟩
      cases before with
      | nil =>
        obtain ⟨rfl, rfl⟩ := List.cons.inj split
        exact .inl mem
      | cons u before =>
        obtain ⟨rfl, rfl⟩ := List.cons.inj split
        exact .inr ⟨before, t, rest, rfl, mem⟩

/-- A field other than the status holds the value declared last. -/
theorem get?_after (config : Config) (r : Record) {field : Field} (lasting : field ≠ .status)
    (steps : List (Step Pooled)) :
    (r.after config steps).get? field =
      (Step.lastDeclared? config.language field steps).or (r.get? field) := by
  induction steps using List.reverseRecOn with
  | nil => rfl
  | append_singleton steps s ih =>
    rw [after_concat, get?_check, ih, Step.lastDeclared?_concat, Option.or_assoc,
      if_neg fun status => lasting status.2]

/-- What a record holds was declared by one of the steps so far. -/
theorem declared_of_get? {config : Config} {steps : List (Step Pooled)} {field : Field}
    {value : String} (held : (empty.after config steps).get? field = some value) :
    ∃ s ∈ steps, s.reading config.language = .declares field value := by
  induction steps using List.reverseRecOn with
  | nil => cases held
  | append_singleton steps s ih =>
    rw [after_concat, get?_check] at held
    split at held
    · cases held
    · rcases Option.or_eq_some_iff.mp held with now | ⟨_, before⟩
      · exact ⟨s, by simp, Step.declared?_eq_some_iff.mp now⟩
      · obtain ⟨t, mem, declares⟩ := ih before
        exact ⟨t, by simp [mem], declares⟩

end Record

/-! ## The context -/

namespace Context

theorem tell_nil (ctx : Context) : ctx.tell [] = ctx := by
  simp [tell]

theorem tell_append (ctx : Context) (events more : List Event) :
    ctx.tell (events ++ more) = (ctx.tell events).tell more := by
  simp [tell, ← Array.toList_inj]

@[simp] theorem diagnostics_tell (ctx : Context) (events : List Event) :
    (ctx.tell events).diagnostics = ctx.diagnostics ++ diagnosticsOf events := by
  simp [diagnostics, tell, diagnosticsOf]

/-- The context after checking steps in a row. -/
def checkSteps (ctx : Context) (steps : List (Step Pooled)) : Context :=
  steps.foldl check ctx

@[simp] theorem checkSteps_nil (ctx : Context) : ctx.checkSteps [] = ctx := rfl

theorem checkSteps_append (ctx : Context) (steps more : List (Step Pooled)) :
    ctx.checkSteps (steps ++ more) = (ctx.checkSteps steps).checkSteps more :=
  List.foldl_append

theorem checkSteps_concat (ctx : Context) (steps : List (Step Pooled)) (s : Step Pooled) :
    ctx.checkSteps (steps ++ [s]) = (ctx.checkSteps steps).check s :=
  checkSteps_append ctx steps [s]

/-- The headers and the journal after steps in a row; the settings stay. -/
theorem checkSteps_eq (ctx : Context) (steps : List (Step Pooled)) :
    ctx.checkSteps steps =
      { ctx.tell (ctx.headers.told ctx.config steps) with
        headers := ctx.headers.after ctx.config steps } := by
  induction steps generalizing ctx with
  | nil => simp [tell_nil]
  | cons s steps ih =>
    rw [checkSteps, List.foldl_cons, ← checkSteps, ih, Record.told, tell_append]
    rfl

@[simp] theorem config_checkSteps (ctx : Context) (steps : List (Step Pooled)) :
    (ctx.checkSteps steps).config = ctx.config := by
  rw [checkSteps_eq]
  rfl

theorem headers_checkSteps (ctx : Context) (steps : List (Step Pooled)) :
    (ctx.checkSteps steps).headers = ctx.headers.after ctx.config steps := by
  rw [checkSteps_eq]

theorem diagnostics_checkSteps (ctx : Context) (steps : List (Step Pooled)) :
    (ctx.checkSteps steps).diagnostics =
      ctx.diagnostics ++ diagnosticsOf (ctx.headers.told ctx.config steps) := by
  rw [checkSteps_eq]
  exact diagnostics_tell ctx _

theorem checkAll_eq_checkSteps (s : Statement Pooled) (ctx : Context) :
    checkAll s ctx = ctx.checkSteps s.flatten := by
  induction s using Statement.induction generalizing ctx with
  | step s => rfl
  | pack items label ih =>
    rw [checkAll_pack, Statement.flatten_pack]
    induction items generalizing ctx with
    | nil => rfl
    | cons item items ihItems =>
      rw [List.foldl_cons, List.flatMap_cons, checkSteps_append, ih item (by simp)]
      exact ihItems (fun s mem => ih s (List.mem_cons_of_mem item mem)) _

theorem examine_of_enabled {ctx : Context} (enabled : ctx.config.checkHeaders = true)
    (s : Statement Pooled) : ctx.examine s = ctx.checkSteps s.flatten := by
  rw [examine, if_pos enabled, checkAll_eq_checkSteps]

theorem examine_of_disabled {ctx : Context} (disabled : ctx.config.checkHeaders = false)
    (s : Statement Pooled) : ctx.examine s = ctx := by
  simp [examine, disabled]

/-- Statements examined one after the other are checked as one flat sequence. -/
theorem foldl_examine {ctx : Context} (enabled : ctx.config.checkHeaders = true)
    (statements : List (Statement Pooled)) :
    statements.foldl examine ctx = ctx.checkSteps (statements.flatMap Statement.flatten) := by
  induction statements generalizing ctx with
  | nil => rfl
  | cons s statements ih =>
    rw [List.foldl_cons, List.flatMap_cons, checkSteps_append, examine_of_enabled enabled]
    exact ih (by rw [config_checkSteps, enabled])

theorem foldl_examine_of_disabled {ctx : Context} (disabled : ctx.config.checkHeaders = false)
    (statements : List (Statement Pooled)) : statements.foldl examine ctx = ctx := by
  induction statements with
  | nil => rfl
  | cons s statements ih => rw [List.foldl_cons, examine_of_disabled disabled, ih]

end Context

end ProblemIntake
