import ProblemIntake.Proofs.Header.Status

/-! A record lists its fields in the order in which they were declared. A field declared again keeps
its place; only the status is ever taken, and it comes last when it is declared anew. -/

namespace ProblemIntake

namespace Step

variable {language : Option Language} {field : Field} {s : Step Pooled}

/-- The step takes the field out of the record: a solve request takes the status. -/
def Takes (field : Field) (s : Step Pooled) : Prop := s.isProve ∧ field = .status

instance (field : Field) (s : Step Pooled) : Decidable (s.Takes field) :=
  inferInstanceAs (Decidable (_ ∧ _))

/-- The position of the first step that declares the field since it was last taken. -/
def opened? (language : Option Language) (field : Field) (steps : List (Step Pooled)) :
    Option Nat :=
  openedAt? (fun s => (s.declared? language field).isSome) (fun s => s.Takes field) steps

theorem not_takes_of_passive (passive : ¬ s.isProve) (field : Field) : ¬ s.Takes field :=
  fun takes => passive takes.1

theorem opened?_concat_of_takes (takes : s.Takes field) (steps : List (Step Pooled)) :
    opened? language field (steps ++ [s]) = none := by
  rw [opened?]
  apply openedAt?_concat_of_closes
  exact decide_eq_true takes

/-- A further step opens the field if it declares it, unless the field is open already. -/
theorem opened?_concat (keeps : ¬ s.Takes field) (steps : List (Step Pooled)) :
    opened? language field (steps ++ [s]) =
      (opened? language field steps).or
        (if (s.declared? language field).isSome then some steps.length else none) := by
  rw [opened?, opened?]
  apply openedAt?_concat
  exact decide_eq_false keeps

/-- A step that declares nothing, and is no solve request, opens and takes nothing. -/
theorem opened?_of_silent (passive : ¬ s.isProve)
    (silent : ∀ field, s.declared? language field = none) (steps : List (Step Pooled)) :
    (fun field => opened? language field (steps ++ [s])) =
      fun field => opened? language field steps := by
  funext field
  rw [opened?_concat (not_takes_of_passive passive field), silent field]
  simp

/-- Steps that do not declare the field do not count. -/
theorem lastDeclared?_append_of_silent {steps more : List (Step Pooled)}
    (silent : ∀ s ∈ more, s.declared? language field = none) :
    lastDeclared? language field (steps ++ more) = lastDeclared? language field steps := by
  rw [lastDeclared?, List.filterMap_append, List.filterMap_eq_nil_iff.mpr silent,
    List.append_nil, lastDeclared?]

end Step

namespace Record

variable {config : Config} {r : Record} {s : Step Pooled} {steps : List (Step Pooled)}

/-- What a step does to the list of fields. -/
theorem fields_check (config : Config) (r : Record) (s : Step Pooled) :
    (r.check config s).1.fields =
      if s.isProve then r.fields.filter (· != .status)
      else match s.reading config.language with
        | .declares field _ => if field ∈ r.fields then r.fields else r.fields ++ [field]
        | _ => r.fields := by
  rcases check_cases config s with
    ⟨f, value, declares, passive⟩ | ⟨place, fault, malformed, passive⟩ | request | ⟨other, passive⟩
  · rw [check_of_declares declares, if_neg passive, declares]
    exact fields_set r f value
  · rw [check_of_malformed malformed, if_neg passive, malformed]
  · rw [check_of_isProve request, if_pos request, consume]
    cases held : r.get? .status with
    | some status => exact fields_erase r .status
    | none =>
      -- Without a status there is nothing to filter out.
      refine (List.filter_eq_self.mpr fun f mem => bne_iff_ne.mpr ?_).symm
      rintro rfl
      exact mem_fields_iff.mp mem held
  · rw [check_of_other other passive, if_neg passive, other]

/-- A solve request takes the status out of its place. -/
theorem listed_prove (request : s.isProve)
    (listed : Listed (fun field => Step.opened? config.language field steps) r.fields) :
    Listed (fun field => Step.opened? config.language field (steps ++ [s]))
      (r.check config s).1.fields := by
  rw [fields_check, if_pos request]
  apply listed.erase
  · exact Step.opened?_concat_of_takes ⟨request, rfl⟩ steps
  · intro f lasting
    have keeps : ¬ s.Takes f := fun takes => lasting takes.2
    rw [Step.opened?_concat keeps, Step.declared?_of_isProve request]
    simp

/-- A declaration opens its field at the end, unless the field is open already. -/
theorem listed_declare {field : Field} {value : String} (passive : ¬ s.isProve)
    (declares : s.reading config.language = .declares field value)
    (listed : Listed (fun field => Step.opened? config.language field steps) r.fields) :
    Listed (fun field => Step.opened? config.language field (steps ++ [s]))
      (r.check config s).1.fields := by
  rw [fields_check, if_neg passive, declares]
  apply listed.insert
  · intro f i opened
    exact openedAt?_lt opened
  · intro f
    rw [Step.opened?_concat (Step.not_takes_of_passive passive f)]
    by_cases same : f = field
    · simp [Step.declared?, declares, same]
    · simp [Step.declared?, declares, same, Ne.symm same]

theorem listed_check (s : Step Pooled)
    (listed : Listed (fun field => Step.opened? config.language field steps) r.fields) :
    Listed (fun field => Step.opened? config.language field (steps ++ [s]))
      (r.check config s).1.fields := by
  rcases check_cases config s with
    ⟨f, value, declares, passive⟩ | ⟨place, fault, malformed, passive⟩ | request | ⟨other, passive⟩
  · exact listed_declare passive declares listed
  · rw [fields_check, if_neg passive, malformed,
      Step.opened?_of_silent passive fun f => by simp [Step.declared?, malformed]]
    exact listed
  · exact listed_prove request listed
  · rw [fields_check, if_neg passive, other,
      Step.opened?_of_silent passive fun f => by simp [Step.declared?, other]]
    exact listed

/-- The fields of a record are listed as they were first declared since they were last taken. -/
theorem listed_after (config : Config) (steps : List (Step Pooled)) :
    Listed (fun field => Step.opened? config.language field steps)
      (empty.after config steps).fields := by
  induction steps using List.reverseRecOn with
  | nil => exact ⟨fun field => iff_of_false List.not_mem_nil (· rfl), .nil⟩
  | append_singleton steps s ih =>
    rw [after_concat]
    exact listed_check s ih

end Record

namespace Context

/-- **Recorded headers are exactly the last declarations.** Statements are examined as the flat
sequence of their steps. A field other than the status holds the value declared last in it, allowed
or not, and no statement without a declaration of the field changes it. The record lists each field
it holds once, with its value, in the order in which the fields were first declared since they were
last taken. If headers are not checked, they stay what they are. -/
theorem headers_follow_declarations (ctx : Context) (statements : List (Statement Pooled)) :
    let language := ctx.config.language
    let steps := statements.flatMap Statement.flatten
    let headers := (statements.foldl examine ctx).headers
    (ctx.config.checkHeaders = true → ctx.headers = .empty →
      (∀ field, field ≠ .status →
        headers.get? field = Step.lastDeclared? language field steps ∧
        ∀ next : Statement Pooled, (∀ s ∈ next.flatten, s.declared? language field = none) →
          ((statements ++ [next]).foldl examine ctx).headers.get? field = headers.get? field) ∧
      headers.fields.Nodup ∧
      (∀ field value, (field, value) ∈ headers.entries ↔ headers.get? field = some value) ∧
      (∀ field, field ∈ headers.fields ↔ Step.opened? language field steps ≠ none) ∧
      headers.fields.Pairwise (Precedes fun field => Step.opened? language field steps)) ∧
    (ctx.config.checkHeaders = false → headers = ctx.headers) := by
  intro language steps headers
  constructor
  · intro enabled fresh
    have held (examined : List (Statement Pooled)) :
        (examined.foldl examine ctx).headers =
          Record.empty.after ctx.config (examined.flatMap Statement.flatten) := by
      rw [foldl_examine enabled, headers_checkSteps, fresh]
    have value (examined : List (Statement Pooled)) {field : Field} (lasting : field ≠ .status) :
        (examined.foldl examine ctx).headers.get? field =
          Step.lastDeclared? language field (examined.flatMap Statement.flatten) := by
      rw [held, Record.get?_after ctx.config _ lasting, Record.get?_empty, Option.or_none]
    have listed : Listed (fun field => Step.opened? language field steps) headers.fields := by
      rw [show headers = _ from held statements]
      exact Record.listed_after ctx.config steps
    refine ⟨fun field lasting => ⟨value statements lasting, fun next silent => ?_⟩,
      headers.nodup_fields, fun _ _ => Record.mem_entries_iff, listed.mem_iff,
      listed.order⟩
    rw [value _ lasting, value _ lasting, List.flatMap_append, List.flatMap_singleton,
      Step.lastDeclared?_append_of_silent silent]
  · intro disabled
    exact congrArg Context.headers (foldl_examine_of_disabled disabled statements)

/-- A license declared again keeps its place. The status is taken by the solve request and comes
last when it is declared again. -/
theorem status_declared_again_comes_last :
    let ctx := Context.new { language := some .smtlib, checkHeaders := true }
    let declaration (number : Nat) (key : String) (value : Symbol) : Statement Pooled :=
      .ofAction (.setInfo (.mk ⟨number, none⟩ (.app (.mk ⟨number + 1, none⟩ (.symbol (.attr key)))
        [.mk ⟨number + 2, none⟩ (.symbol value)])))
    let statements := [
      .pack [declaration 2 ":status" (.term "sat"),
        declaration 5 ":license" ⟨"GPL", .literal .string⟩] {},
      declaration 8 ":license" ⟨"MIT", .literal .string⟩,
      .ofAction (.prove []),
      declaration 11 ":status" (.term "unsat")]
    let steps := statements.flatMap Statement.flatten
    let headers := (statements.foldl examine ctx).headers
    ctx.config.checkHeaders = true ∧ ctx.headers = .empty ∧
    headers.get? .license = some "MIT" ∧ .status ∈ headers.fields ∧
    headers.fields.Pairwise (Precedes fun field => Step.opened? (some .smtlib) field steps) ∧
    Step.opened? (some .smtlib) .license steps = some 1 ∧
    Step.opened? (some .smtlib) .status steps = some 4 := by
  intro ctx declaration statements steps headers
  obtain ⟨values, _, _, fields, order⟩ :=
    (headers_follow_declarations ctx statements).1 rfl rfl
  have license : headers.get? .license = Step.lastDeclared? (some .smtlib) .license steps :=
    (values .license (by decide)).1
  refine ⟨rfl, rfl, license.trans (by decide), (fields .status).mpr (by decide), order, ?_, ?_⟩
  · decide
  · decide

end Context

end ProblemIntake
