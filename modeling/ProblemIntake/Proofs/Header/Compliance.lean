import ProblemIntake.Proofs.Header.Status

/-! What the settings demand of the headers of a whole input, and which steps are reported as
errors. -/

namespace ProblemIntake

/-- An error among the diagnostics. -/
def Event.isError : Event → Bool
  | .diagnosed d => d.isError
  | _ => false

/-- No error is told. -/
def ErrorFree (events : List Event) : Prop :=
  ∀ e ∈ events, e.isError = false

instance (events : List Event) : Decidable (ErrorFree events) :=
  inferInstanceAs (Decidable (∀ e ∈ events, e.isError = false))

@[simp] theorem errorFree_nil : ErrorFree [] := by
  simp [ErrorFree]

@[simp] theorem errorFree_append {events more : List Event} :
    ErrorFree (events ++ more) ↔ ErrorFree events ∧ ErrorFree more := by
  simp only [ErrorFree, List.mem_append, or_imp, forall_and]

@[simp] theorem errorFree_cons {e : Event} {events : List Event} :
    ErrorFree (e :: events) ↔ e.isError = false ∧ ErrorFree events := by
  simp [ErrorFree]

@[simp] theorem isError_diagnosis (config : Config) (severity : Severity) (loc : Option Span)
    (cause : Cause) : (config.diagnosis severity loc cause).isError = (severity == .error) := rfl

@[simp] theorem isError_declared (field : Field) (value : String) :
    (Event.declared field value).isError = false := rfl

@[simp] theorem isError_consumed (status : String) : (Event.consumed status).isError = false := rfl

theorem hasErrors_eq_false_iff (ctx : Context) :
    ctx.hasErrors = false ↔ ErrorFree ctx.journal.toList := by
  simp only [Context.hasErrors, Context.diagnostics, diagnosticsOf, List.any_filterMap,
    List.any_eq_false, ErrorFree]
  refine forall₂_congr fun e _ => ?_
  cases e <;> simp [Event.diagnostic?, Event.isError]

theorem Diagnostic.isError_iff {d : Diagnostic} : d.isError ↔ d.severity = .error :=
  beq_iff_eq

theorem Diagnostic.not_isError_iff {d : Diagnostic} : ¬ d.isError ↔ d.severity = .warning := by
  rw [isError_iff]
  cases d.severity <;> simp

theorem Context.errorFree_iff {ctx : Context} :
    ErrorFree ctx.journal.toList ↔ ∀ d ∈ ctx.diagnostics, d.severity ≠ .error := by
  rw [← hasErrors_eq_false_iff, Context.hasErrors, List.any_eq_false]
  exact forall₂_congr fun d _ => not_congr Diagnostic.isError_iff

/-- What the settings demand of the steps of a whole input. -/
structure Compliant (config : Config) (steps : List (Step Pooled)) : Prop where
  /-- No header is malformed. -/
  wellFormed : ∀ s ∈ steps, ∀ place fault, s.reading config.language ≠ .malformed place fault
  /-- Declared licenses are allowed, unless all of them are. -/
  licenses : ∀ s ∈ steps, ∀ value, s.reading config.language = .declares .license value →
    config.allowedLicenses ≠ [] → value ∈ config.allowedLicenses
  /-- Declared versions are allowed, unless all of them are. -/
  versions : ∀ s ∈ steps, ∀ value, s.reading config.language = .declares .languageVersion value →
    config.allowedVersions ≠ [] → value ∈ config.allowedVersions
  /-- Each solve request has a status, declared after the solve request before it. -/
  statuses : ∀ before request rest, steps = before ++ request :: rest → request.isProve →
    Step.Announced config.language before
  /-- Each required field is declared. -/
  required : ∀ field ∈ Field.required config.language, ∃ s ∈ steps, ∃ value,
    s.reading config.language = .declares field value

theorem Config.disallowed?_eq_none_iff {config : Config} {field : Field} {value : String} :
    config.disallowed? field value = none ↔
      (field = .license → config.allowedLicenses ≠ [] → value ∈ config.allowedLicenses) ∧
      (field = .languageVersion → config.allowedVersions ≠ [] →
        value ∈ config.allowedVersions) := by
  cases field <;> simp [Config.disallowed?, or_iff_not_imp_left]

theorem Field.required_lasting {language : Option Language} {field : Field}
    (required : field ∈ Field.required language) : field ≠ .status := by
  rintro rfl
  unfold Field.required at required
  split at required
  · exact absurd required (by decide)
  · exact List.not_mem_nil required

namespace Record

theorem errorFree_check_iff {config : Config} {r : Record} {s : Step Pooled} :
    ErrorFree (r.check config s).2 ↔
      (∀ place fault, s.reading config.language ≠ .malformed place fault) ∧
      (∀ field value, s.reading config.language = .declares field value →
        config.disallowed? field value = none) ∧
      (s.isProve → r.get? .status ≠ none) := by
  rcases check_cases config s with
    ⟨f, value, declares, passive⟩ | ⟨place, fault, malformed, passive⟩ | request | ⟨other, passive⟩
  · rw [check_of_declares declares]
    cases refused : config.disallowed? f value <;>
      simp [declares, passive, refused]
  · simp [check_of_malformed malformed, malformed]
  · rw [check_of_isProve request, consume]
    cases held : r.get? .status <;>
      simp [Step.reading_of_isProve request, request]
  · simp [check_of_other other passive, other, passive]

theorem errorFree_told_iff {config : Config} {steps : List (Step Pooled)} :
    ErrorFree (empty.told config steps) ↔
      ∀ before s rest, steps = before ++ s :: rest →
        ErrorFree ((empty.after config before).check config s).2 := by
  constructor
  · intro free before s rest split e mem
    exact free e (mem_told_iff.mpr ⟨before, s, rest, split, mem⟩)
  · intro free e mem
    obtain ⟨before, s, rest, split, now⟩ := mem_told_iff.mp mem
    exact free before s rest split e now

/-- If nothing is reported, no header is malformed, and every declared value is allowed. -/
theorem sound_of_errorFree {config : Config} {steps : List (Step Pooled)}
    (free : ErrorFree (empty.told config steps)) {s : Step Pooled} (mem : s ∈ steps) :
    (∀ place fault, s.reading config.language ≠ .malformed place fault) ∧
    (∀ field value, s.reading config.language = .declares field value →
      config.disallowed? field value = none) := by
  obtain ⟨before, rest, split⟩ := List.append_of_mem mem
  have ok := errorFree_check_iff.mp (errorFree_told_iff.mp free before s rest split)
  exact ⟨ok.1, ok.2.1⟩

/-- A required field is missing in the end exactly if no step declares it. -/
theorem missing_required_iff (config : Config) (steps : List (Step Pooled)) :
    (empty.after config steps).missing config (Field.required config.language) = [] ↔
      ∀ field ∈ Field.required config.language, ∃ s ∈ steps, ∃ value,
        s.reading config.language = .declares field value := by
  rw [missing, List.map_eq_nil_iff, List.filter_eq_nil_iff]
  refine forall₂_congr fun field required => ?_
  rw [Bool.not_eq_true', Bool.not_eq_false, contains_eq_isSome_get?, ← Option.ne_none_iff_isSome,
    get?_after config empty (Field.required_lasting required), get?_empty, Option.or_none, ne_eq,
    Step.lastDeclared?_eq_none_iff]
  simp only [ne_eq, not_forall, not_not, exists_prop]

theorem errorFree_review_iff {config : Config} {r : Record} :
    ErrorFree (r.review config) ↔ r.missing config (Field.required config.language) = [] := by
  unfold review
  rw [errorFree_append]
  constructor
  · rintro ⟨-, free⟩
    split at free
    · assumption
    · simp at free
  · intro none
    rw [none]
    refine ⟨?_, errorFree_nil⟩
    split
    · exact errorFree_nil
    · simp

/-- An input is free of errors, up to the last report, exactly if it complies. -/
theorem errorFree_iff_compliant (config : Config) (steps : List (Step Pooled)) :
    ErrorFree (empty.told config steps) ∧ ErrorFree ((empty.after config steps).review config) ↔
      Compliant config steps := by
  rw [errorFree_review_iff, missing_required_iff]
  constructor
  · rintro ⟨free, required⟩
    have allowed {s : Step Pooled} (mem : s ∈ steps) {field : Field} {value : String}
        (declares : s.reading config.language = .declares field value) :=
      Config.disallowed?_eq_none_iff.mp ((sound_of_errorFree free mem).2 field value declares)
    refine ⟨fun s mem => (sound_of_errorFree free mem).1, ?_, ?_, ?_, required⟩
    · intro s mem value declares
      exact (allowed mem declares).1 rfl
    · intro s mem value declares
      exact (allowed mem declares).2 rfl
    · intro before request rest split prove
      rw [announced_iff_get?_status]
      have held := errorFree_told_iff.mp free before request rest split
      exact (errorFree_check_iff.mp held).2.2 prove
  · intro compliant
    refine ⟨errorFree_told_iff.mpr ?_, compliant.required⟩
    intro before s rest split
    have mem : s ∈ steps := by simp [split]
    refine errorFree_check_iff.mpr ⟨compliant.wellFormed s mem, ?_, ?_⟩
    · intro field value declares
      refine Config.disallowed?_eq_none_iff.mpr ⟨?_, ?_⟩
      · rintro rfl
        exact compliant.licenses s mem value declares
      · rintro rfl
        exact compliant.versions s mem value declares
    · intro prove
      rw [← announced_iff_get?_status]
      exact compliant.statuses before s rest split prove

end Record

end ProblemIntake
