import ProblemIntake.Proofs.Header.Grammar
import ProblemIntake.Proofs.Stream.Log
import ProblemIntake.Proofs.Stream.Recorded

/-! At the end of a stream the fields without a declaration are reported, and nothing else is. -/

namespace ProblemIntake

namespace Step

/-- No step declares the field. -/
def Undeclared (language : Option Language) (field : Field) (steps : List (Step Pooled)) : Prop :=
  ∀ s ∈ steps, ∀ value, s.reading language ≠ .declares field value

instance (language : Option Language) (field : Field) (steps : List (Step Pooled)) :
    Decidable (Undeclared language field steps) :=
  decidable_of_iff _ lastDeclared?_eq_none_iff

/-- The step sets an attribute with the field's keyword, whatever the value. -/
def Addresses (language : Option Language) (field : Field) (s : Step Pooled) : Prop :=
  ∃ info keyword args, s.action = .setInfo info ∧ info.Addresses language field keyword args

theorem addresses_of_declares {language : Option Language} {field : Field} {s : Step Pooled}
    {value : String} (declares : s.reading language = .declares field value) :
    s.Addresses language field := by
  obtain ⟨info, action, reads⟩ := setInfo_of_declares declares
  obtain ⟨keyword, v, addresses⟩ := (Reading.ofTerm_eq_declares_iff.mp reads).addresses
  exact ⟨info, keyword, [v], action, addresses⟩

/-- Malformed values do not declare a field. -/
theorem undeclared_of_malformed {language : Option Language} {field : Field}
    {steps : List (Step Pooled)} (malformed : ∀ s ∈ steps, s.Addresses language field →
      ∃ place fault, s.reading language = .malformed place fault) :
    Undeclared language field steps := by
  intro s mem value declares
  obtain ⟨place, fault, reads⟩ := malformed s mem (addresses_of_declares declares)
  rw [declares] at reads
  cases reads

end Step

theorem Field.wanted_lasting {language : Option Language} {field : Field}
    (wanted : field ∈ Field.wanted language) : field ≠ .status := by
  rintro rfl
  unfold Field.wanted at wanted
  split at wanted
  · exact absurd wanted (by decide)
  · exact List.not_mem_nil wanted

/-- The names of those of the fields that no step declares, in the order they are listed. -/
def Step.undeclared (language : Option Language) (fields : List Field)
    (steps : List (Step Pooled)) : List String :=
  (fields.filter (Undeclared language · steps)).map (Field.name language)

/-- One diagnostic, without a place, that names the fields that no step declares. If there are
none, it is left out. -/
def Config.shortfall (config : Config) (severity : Severity)
    (problem : List String → HeaderProblem) (fields : List Field) (steps : List (Step Pooled)) :
    List Diagnostic :=
  if ∃ field ∈ fields, Step.Undeclared config.language field steps then
    [⟨severity, ⟨config.inputFile, none⟩,
      .header (problem (Step.undeclared config.language fields steps))⟩]
  else []

variable {config : Config} {steps : List (Step Pooled)}

/-- What the diagnostic says is the text of its problem, with the names of the fields in it. -/
theorem Config.text_of_mem_shortfall {severity : Severity} {problem : List String → HeaderProblem}
    {fields : List Field} {d : Diagnostic}
    (mem : d ∈ config.shortfall severity problem fields steps) :
    d.cause.text = (problem (Step.undeclared config.language fields steps)).text := by
  unfold shortfall at mem
  split at mem
  · rw [List.mem_singleton.mp mem]
    rfl
  · cases mem

namespace Record

/-- Nothing but a solve request takes a field from the record, and it takes the status only. -/
theorem contains_after_iff {field : Field} (lasting : field ≠ .status) :
    (empty.after config steps).contains field = false ↔
      Step.Undeclared config.language field steps := by
  rw [contains_eq_isSome_get?, get?_after config empty lasting, get?_empty, Option.or_none,
    Option.isSome_eq_false_iff, Option.isNone_iff_eq_none, Step.lastDeclared?_eq_none_iff]
  rfl

theorem missing_after {fields : List Field} (lasting : ∀ field ∈ fields, field ≠ .status) :
    (empty.after config steps).missing config fields =
      Step.undeclared config.language fields steps := by
  rw [missing, Step.undeclared]
  congr 1
  refine List.filter_congr fun field mem => ?_
  rw [Bool.eq_iff_iff, Bool.not_eq_true', contains_after_iff (lasting field mem),
    decide_eq_true_eq]

/-- Missing fields are reported by one diagnostic that names them. -/
theorem shortfall_eq {fields : List Field} (lasting : ∀ field ∈ fields, field ≠ .status)
    (severity : Severity) (problem : List String → HeaderProblem) :
    config.shortfall severity problem fields steps =
      diagnosticsOf (match (empty.after config steps).missing config fields with
        | [] => []
        | names => [config.diagnosis severity none (.header (problem names))]) := by
  rw [missing_after lasting]
  unfold Config.shortfall
  split
  · rename_i reported
    obtain ⟨field, mem, undeclared⟩ := reported
    have named : Step.undeclared config.language fields steps ≠ [] := by
      rw [ne_eq, Step.undeclared, List.map_eq_nil_iff, List.filter_eq_nil_iff]
      exact fun declared => declared field mem (decide_eq_true undeclared)
    split
    · exact absurd ‹_› named
    · rfl
  · rename_i declared
    have complete : Step.undeclared config.language fields steps = [] := by
      rw [Step.undeclared, List.map_eq_nil_iff, List.filter_eq_nil_iff]
      exact fun field mem undeclared => declared ⟨field, mem, of_decide_eq_true undeclared⟩
    rw [complete]
    rfl

/-- The last report can be told from the steps alone. -/
theorem diagnosticsOf_review_after (config : Config) (steps : List (Step Pooled)) :
    diagnosticsOf ((empty.after config steps).review config) =
      config.shortfall .warning .missingWanted (Field.wanted config.language) steps ++
        config.shortfall .error .missingRequired (Field.required config.language) steps := by
  rw [shortfall_eq fun _ => Field.wanted_lasting, shortfall_eq fun _ => Field.required_lasting]
  exact diagnosticsOf_append _ _

end Record

namespace Stream

theorem diagnostics_close_of_enabled {s : Stream} (enabled : s.context.config.checkHeaders = true) :
    s.close.context.diagnostics =
      s.context.diagnostics ++ diagnosticsOf (s.context.headers.review s.context.config) := by
  rw [diagnostics_close_eq_conclude, Context.conclude, if_pos enabled, Context.diagnostics_tell]

/-- **What was never declared is reported at the end.** If headers are checked, a run ends with two
diagnostics at most, both without a place: a warning whose text names the wanted fields that no step
declares, if there are any, and then an error whose text names the required ones, if there are any.
They come after all that was reported about the items, whatever that was, and the headers stay as
they are. Malformed values do not declare a field. Any other value does, be it allowed or not, and
whatever comes later. -/
theorem undeclared_reported_at_end (config : Config) (pool : Pool) (opened : Stream)
    (started : start config pool = .ok opened) (enabled : config.checkHeaders = true)
    (items : List (Item Pooled)) :
    let steps := flatSteps opened.language items pool
    let fed := opened.feedAll items
    let wanted := config.shortfall .warning .missingWanted (Field.wanted opened.language) steps
    let required := config.shortfall .error .missingRequired (Field.required opened.language) steps
    (run config items pool).diagnostics? = some (fed.context.diagnostics ++ (wanted ++ required)) ∧
    (∀ d ∈ wanted, d.cause.text =
      "the following header fields are missing, default values will be assumed: " ++
        ", ".intercalate (Step.undeclared opened.language (Field.wanted opened.language) steps)) ∧
    (∀ d ∈ required, d.cause.text = "the following header fields are missing: " ++
      ", ".intercalate (Step.undeclared opened.language (Field.required opened.language) steps)) ∧
    fed.close.context.headers = fed.context.headers ∧
    (∀ field, (∀ s ∈ steps, s.Addresses opened.language field →
        ∃ place fault, s.reading opened.language = .malformed place fault) →
      Step.Undeclared opened.language field steps) ∧
    (∀ field, (∃ s ∈ steps, ∃ value, s.reading opened.language = .declares field value) →
      ¬ Step.Undeclared opened.language field steps) := by
  intro steps fed wanted required
  obtain ⟨language, chosen, rfl⟩ := start_eq_ok_iff.mp started
  refine ⟨?_, fun d mem => ?_, fun d mem => ?_, headers_close fed,
    fun field => Step.undeclared_of_malformed, ?_⟩
  · have closed := diagnostics_close_of_enabled (s := fed) (by rwa [config_feedAll])
    rw [headers_fresh_of_enabled enabled, config_feedAll, config_fresh,
      Record.diagnosticsOf_review_after, chosen] at closed
    rw [diagnostics?_run chosen, journal_run chosen]
    exact congrArg some closed
  · rw [Config.text_of_mem_shortfall mem, chosen]
    rfl
  · rw [Config.text_of_mem_shortfall mem, chosen]
    rfl
  · rintro field ⟨s, mem, value, declares⟩ undeclared
    exact undeclared s mem value declares

/-- A license that is malformed and a category that is not there are reported. A source that is
malformed later, and a version that is not allowed, are not. Without any items all the fields are
reported. -/
theorem license_and_category_reported :
    let config : Config :=
      { language := some .smtlib, checkHeaders := true, allowedVersions := ["2.6"] }
    let term (number : Nat) (shape : Shape Pooled) : Pooled := .mk ⟨number, none⟩ shape
    let info (number : Nat) (key : String) (value : Symbol) : Item Pooled :=
      { keyword := "set-info"
        args := [term number (.app (term (number + 1) (.symbol (.attr key)))
          [term (number + 2) (.symbol value)])] }
    let items := [
      info 2 ":license" (.attr "MIT"),
      info 5 ":source" (.attr "Handcrafted"),
      info 8 ":source" (.term "Handcrafted"),
      info 11 ":smt-lib-version" ⟨"2.0", .literal .decimal⟩]
    let ended (wanted required : List String) : List Diagnostic :=
      [⟨.warning, ⟨"<input>", none⟩, .header (.missingWanted wanted)⟩,
        ⟨.error, ⟨"<input>", none⟩, .header (.missingRequired required)⟩]
    let all := ended [":license"] [":smt-lib-version", ":source", ":category"]
    ∃ opened, start config .new = .ok opened ∧ config.checkHeaders = true ∧
      (run config items .new).diagnostics? = some ((opened.feedAll items).context.diagnostics ++
        ended [":license"] [":category"]) ∧
      (run config [] .new).diagnostics? = some all ∧
      all.map (·.cause.text) =
        ["the following header fields are missing, default values will be assumed: :license",
          "the following header fields are missing: :smt-lib-version, :source, :category"] := by
  intro config term info items ended all
  obtain ⟨reported, _⟩ := undeclared_reported_at_end config .new _ rfl rfl items
  obtain ⟨complete, wanted, required, _⟩ := undeclared_reported_at_end config .new _ rfl rfl []
  refine ⟨_, rfl, rfl, reported, complete, ?_⟩
  have warned := wanted _ List.mem_cons_self
  have refused := required _ List.mem_cons_self
  exact congrArg₂ (fun first second => [first, second]) warned refused

end Stream

end ProblemIntake
