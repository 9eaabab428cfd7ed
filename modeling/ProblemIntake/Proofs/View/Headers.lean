import ProblemIntake.Proofs.Header.Compliance
import ProblemIntake.Proofs.View.Basic

namespace ProblemIntake

namespace View

/-- What an attribute says, as it is seen. -/
def reading (v : View) : Reading → Reading
  | .malformed loc fault => .malformed (v.place loc) fault
  | r => r

variable {v : View}

theorem Alike.value? {t t' : Pooled} (alike : v.Alike t t') (field : Field) :
    field.value? t = field.value? t' := by
  cases field with
  | languageVersion | problemVersion => exact alike.literal? .decimal
  | source => exact alike.keyword?
  | license | category => exact alike.literal? .string
  | status =>
    unfold Field.value?
    rw [alike.symbol?]

theorem ofArguments_alike {t t' : Pooled} {args args' : List Pooled} (alike : v.Alike t t')
    (values : List.Forall₂ v.Alike args args') (field : Field) (keyword : String) :
    v.reading (.ofArguments t field keyword args) =
      v.reading (.ofArguments t' field keyword args') := by
  have blamed {u u' : Pooled} (first : v.Alike u u') :
      v.place (u.loc.or t.loc) = v.place (u'.loc.or t'.loc) := by
    rw [place_or, place_or, first.place, alike.place]
  rcases values with _ | ⟨first, _ | ⟨second, rest⟩⟩
  · exact congrArg (Reading.malformed · _) alike.place
  · unfold Reading.ofArguments
    dsimp only
    rw [first.value? field]
    split
    · rfl
    · exact congrArg (Reading.malformed · _) (blamed first)
  · exact congrArg (Reading.malformed · _) (blamed first)

theorem reading_alike {t t' : Pooled} (alike : v.Alike t t') (language : Option Language) :
    v.reading (.ofTerm language t) = v.reading (.ofTerm language t') := by
  unfold Reading.ofTerm
  rcases alike.attribute?_cases with ⟨none, none'⟩ | ⟨keyword, args, args', some, some', values⟩
  · rw [none, none']
  · rw [some, some']
    dsimp only
    cases Field.ofKeyword? language keyword with
    | none => rfl
    | some field => exact ofArguments_alike alike values field keyword

/-- What comes of a check, as it is seen. Headers are texts, and always seen. -/
def checked (v : View) (outcome : Record × List Event) : Record × List Event :=
  (outcome.1, outcome.2.map v.event)

theorem event_diagnosis (config : Config) (severity : Severity) (loc : Option Span)
    (cause : Cause) :
    v.event (config.diagnosis severity loc cause) =
      config.diagnosis severity (v.place loc) cause := rfl

theorem follow_alike {loc loc' : Option Span} {rd rd' : Reading}
    (places : v.place loc = v.place loc') (readings : v.reading rd = v.reading rd')
    (config : Config) (r : Record) :
    v.checked (r.follow config loc rd) = v.checked (r.follow config loc' rd') := by
  cases rd with
  | declares field value =>
    cases rd' with
    | declares field' value' =>
      cases readings
      simp only [Record.follow, checked, List.map_append, List.map_map, Function.comp_def,
        event_diagnosis, places]
    | malformed | other => cases readings
  | malformed place fault =>
    cases rd' with
    | malformed place' fault' =>
      obtain ⟨blamed, rfl⟩ := Reading.malformed.inj readings
      simp only [Record.follow, checked, List.map_cons, List.map_nil, event_diagnosis, blamed]
    | declares | other => cases readings
  | other =>
    cases rd' with
    | other => rfl
    | declares | malformed => cases readings

theorem consume_alike {loc loc' : Option Span} (places : v.place loc = v.place loc')
    (config : Config) (r : Record) :
    v.checked (r.consume config loc) = v.checked (r.consume config loc') := by
  unfold Record.consume
  cases r.get? .status with
  | some status => rfl
  | none => simp only [checked, List.map_cons, List.map_nil, event_diagnosis, places]

theorem isProve_step (s : Step Pooled) : (v.step s).isProve = s.isProve := by
  unfold Step.isProve step
  cases s.action <;> rfl

theorem info?_step (s : Step Pooled) : (v.step s).action.info? = s.action.info?.map v.term := by
  unfold step
  cases s.action <;> rfl

theorem stepReading_alike {s s' : Step Pooled} (alike : v.step s = v.step s')
    (language : Option Language) :
    v.reading (s.reading language) = v.reading (s'.reading language) := by
  have infos : s.action.info?.map v.term = s'.action.info?.map v.term := by
    rw [← info?_step, alike, info?_step]
  rw [Step.reading_eq, Step.reading_eq]
  rcases option_cases infos with ⟨none, none'⟩ | ⟨info, info', some, some', seen⟩
  · rw [none, none']
  · rw [some, some']
    exact reading_alike seen language

theorem check_alike {s s' : Step Pooled} (alike : v.step s = v.step s') (config : Config)
    (r : Record) : v.checked (r.check config s) = v.checked (r.check config s') := by
  have requests : s.isProve = s'.isProve := by
    rw [← isProve_step (v := v), alike, isProve_step]
  have places : v.place s.label.loc = v.place s'.label.loc :=
    congrArg (fun s => s.label.loc) alike
  rw [Record.check_eq, Record.check_eq, requests]
  split
  · exact consume_alike places config r
  · exact follow_alike places (stepReading_alike alike config.language) config r

variable {steps steps' : List (Step Pooled)}

/-- The induction is on the two rows at once: after one step each the headers are the same. -/
theorem steps_alike (alike : steps.map v.step = steps'.map v.step) (config : Config) (r : Record) :
    r.after config steps = r.after config steps' ∧
      (r.told config steps).map v.event = (r.told config steps').map v.event := by
  induction steps generalizing r steps' with
  | nil =>
    rw [List.map_eq_nil_iff.mp alike.symm]
    exact ⟨rfl, rfl⟩
  | cons s steps ih =>
    cases steps' with
    | nil => cases alike
    | cons s' steps' =>
      obtain ⟨first, rest⟩ := List.cons.inj alike
      obtain ⟨headers, events⟩ := Prod.mk.inj (check_alike first config r)
      obtain ⟨after, told⟩ := ih rest (r.check config s).1
      rw [headers] at after told
      rw [Record.after_cons, Record.after_cons, Record.told, Record.told, List.map_append,
        List.map_append, events, headers]
      exact ⟨after, congrArg _ told⟩

end View

end ProblemIntake
