import ProblemIntake.Proofs.Header.Complaints
import ProblemIntake.Proofs.Stream.Refusal

/-! A step stands where its item stands, so that a complaint about it can be found in the input. The
steps of a Zf goal are the exception: only the pack around them has a place. -/

namespace ProblemIntake

/-- Every step of an attempt is given its place. -/
theorem Statement.loc_attempt (loc : Option Span) (trial kept : Action Pooled)
    (label : Label Pooled) :
    ∀ s ∈ ((attempt loc trial kept).relabel fun _ => label).flatten, s.label.loc = loc := by
  have steps : ((attempt loc trial kept).relabel fun _ => label).flatten =
      [⟨.push 1, ⟨none, none, loc⟩⟩, ⟨trial, ⟨none, some (Pool.constant false), loc⟩⟩,
        ⟨.prove [], ⟨none, none, loc⟩⟩, ⟨.pop 1, ⟨none, none, loc⟩⟩,
        ⟨kept, ⟨none, some (Pool.constant true), loc⟩⟩] := rfl
  simp [steps]

theorem Canonical.Outline.loc_steps {language : Language} {item : Item Pooled} {form : Canonical}
    (outline : Outline language item form) (other : ¬ item.IsGoal language) :
    ∀ s ∈ form.statement.flatten, s.label.loc = item.loc := by
  cases outline with
  | refused | idle =>
    intro s mem
    rw [Statement.flatten_pack] at mem
    exact absurd mem List.not_mem_nil
  | single _ placed =>
    intro s mem
    rw [Statement.flatten_step, List.mem_singleton] at mem
    exact mem ▸ placed
  | attempt => exact Statement.loc_attempt _ _ _ _
  | goal zf => exact absurd zf other

namespace Item

variable {item : Item Pooled} {language : Language}

/-- An item with a place that its steps do not have. -/
def LosesPlace (item : Item Pooled) (language : Language) : Prop :=
  item.IsGoal language ∧ item.loc ≠ none

instance (item : Item Pooled) (language : Language) : Decidable (item.LosesPlace language) :=
  inferInstanceAs (Decidable (_ ∧ _))

/-- A goal of Zf states its formula and asks for a proof, in no place. -/
theorem flatten_of_isGoal (goal : item.IsGoal language) (pool : Pool) :
    ∃ t, (item.canonical language pool).1.statement.flatten =
      [⟨.goal t, {}⟩, ⟨.prove [], {}⟩] := by
  obtain ⟨rfl, keyword, one⟩ := goal
  obtain ⟨t, args⟩ := List.length_eq_one_iff.mp one
  have known : Spelled.read? item.keyword = some Directive.goal :=
    Spelled.read?_eq_some_iff.mpr keyword.symm
  refine ⟨t, ?_⟩
  rw [canonical, Canonical.ofDirective, Canonical.ofKeyword, known, args]
  rfl

theorem loc_steps_iff (pool : Pool) :
    (∀ s ∈ (item.canonical language pool).1.statement.flatten, s.label.loc = item.loc) ↔
      ¬ item.LosesPlace language := by
  by_cases goal : item.IsGoal language
  · obtain ⟨t, steps⟩ := flatten_of_isGoal goal pool
    rw [steps]
    simp [LosesPlace, goal, eq_comm]
  · have kept := (outline_canonical item language pool).loc_steps goal
    exact iff_of_true kept fun lost => goal lost.1

end Item

/-- A complaint about a solve request without a status. -/
def Diagnostic.isMissingStatus (d : Diagnostic) : Bool :=
  match d.cause with
  | .header (.missingStatus _) => true
  | _ => false

/-- A value that is not allowed is another problem than a missing status. -/
theorem Config.disallowed?_ne_missingStatus (config : Config) (field : Field)
    (value name : String) : config.disallowed? field value ≠ some (.missingStatus name) := by
  cases field <;> simp [disallowed?]

namespace Record

variable {config : Config} {r : Record} {d : Diagnostic}

/-- A missing status is blamed on the step that asks for a solution. -/
theorem missingStatus_of_mem_check {s : Step Pooled}
    (mem : .diagnosed d ∈ (r.check config s).2) (missing : d.isMissingStatus) :
    s.isProve ∧ d.location = ⟨config.inputFile, s.label.loc⟩ := by
  rcases check_cases config s with
    ⟨f, value, declares, passive⟩ | ⟨place, fault, malformed, passive⟩ | request | ⟨other, passive⟩
  · rw [check_of_declares declares, List.mem_append, List.mem_map] at mem
    rcases mem with ⟨problem, among, same⟩ | declared
    · have refused : config.disallowed? f value = some problem := Option.mem_toList.mp among
      cases same
      cases problem with
      | missingStatus name =>
        exact absurd refused (config.disallowed?_ne_missingStatus f value name)
      | malformed | licenseNotAllowed | versionNotAllowed | missingWanted | missingRequired =>
        cases missing
    · cases List.mem_singleton.mp declared
  · rw [check_of_malformed malformed, List.mem_singleton] at mem
    cases mem
    cases missing
  · rw [check_of_isProve request, consume] at mem
    cases held : r.get? .status with
    | some status => simp [held] at mem
    | none =>
      rw [held, List.mem_singleton] at mem
      cases mem
      exact ⟨request, rfl⟩
  · rw [check_of_other other passive] at mem
    cases mem

theorem missingStatus_of_mem_told {steps : List (Step Pooled)}
    (mem : .diagnosed d ∈ r.told config steps) (missing : d.isMissingStatus) :
    ∃ s ∈ steps, d.location = ⟨config.inputFile, s.label.loc⟩ := by
  obtain ⟨before, s, rest, rfl, told⟩ := mem_told_iff.mp mem
  exact ⟨s, by simp, (missingStatus_of_mem_check told missing).2⟩

end Record

/-- The steps of a Zf goal are told as a solve request without a place. -/
theorem Record.told_goal (config : Config) (r : Record) (t : Pooled) :
    r.told config [⟨.goal t, {}⟩, ⟨.prove [], {}⟩] = (r.consume config none).2 :=
  List.append_nil _

namespace Stream

variable {s : Stream} {item : Item Pooled}

/-- A missing status is an objection to the steps of an item, as no item is refused for it. -/
theorem missingStatus_of_mem_reports_iff {d : Diagnostic} (missing : d.isMissingStatus) :
    d ∈ s.reports item ↔ d ∈ s.objections item := by
  rw [reports, List.mem_append]
  apply or_iff_right
  intro refused
  obtain ⟨warning, _, rfl⟩ := List.mem_map.mp refused
  cases missing

theorem missingStatus_of_mem_reports {d : Diagnostic} (mem : d ∈ s.reports item)
    (missing : d.isMissingStatus) :
    ∃ step ∈ (item.canonical s.language s.pool).1.statement.flatten,
      d.location = s.context.locate step.label.loc := by
  rw [missingStatus_of_mem_reports_iff missing, objections] at mem
  split at mem
  · exact Record.missingStatus_of_mem_told (mem_diagnosticsOf_iff.mp mem) missing
  · cases mem

/-- A goal of Zf is complained of in no place, unless a status is in force. -/
theorem missingStatus_goal_iff (enabled : s.context.config.checkHeaders = true)
    (goal : item.IsGoal s.language) (d : Diagnostic) :
    d ∈ s.reports item ∧ d.isMissingStatus ↔
      s.context.headers.get? .status = none ∧ d = s.context.missingStatus ⟨.prove [], {}⟩ := by
  obtain ⟨t, steps⟩ := Item.flatten_of_isGoal goal s.pool
  have told : d ∈ s.reports item ∧ d.isMissingStatus ↔
      .diagnosed d ∈ (s.context.headers.consume s.context.config none).2 ∧ d.isMissingStatus := by
    apply and_congr_left
    intro missing
    rw [missingStatus_of_mem_reports_iff missing, objections, if_pos enabled, steps,
      Record.told_goal, mem_diagnosticsOf_iff]
  rw [told, Record.consume]
  cases held : s.context.headers.get? .status with
  | some status => simp
  | none =>
    rw [List.mem_singleton]
    constructor
    · rintro ⟨same, _⟩
      cases same
      exact ⟨rfl, rfl⟩
    · rintro ⟨_, rfl⟩
      exact ⟨rfl, rfl⟩

end Stream

/-- **Only goals of Zf lose their place.** In every language, the steps of an item stand where the
item stands, unless it is a goal of Zf that has a place. So if headers are checked, a missing status
that taking the item reports is located where the item stands, unless it is such a goal and no
status is in force. -/
theorem Item.place_kept_iff (item : Item Pooled) (language : Language) :
    (∀ pool, (∀ s ∈ (item.canonical language pool).1.statement.flatten, s.label.loc = item.loc) ↔
      ¬ item.LosesPlace language) ∧
    ∀ s : Stream, s.language = language → s.context.config.checkHeaders = true →
      ∃ added, (s.feed item).2.context.diagnostics = s.context.diagnostics ++ added ∧
        ((∀ d ∈ added, d.isMissingStatus → d.location = s.context.locate item.loc) ↔
          ¬ (item.LosesPlace language ∧ s.context.headers.get? .status = none)) := by
  refine ⟨fun pool => loc_steps_iff pool, ?_⟩
  rintro s rfl enabled
  refine ⟨s.reports item, Stream.diagnostics_feed s item, ?_⟩
  -- Only a goal has steps without a place, and only its request can be complained of.
  by_cases goal : item.IsGoal s.language
  · constructor
    · rintro located ⟨⟨_, placed⟩, absent⟩
      obtain ⟨mem, missing⟩ := (Stream.missingStatus_goal_iff enabled goal _).mpr ⟨absent, rfl⟩
      have nowhere : s.context.locate none = s.context.locate item.loc := located _ mem missing
      exact placed (congrArg Location.span nowhere).symm
    · intro kept d mem missing
      obtain ⟨absent, rfl⟩ := (Stream.missingStatus_goal_iff enabled goal d).mp ⟨mem, missing⟩
      have nowhere : item.loc = none := by
        by_contra placed
        exact kept ⟨⟨goal, placed⟩, absent⟩
      rw [nowhere]
      rfl
  · refine iff_of_true ?_ fun lost => goal lost.1.1
    intro d mem missing
    obtain ⟨step, among, located⟩ := Stream.missingStatus_of_mem_reports mem missing
    rw [located, (item.outline_canonical s.language s.pool).loc_steps goal step among]

/-- The request inside a conjecture is complained of where the conjecture stands. -/
theorem Item.conjecture_keeps_place :
    let built := Pool.intern (.symbol (.term "p")) none .new
    let item : Item Pooled :=
      { keyword := "conjecture", args := [built.1], loc := some ⟨⟨3, 1⟩, ⟨3, 1⟩⟩ }
    let s : Stream :=
      ⟨.tptp, built.2, .new { language := some .tptp, checkHeaders := true }, #[]⟩
    s.language = .tptp ∧ s.context.config.checkHeaders = true ∧
    ∃ added, (s.feed item).2.context.diagnostics = s.context.diagnostics ++ added ∧
      ∀ d ∈ added, d.isMissingStatus → d.location.text = "<input>:3:1" := by
  intro built item s
  obtain ⟨added, diagnostics, located⟩ := (Item.place_kept_iff item .tptp).2 s rfl rfl
  refine ⟨rfl, rfl, added, diagnostics, fun d mem missing => ?_⟩
  rw [located.mpr (by decide) d mem missing]
  decide

/-- A goal of Zf in the third line is complained of without a line. -/
theorem Item.goal_loses_place :
    let built := Pool.intern (.symbol (.term "p")) none .new
    let item : Item Pooled :=
      { keyword := "goal", args := [built.1], loc := some ⟨⟨3, 1⟩, ⟨3, 1⟩⟩ }
    let s : Stream := ⟨.zf, built.2, .new { language := some .zf, checkHeaders := true }, #[]⟩
    (¬ ∀ step ∈ (item.canonical .zf built.2).1.statement.flatten, step.label.loc = item.loc) ∧
    ¬ ∀ d ∈ (s.feed item).2.context.diagnostics, d.isMissingStatus →
      d.location = s.context.locate item.loc := by
  decide

end ProblemIntake
