import ProblemIntake.Proofs.Canonical.Actions
import ProblemIntake.Proofs.Header.Grammar
import ProblemIntake.Proofs.Header.Order
import ProblemIntake.Proofs.Stream.Acceptance

namespace ProblemIntake

/-- The item sets metadata: the field's keyword with a symbol of that name as its one value. -/
def Item.Declares (item : Item Pooled) (language : Option Language) (field : Field)
    (value : String) : Prop :=
  item.keyword = "set-info" ∧ ∃ info keyword v s, item.args = [info] ∧
    info.attribute? = some (keyword, [v]) ∧ field.keyword? language = some keyword ∧
    v.symbol? = some s ∧ s.name = value

theorem Stream.mem_flatSteps {language : Language} {items : List (Item Pooled)} {pool : Pool}
    {s : Step Pooled} (mem : s ∈ flatSteps language items pool) :
    ∃ item ∈ items, ∃ now, s ∈ (item.canonical language now).1.statement.flatten := by
  induction items generalizing pool with
  | nil => cases mem
  | cons item items ih =>
    rw [flatSteps_cons] at mem
    rcases List.mem_append.mp mem with first | later
    · exact ⟨item, List.mem_cons_self, pool, first⟩
    · obtain ⟨other, among, step⟩ := ih later
      exact ⟨other, List.mem_cons_of_mem item among, step⟩

theorem Step.setInfo_of_declares {language : Option Language} {s : Step Pooled} {field : Field}
    {value : String} (declares : s.reading language = .declares field value) :
    ∃ info, s.action = .setInfo info ∧ Reading.ofTerm language info = .declares field value := by
  unfold reading at declares
  split at declares
  · rename_i info action
    exact ⟨info, action, declares⟩
  · cases declares

/-- Only an item that sets metadata declares a field. -/
theorem Item.declares_of_mem_flatSteps {language : Language} {items : List (Item Pooled)}
    {pool : Pool} {s : Step Pooled} {read : Option Language} {field : Field} {value : String}
    (mem : s ∈ Stream.flatSteps language items pool)
    (declares : s.reading read = .declares field value) :
    (∃ item ∈ items, item.Declares read field value) ∧
      (field = .status → value ∈ ["sat", "unsat", "unknown"]) := by
  obtain ⟨item, among, now, step⟩ := Stream.mem_flatSteps mem
  obtain ⟨info, action, reads⟩ := Step.setInfo_of_declares declares
  obtain ⟨keyword, v, ⟨own, invokes⟩, valued⟩ :=
    Term.declares_iff.mp (Reading.ofTerm_eq_declares_iff.mp reads)
  obtain ⟨s, shape, takes, named⟩ := Field.value?_eq_some_iff.mp valued
  obtain ⟨_, command, args, _⟩ := setInfo_of_mem_flatten step action
  have applied := Term.attribute?_eq_some_iff.mpr invokes
  have symbol := Term.symbol?_eq_some_iff.mpr shape
  have keyed := Field.keyword?_eq_some_iff.mpr own
  refine ⟨⟨item, among, command, info, keyword, v, s, args, applied, keyed, symbol, named⟩, ?_⟩
  rintro rfl
  exact named ▸ takes

/-- What recorded headers owe to the items of an input. -/
structure Vouched (config : Config) (items : List (Item Pooled)) (headers : Record) : Prop where
  /-- Only headers of SMT-LIB are recorded, and only if they are checked. -/
  checked : headers.fields ≠ [] → config.language = some .smtlib ∧ config.checkHeaders = true
  /-- A recorded field has a keyword. The version of a problem has none. -/
  keyed : ∀ field ∈ headers.fields,
    field.keyword? config.language ≠ none ∧ field ≠ .problemVersion
  status : ∀ value, headers.get? .status = some value → value ∈ ["sat", "unsat", "unknown"]
  /-- A recorded value is the name of the symbol that an item gave as its value. -/
  declared : ∀ field value, headers.get? field = some value →
    ∃ item ∈ items, item.Declares config.language field value

/-- Licenses and versions are among the allowed ones, unless all of them are allowed. -/
structure Permitted (config : Config) (headers : Record) : Prop where
  license : ∀ value, headers.get? .license = some value →
    config.allowedLicenses ≠ [] → value ∈ config.allowedLicenses
  version : ∀ value, headers.get? .languageVersion = some value →
    config.allowedVersions ≠ [] → value ∈ config.allowedVersions

namespace Stream

variable {config : Config} {language : Language} {items : List (Item Pooled)} {pool : Pool}

theorem headers_fresh_of_enabled (enabled : config.checkHeaders = true) :
    ((fresh config language pool).feedAll items).context.headers =
      Record.empty.after config (flatSteps language items pool) :=
  headers_feedAll (s := fresh config language pool) enabled items

theorem headers_fresh_of_disabled (disabled : config.checkHeaders = false) :
    ((fresh config language pool).feedAll items).context.headers = .empty :=
  headers_feedAll_of_disabled (s := fresh config language pool) disabled items

theorem vouched_feedAll (config : Config) (language : Language) (items : List (Item Pooled))
    (pool : Pool) :
    Vouched config items ((fresh config language pool).feedAll items).context.headers := by
  cases check : config.checkHeaders with
  | false =>
    rw [headers_fresh_of_disabled check]
    exact ⟨fun held => absurd rfl held, nofun, nofun, nofun⟩
  | true =>
    rw [headers_fresh_of_enabled check]
    let recorded := Record.empty.after config (flatSteps language items pool)
    have declared {field : Field} {value : String} (held : recorded.get? field = some value) :
        (∃ item ∈ items, item.Declares config.language field value) ∧
          (field = .status → value ∈ ["sat", "unsat", "unknown"]) := by
      obtain ⟨s, mem, declares⟩ := Record.declared_of_get? held
      exact Item.declares_of_mem_flatSteps mem declares
    have keyed (field : Field) (mem : field ∈ recorded.fields) :
        field.keyword? config.language ≠ none := by
      obtain ⟨value, held⟩ := Option.ne_none_iff_exists'.mp (Record.mem_fields_iff.mp mem)
      obtain ⟨item, _, _, _, keyword, _, _, _, _, keyed, _⟩ := (declared held).1
      rw [keyed]
      exact Option.some_ne_none keyword
    refine ⟨fun held => ?_, fun field mem => ?_, fun value held => (declared held).2 rfl,
      fun field value held => (declared held).1⟩
    · obtain ⟨field, mem⟩ := List.exists_mem_of_ne_nil _ held
      exact ⟨(Field.keyed_of_keyword?_ne_none (keyed field mem)).1, check⟩
    · exact ⟨keyed field mem, (Field.keyed_of_keyword?_ne_none (keyed field mem)).2⟩

/-- A value that is not allowed is recorded, but not without an error. -/
theorem permitted_of_errorFree
    (free : ErrorFree ((fresh config language pool).feedAll items).context.journal.toList) :
    Permitted config ((fresh config language pool).feedAll items).context.headers := by
  cases check : config.checkHeaders with
  | false =>
    rw [headers_fresh_of_disabled check]
    exact ⟨nofun, nofun⟩
  | true =>
    have told : ErrorFree (Record.empty.told config (flatSteps language items pool)) :=
      ((errorFree_feedAll_iff (s := fresh config language pool) check items).mp free).2
    rw [headers_fresh_of_enabled check]
    let recorded := Record.empty.after config (flatSteps language items pool)
    have allowed {field : Field} {value : String} (held : recorded.get? field = some value) :
        config.disallowed? field value = none := by
      obtain ⟨s, mem, declares⟩ := Record.declared_of_get? held
      exact (Record.sound_of_errorFree told mem).2 field value declares
    exact ⟨fun value held => (Config.disallowed?_eq_none_iff.mp (allowed held)).1 rfl,
      fun value held => (Config.disallowed?_eq_none_iff.mp (allowed held)).2 rfl⟩

theorem headers_close (s : Stream) : s.close.context.headers = s.context.headers := by
  change s.context.conclude.headers = s.context.headers
  unfold Context.conclude
  split
  · rfl
  · rfl

/-- What an accepted run answers is what its last stream holds, and it reported no error. -/
theorem of_result_run {accepted : Accepted} (chosen : config.language = some language)
    (ok : (run config items pool).result = .ok accepted) :
    let last := (fresh config language pool).feedAll items
    ErrorFree last.close.context.journal.toList ∧ accepted.headers = last.context.headers := by
  intro last
  rw [result_run chosen] at ok
  have free : ErrorFree last.close.context.journal.toList := by
    by_contra errors
    rw [(verdict_of_errors errors).1] at ok
    cases ok
  rw [verdict_of_errorFree free] at ok
  exact ⟨free, (congrArg Accepted.headers (Except.ok.inj ok)).symm.trans (headers_close last)⟩

/-- **Recorded headers can be relied on.** Whatever a stream was fed, its headers are of SMT-LIB and
were checked, its fields have keywords, its status is one of three, and each of its values is the
name of a symbol that an item gave as a value. As long as no error was reported, licenses and
versions are allowed. So if an input of SMT-LIB is accepted and its headers are checked, they have
all the required fields, and their license and version are allowed. -/
theorem headers_vouched (config : Config) (pool : Pool) (opened : Stream)
    (started : start config pool = .ok opened) (items : List (Item Pooled)) :
    let now := (opened.feedAll items).context
    Vouched config items now.headers ∧
    ((∀ d ∈ now.diagnostics, d.severity ≠ .error) → Permitted config now.headers) ∧
    ∀ accepted, (run config items pool).result = .ok accepted →
      config.language = some .smtlib → config.checkHeaders = true →
      (∀ field ∈ [Field.languageVersion, .source, .category], field ∈ accepted.headers.fields) ∧
        Permitted config accepted.headers := by
  intro now
  obtain ⟨language, chosen, rfl⟩ := start_eq_ok_iff.mp started
  refine ⟨vouched_feedAll config language items pool,
    fun errorless => permitted_of_errorFree (Context.errorFree_iff.mpr errorless), ?_⟩
  intro accepted ok smtlib enabled
  obtain ⟨free, headers⟩ := of_result_run chosen ok
  rw [errorFree_close_iff, errorFree_conclude_iff (by rwa [config_feedAll]),
    Record.errorFree_review_iff, config_feedAll, config_fresh] at free
  obtain ⟨fed, complete⟩ := free
  rw [headers]
  refine ⟨fun field required => ?_, permitted_of_errorFree fed⟩
  rw [Record.missing, List.map_eq_nil_iff, List.filter_eq_nil_iff, smtlib] at complete
  have held := complete field required
  rwa [Bool.not_eq_true', Bool.not_eq_false, Record.contains, List.contains_iff_mem] at held

/-- A license declared again is one of the allowed ones, and the status is gone with the request. -/
theorem license_declared_again_vouched :
    let config : Config :=
      { language := some .smtlib, checkHeaders := true, allowedLicenses := ["MIT", "GPL"] }
    let term (number : Nat) (shape : Shape Pooled) : Pooled := .mk ⟨number, none⟩ shape
    let info (number : Nat) (key : String) (value : Symbol) : Item Pooled :=
      { keyword := "set-info"
        args := [term number (.app (term (number + 1) (.symbol (.attr key)))
          [term (number + 2) (.symbol value)])] }
    let items := [
      info 2 ":license" ⟨"MIT", .literal .string⟩,
      info 5 ":smt-lib-version" ⟨"2.6", .literal .decimal⟩,
      info 8 ":status" (.term "unsat"),
      info 11 ":source" (.attr "Handcrafted"),
      info 14 ":category" ⟨"crafted", .literal .string⟩,
      info 17 ":license" ⟨"GPL", .literal .string⟩,
      { keyword := "check-sat", args := [] }]
    ∃ opened accepted, start config .new = .ok opened ∧
      (run config items .new).result = .ok accepted ∧
      config.language = some .smtlib ∧ config.checkHeaders = true ∧
      accepted.headers.get? .license = some "GPL" ∧
      accepted.headers.fields = [.license, .languageVersion, .source, .category] ∧
      Vouched config items (opened.feedAll items).context.headers ∧
      Permitted config accepted.headers := by
  intro config term info items
  have compliant : Compliant config (flatSteps .smtlib items .new) :=
    (Record.errorFree_iff_compliant config _).mp ⟨by decide, by decide⟩
  have ok := (result_run rfl items .new).trans
    (verdict_of_errorFree ((errorFree_closed_iff config .smtlib items .new).mpr (.inr compliant)))
  have headers := (of_result_run rfl ok).2.trans (headers_fresh_of_enabled rfl)
  obtain ⟨vouched, _, complete⟩ := headers_vouched config .new _ rfl items
  refine ⟨_, _, rfl, ok, rfl, rfl, ?_, ?_, vouched, (complete _ ok rfl rfl).2⟩
  · rw [headers]
    decide
  · rw [headers]
    decide

end Stream

end ProblemIntake
