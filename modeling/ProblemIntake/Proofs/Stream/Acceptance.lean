import ProblemIntake.Proofs.Stream.Forms

/-! An input is accepted exactly if headers are not checked or its flat sequence of steps complies
with the settings; otherwise it is rejected, with an error to show for it. -/

namespace ProblemIntake

namespace Stream

/-- The stream before its first item. -/
def fresh (config : Config) (language : Language) (pool : Pool) : Stream where
  language := language
  pool := pool
  context := (Context.new config).tell [.started config.inputFile language]
  statements := #[]

theorem start_of_language {config : Config} {language : Language}
    (chosen : config.language = some language) (pool : Pool) :
    start config pool = .ok (fresh config language pool) := by
  simp only [start, chosen]
  rfl

/-- A stream starts exactly if a language is chosen. -/
theorem start_eq_ok_iff {config : Config} {pool : Pool} {opened : Stream} :
    start config pool = .ok opened ↔
      ∃ language, config.language = some language ∧ opened = fresh config language pool := by
  constructor
  · intro started
    cases chosen : config.language with
    | none =>
      rw [start, chosen] at started
      cases started
    | some language =>
      rw [start_of_language chosen] at started
      exact ⟨language, rfl, (Except.ok.inj started).symm⟩
  · rintro ⟨language, chosen, rfl⟩
    exact start_of_language chosen pool

theorem result_run {config : Config} {language : Language}
    (chosen : config.language = some language) (items : List (Item Pooled)) (pool : Pool) :
    (run config items pool).result =
      ((fresh config language pool).feedAll items).close.verdict := by
  rw [run, start_of_language chosen]
  rfl

@[simp] theorem config_fresh (config : Config) (language : Language) (pool : Pool) :
    (fresh config language pool).context.config = config := rfl

theorem errorFree_fresh (config : Config) (language : Language) (pool : Pool) :
    ErrorFree (fresh config language pool).context.journal.toList := by
  intro e mem
  have started : e = .started config.inputFile language := by
    simpa [fresh, Context.new, Context.tell] using mem
  rw [started]
  rfl

/-- The line that ends the journal is no error. -/
theorem errorFree_close_iff {s : Stream} :
    ErrorFree s.close.context.journal.toList ↔ ErrorFree s.context.conclude.journal.toList := by
  rw [close, Context.journal_tell, errorFree_append, errorFree_cons]
  exact ⟨fun free => free.1, fun free => ⟨free, rfl, errorFree_nil⟩⟩

theorem errorFree_conclude_iff {ctx : Context} (enabled : ctx.config.checkHeaders = true) :
    ErrorFree ctx.conclude.journal.toList ↔
      ErrorFree ctx.journal.toList ∧ ErrorFree (ctx.headers.review ctx.config) := by
  rw [Context.conclude, if_pos enabled, Context.journal_tell, errorFree_append]

theorem conclude_of_disabled {ctx : Context} (disabled : ctx.config.checkHeaders = false) :
    ctx.conclude = ctx := by
  simp [Context.conclude, disabled]

/-- A whole run reports no error exactly if headers are not checked or the input complies. -/
theorem errorFree_closed_iff (config : Config) (language : Language) (items : List (Item Pooled))
    (pool : Pool) :
    ErrorFree ((fresh config language pool).feedAll items).close.context.journal.toList ↔
      config.checkHeaders = false ∨ Compliant config (flatSteps language items pool) := by
  rw [errorFree_close_iff]
  cases check : config.checkHeaders with
  | false =>
    rw [conclude_of_disabled (by rwa [config_feedAll]), errorFree_feedAll_of_disabled check]
    simp only [errorFree_fresh, true_or]
  | true =>
    rw [errorFree_conclude_iff (by rwa [config_feedAll]), errorFree_feedAll_iff check,
      headers_feedAll check, config_feedAll, ← Record.errorFree_iff_compliant]
    simp only [errorFree_fresh, true_and, Bool.true_eq_false, false_or]
    rfl

theorem verdict_of_errorFree {s : Stream} (free : ErrorFree s.context.journal.toList) :
    s.verdict = .ok ⟨s.statements, s.context.diagnostics, s.context.headers⟩ := by
  rw [verdict, (hasErrors_eq_false_iff s.context).mpr free]
  rfl

theorem verdict_of_errors {s : Stream} (errors : ¬ ErrorFree s.context.journal.toList) :
    s.verdict = .error (.rejected s.context.diagnostics) ∧
      ∃ d ∈ s.context.diagnostics, d.isError = true := by
  have found : s.context.hasErrors = true :=
    eq_true_of_ne_false fun none => errors ((hasErrors_eq_false_iff s.context).mp none)
  exact ⟨by rw [verdict, if_pos found], List.any_eq_true.mp found⟩

/-- **Acceptance is exactly the declared policy.** With a language chosen, an input is accepted if
and only if headers are not checked or the steps of all its canonical forms, in order, comply with
the settings. In every other case it is rejected, and the diagnostics hold an error. -/
theorem accepted_iff_compliant (config : Config) (language : Language)
    (chosen : config.language = some language) (items : List (Item Pooled)) (pool : Pool) :
    let result := (run config items pool).result
    let passes := config.checkHeaders = false ∨ Compliant config (flatSteps language items pool)
    ((∃ accepted, result = .ok accepted) ↔ passes) ∧
    (¬ passes → ∃ diagnostics, result = .error (.rejected diagnostics) ∧
      ∃ d ∈ diagnostics, d.isError = true) := by
  intro result passes
  have free := errorFree_closed_iff config language items pool
  have verdict : result = _ := result_run chosen items pool
  by_cases pass : passes
  · have ok := verdict_of_errorFree (free.mpr pass)
    refine ⟨⟨fun _ => pass, fun _ => ⟨_, verdict.trans ok⟩⟩, fun fail => absurd pass fail⟩
  · obtain ⟨rejected, error⟩ := verdict_of_errors (mt free.mp pass)
    refine ⟨⟨?_, fun pass' => absurd pass' pass⟩, fun _ => ⟨_, verdict.trans rejected, error⟩⟩
    rintro ⟨accepted, ok⟩
    rw [verdict, rejected] at ok
    cases ok

/-- A header with every required field, an allowed license and a status is accepted. -/
theorem complete_header_accepted :
    let config : Config :=
      { language := some .smtlib, checkHeaders := true, allowedLicenses := ["MIT"] }
    let term (number : Nat) (shape : Shape Pooled) : Pooled := .mk ⟨number, none⟩ shape
    let info (number : Nat) (key : String) (value : Symbol) : Item Pooled :=
      { keyword := "set-info"
        args := [term number (.app (term (number + 1) (.symbol (.attr key)))
          [term (number + 2) (.symbol value)])] }
    let items := [
      info 2 ":smt-lib-version" ⟨"2.6", .literal .decimal⟩,
      info 5 ":source" (.attr "Handcrafted"),
      info 8 ":category" ⟨"crafted", .literal .string⟩,
      info 11 ":license" ⟨"MIT", .literal .string⟩,
      info 14 ":status" (.term "sat"),
      { keyword := "check-sat", args := [] }]
    config.language = some .smtlib ∧
    ∃ accepted, (run config items Pool.new).result = .ok accepted := by
  intro config term info items
  refine ⟨rfl, (accepted_iff_compliant config .smtlib rfl items Pool.new).1.mpr (.inr ?_)⟩
  rw [← Record.errorFree_iff_compliant]
  exact ⟨by decide, by decide⟩

end Stream

end ProblemIntake
