import ProblemIntake.Proofs.Stream.Progress
import ProblemIntake.Proofs.Stream.Recorded

namespace ProblemIntake

/-- What a diagnostic says, and the place it says it of. -/
def Diagnostic.remark (d : Diagnostic) : Option Span × String := (d.location.span, d.cause.text)

/-- What was warned of so far, in order. -/
def Context.warned (ctx : Context) : List (Option Span × String) :=
  (ctx.diagnostics.filter (!·.isError)).map Diagnostic.remark

namespace Stream

/-- Streams that differ in their settings, and in what was checked, at most. -/
structure InStep (s s' : Stream) : Prop where
  language : s.language = s'.language
  pool : s.pool = s'.pool
  warned : s.context.warned = s'.context.warned

/-- Taking an item warns of its refusal and of nothing else. -/
theorem warned_feed (s : Stream) (item : Item Pooled) :
    (s.feed item).2.context.warned =
      s.context.warned ++
        (item.canonical s.language s.pool).1.warning.toList.map fun warning =>
          (item.loc, warning.text) := by
  have objected : (s.objections item).filter (!·.isError) = [] := by
    refine List.filter_eq_nil_iff.mpr fun d mem => ?_
    rw [isError_of_mem_objections mem]
    exact Bool.false_ne_true
  have refused : (s.refusals item).filter (!·.isError) = s.refusals item := by
    refine List.filter_eq_self.mpr fun d mem => ?_
    rw [Bool.not_eq_true']
    exact eq_false_of_ne_true (not_isError_of_mem_refusals mem)
  rw [Context.warned, diagnostics_feed, reports, List.filter_append, List.filter_append, refused,
    objected, List.append_nil, List.map_append, refusals, List.map_map]
  rfl

namespace InStep

variable {s s' : Stream}

theorem answer (inStep : InStep s s') (item : Item Pooled) :
    (s.feed item).1 = (s'.feed item).1 := by
  change (item.canonical s.language s.pool).1.statement =
    (item.canonical s'.language s'.pool).1.statement
  rw [inStep.language, inStep.pool]

theorem feed (inStep : InStep s s') (item : Item Pooled) :
    InStep (s.feed item).2 (s'.feed item).2 := by
  refine ⟨?_, ?_, ?_⟩
  · rw [language_feed, language_feed, inStep.language]
  · rw [pool_feed, pool_feed, inStep.language, inStep.pool]
  · rw [warned_feed, warned_feed, inStep.warned, inStep.language, inStep.pool]

theorem feedAll (inStep : InStep s s') (items : List (Item Pooled)) :
    s.answers items = s'.answers items ∧ InStep (s.feedAll items) (s'.feedAll items) := by
  induction items generalizing s s' with
  | nil => exact ⟨rfl, inStep⟩
  | cons item items ih =>
    obtain ⟨later, still⟩ := ih (inStep.feed item)
    rw [answers, answers, inStep.answer item, later]
    exact ⟨rfl, still⟩

end InStep

theorem errorFree_of_disabled {config : Config} (disabled : config.checkHeaders = false)
    (language : Language) (items : List (Item Pooled)) (pool : Pool) :
    ErrorFree ((fresh config language pool).feedAll items).close.context.journal.toList :=
  (errorFree_closed_iff config language items pool).mpr (.inl disabled)

/-- **Settings never influence what is made of an input.** Under any two settings with the same
language, the streams that take the same items from the same pool return the same statements over
the same cells, leave the same pool, and warn of the same in the same places. If headers are not
checked, nothing is an error, and the input is accepted without headers. -/
theorem settings_never_matter (config config' : Config) (language : Language)
    (chosen : config.language = some language) (chosen' : config'.language = some language)
    (pool : Pool) (items : List (Item Pooled)) :
    ∃ s s', start config pool = .ok s ∧ start config' pool = .ok s' ∧
      s.answers items = s'.answers items ∧
      (s.feedAll items).pool = (s'.feedAll items).pool ∧
      (s.feedAll items).context.warned = (s'.feedAll items).context.warned ∧
      (config.checkHeaders = false →
        let closed := (s.feedAll items).close
        (∀ d ∈ closed.context.diagnostics, d.severity ≠ .error) ∧
        ∃ accepted, closed.verdict = .ok accepted ∧ accepted.headers = .empty) := by
  have opened : InStep (fresh config language pool) (fresh config' language pool) :=
    ⟨rfl, rfl, rfl⟩
  obtain ⟨answers, fed⟩ := opened.feedAll items
  refine ⟨_, _, start_of_language chosen pool, start_of_language chosen' pool, answers, fed.pool,
    fed.warned, fun disabled => ?_⟩
  have free := errorFree_of_disabled disabled language items pool
  refine ⟨Context.errorFree_iff.mp free, _, verdict_of_errorFree free, ?_⟩
  exact (headers_close _).trans (headers_fresh_of_disabled disabled)

/-- A stream that checks headers complains of a request without a status, and warns of an unknown
command just as one that does not. -/
theorem checks_change_errors_only :
    let lenient : Config := { language := some .smtlib }
    let strict : Config :=
      { language := some .smtlib, checkHeaders := true, allowedLicenses := ["MIT"]
        inputFile := "strict.smt2" }
    let items : List (Item Pooled) :=
      [{ keyword := "simplify", args := [], loc := some ⟨⟨1, 1⟩, ⟨1, 10⟩⟩ },
        { keyword := "check-sat", args := [] }]
    ∃ s s', start lenient .new = .ok s ∧ start strict .new = .ok s' ∧
      (s.feedAll items).context.hasErrors = false ∧ (s'.feedAll items).context.hasErrors = true ∧
      s.answers items = s'.answers items ∧
      (s'.feedAll items).context.warned =
        [(some ⟨⟨1, 1⟩, ⟨1, 10⟩⟩, "unknown command: `simplify`")] ∧
      (s.feedAll items).context.warned = (s'.feedAll items).context.warned := by
  intro lenient strict items
  obtain ⟨s, s', started, started', answers, _, warned, _⟩ :=
    settings_never_matter lenient strict .smtlib rfl rfl .new items
  cases started
  cases started'
  exact ⟨_, _, rfl, rfl, by decide, by decide, answers, by decide, warned⟩

end Stream

end ProblemIntake
