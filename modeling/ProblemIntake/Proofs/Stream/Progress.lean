import ProblemIntake.Proofs.Canonical.Actions
import ProblemIntake.Proofs.Header.Complaints
import ProblemIntake.Proofs.Stream.Acceptance
import ProblemIntake.Proofs.Stream.Refusal

namespace ProblemIntake

/-- An item that is refused has no steps. -/
theorem Canonical.Outline.flatten_of_warning {language : Language} {item : Item Pooled}
    {form : Canonical} (outline : Outline language item form) (refused : form.warning.isSome) :
    form.statement.flatten = [] := by
  cases outline with
  | refused => exact Statement.flatten_pack _ _
  | idle | single | attempt | goal => cases refused

/-- The last report has a warning and an error at most. -/
theorem Record.length_diagnosticsOf_review_le (config : Config) (r : Record) :
    (diagnosticsOf (r.review config)).length ≤ 2 := by
  have one (events : List Event) (short : events.length ≤ 1) :
      (diagnosticsOf events).length ≤ 1 := (List.length_filterMap_le _ events).trans short
  unfold review
  rw [diagnosticsOf_append, List.length_append]
  refine Nat.add_le_add (one _ ?_) (one _ ?_)
  · split
    · exact Nat.zero_le 1
    · exact Nat.le_refl 1
  · split
    · exact Nat.zero_le 1
    · exact Nat.le_refl 1

namespace Stream

variable {s : Stream} {item : Item Pooled} {d : Diagnostic}

theorem isError_of_mem_objections (mem : d ∈ s.objections item) : d.isError := by
  unfold objections at mem
  split at mem
  · exact Record.isError_of_mem_told mem
  · cases mem

theorem not_isError_of_mem_refusals (mem : d ∈ s.refusals item) : ¬ d.isError := by
  obtain ⟨warning, _, rfl⟩ := List.mem_map.mp mem
  exact Bool.false_ne_true

theorem length_objections_le (s : Stream) (item : Item Pooled) :
    (s.objections item).length ≤ 1 := by
  unfold objections
  split
  · exact (Record.length_complaints_told_le _ _ _).trans (item.countP_flatten_le _ _)
  · exact Nat.zero_le 1

/-- An item that is refused has nothing for header checks to look at. -/
theorem refusals_cases (s : Stream) (item : Item Pooled) :
    s.refusals item = [] ∨ (item.canonical s.language s.pool).1.statement.flatten = [] := by
  cases refused : (item.canonical s.language s.pool).1.warning with
  | none => exact .inl (by rw [refusals, refused]; rfl)
  | some warning =>
    exact .inr ((item.outline_canonical s.language s.pool).flatten_of_warning (refused ▸ rfl))

theorem length_reports_le (s : Stream) (item : Item Pooled) : (s.reports item).length ≤ 1 := by
  rw [reports]
  rcases refusals_cases s item with accepted | stepless
  · rw [accepted]
    exact length_objections_le s item
  · have silent : s.objections item = [] := by
      rw [objections, stepless]
      exact ite_self []
    rw [silent, List.append_nil, refusals, List.length_map]
    exact Option.length_toList_le

/-- A warning is about an item that was refused, and then the headers stay as they are. -/
theorem headers_feed_of_warning (mem : d ∈ s.reports item) (warning : ¬ d.isError) :
    (s.feed item).2.context.headers = s.context.headers := by
  have stepless : (item.canonical s.language s.pool).1.statement.flatten = [] := by
    refine (refusals_cases s item).resolve_left fun accepted => ?_
    rw [reports, accepted] at mem
    exact warning (isError_of_mem_objections mem)
  cases check : s.context.config.checkHeaders with
  | false => rw [context_feed_of_disabled check, Context.headers_receive]
  | true =>
    rw [context_feed_of_enabled check, stepless, Context.checkSteps_nil, Context.headers_receive]

/-- What feeding returns, item by item. -/
def answers (s : Stream) : List (Item Pooled) → List (Statement Pooled)
  | [] => []
  | item :: items => (s.feed item).1 :: (s.feed item).2.answers items

theorem length_answers (s : Stream) (items : List (Item Pooled)) :
    (s.answers items).length = items.length := by
  induction items generalizing s with
  | nil => rfl
  | cons item items ih => rw [answers, List.length_cons, ih, List.length_cons]

theorem statements_feed (s : Stream) (item : Item Pooled) :
    (s.feed item).2.statements = s.statements.push (s.feed item).1 := rfl

theorem statements_feedAll (s : Stream) (items : List (Item Pooled)) :
    (s.feedAll items).statements.toList = s.statements.toList ++ s.answers items := by
  induction items generalizing s with
  | nil => exact (List.append_nil _).symm
  | cons item items ih =>
    rw [feedAll_cons, ih, statements_feed, Array.toList_push, answers, List.append_assoc,
      List.singleton_append]

theorem feedAll_append (s : Stream) (items more : List (Item Pooled)) :
    s.feedAll (items ++ more) = (s.feedAll items).feedAll more :=
  List.foldl_append

/-- Diagnostics are only added, one at most for each item. -/
theorem diagnostics_feedAll (s : Stream) (items : List (Item Pooled)) :
    ∃ added, (s.feedAll items).context.diagnostics = s.context.diagnostics ++ added ∧
      added.length ≤ items.length := by
  induction items generalizing s with
  | nil => exact ⟨[], (List.append_nil _).symm, Nat.le_refl 0⟩
  | cons item items ih =>
    obtain ⟨later, diagnostics, few⟩ := ih (s.feed item).2
    have now := length_reports_le s item
    refine ⟨s.reports item ++ later, ?_, ?_⟩
    · rw [feedAll_cons, diagnostics, diagnostics_feed, List.append_assoc]
    · rw [List.length_append, List.length_cons]
      omega

theorem diagnostics_feedAll_of_earlier (s : Stream) {seen items : List (Item Pooled)}
    (earlier : seen <+: items) :
    (s.feedAll seen).context.diagnostics <+: (s.feedAll items).context.diagnostics := by
  obtain ⟨rest, rfl⟩ := earlier
  obtain ⟨added, diagnostics, _⟩ := diagnostics_feedAll (s.feedAll seen) rest
  rw [feedAll_append, diagnostics]
  exact List.prefix_append _ added

/-- The line that ends the journal is no diagnostic. -/
theorem diagnostics_close_eq_conclude (s : Stream) :
    s.close.context.diagnostics = s.context.conclude.diagnostics := by
  rw [close, Context.diagnostics_tell]
  exact List.append_nil _

/-- The end of a stream adds a warning and an error at most. -/
theorem diagnostics_close (s : Stream) :
    ∃ added, s.close.context.diagnostics = s.context.diagnostics ++ added ∧ added.length ≤ 2 := by
  rw [diagnostics_close_eq_conclude, Context.conclude]
  split
  · exact ⟨_, Context.diagnostics_tell _ _, Record.length_diagnosticsOf_review_le _ _⟩
  · exact ⟨[], (List.append_nil _).symm, Nat.zero_le 2⟩

/-- **One item, one statement, at most one diagnostic.** In every state of a stream, taking an item
adds the statement it returns, and at most one diagnostic after all the others; if that one is a
warning, the headers stay as they are. So what is reported after some of the items is the beginning
of what is reported in the end, which is at most two diagnostics more than there are items. If there
is an error among them, the input is rejected with all of them. Otherwise it is accepted with the
statements in the order of the items, and with warnings only. -/
theorem one_report_per_item (config : Config) (pool : Pool) (opened : Stream)
    (started : start config pool = .ok opened) (items : List (Item Pooled)) :
    let now := opened.feedAll items
    let closed := now.close
    (∀ item,
      let (answer, next) := now.feed item
      next.statements = now.statements.push answer ∧
      ∃ added, next.context.diagnostics = now.context.diagnostics ++ added ∧ added.length ≤ 1 ∧
        ((∃ d ∈ added, d.severity = .warning) → next.context.headers = now.context.headers)) ∧
    (∀ seen, seen <+: items →
      (opened.feedAll seen).context.diagnostics <+: closed.context.diagnostics) ∧
    closed.context.diagnostics.length ≤ items.length + 2 ∧
    ((∃ d ∈ closed.context.diagnostics, d.severity = .error) →
      closed.verdict = .error (.rejected closed.context.diagnostics)) ∧
    ((∀ d ∈ closed.context.diagnostics, d.severity ≠ .error) →
      ∃ accepted, closed.verdict = .ok accepted ∧
        accepted.statements.toList = opened.answers items ∧
        accepted.statements.size = items.length ∧
        accepted.diagnostics = closed.context.diagnostics ∧
        ∀ d ∈ accepted.diagnostics, d.severity = .warning) := by
  intro now closed
  obtain ⟨language, _, rfl⟩ := start_eq_ok_iff.mp started
  obtain ⟨fed, reported, few⟩ := diagnostics_feedAll (fresh config language pool) items
  obtain ⟨last, ended, few'⟩ := diagnostics_close now
  have silent : (fresh config language pool).context.diagnostics = [] := rfl
  have answered : now.statements.toList = (fresh config language pool).answers items :=
    statements_feedAll _ items
  refine ⟨fun item => ⟨statements_feed now item, now.reports item, diagnostics_feed now item,
    length_reports_le now item, ?_⟩, ?_, ?_, ?_, ?_⟩
  · rintro ⟨d, mem, warning⟩
    exact headers_feed_of_warning mem (Diagnostic.not_isError_iff.mpr warning)
  · intro seen earlier
    exact (diagnostics_feedAll_of_earlier _ earlier).trans ⟨last, ended.symm⟩
  · rw [ended, reported, silent, List.nil_append, List.length_append]
    omega
  · rintro ⟨d, mem, error⟩
    exact (verdict_of_errors fun free => Context.errorFree_iff.mp free d mem error).1
  · intro warnings
    have ok := verdict_of_errorFree (Context.errorFree_iff.mpr warnings)
    refine ⟨_, ok, answered, ?_, rfl, fun d mem => ?_⟩
    · rw [← length_answers _ items, ← answered]
      rfl
    · exact Diagnostic.not_isError_iff.mp (mt Diagnostic.isError_iff.mp (warnings d mem))

/-- An unknown command and a solve request without a status, in an input without headers, are
reported as often as two items can be, and the input is rejected. -/
theorem two_items_reported_four_times :
    let config : Config := { language := some .smtlib, checkHeaders := true }
    let items : List (Item Pooled) :=
      [{ keyword := "simplify", args := [] }, { keyword := "check-sat", args := [] }]
    ∃ opened, start config .new = .ok opened ∧
      let closed := (opened.feedAll items).close
      closed.context.diagnostics.length = items.length + 2 ∧
      closed.verdict = .error (.rejected closed.context.diagnostics) := by
  intro config items
  refine ⟨_, rfl, by decide, ?_⟩
  obtain ⟨_, _, _, rejected, _⟩ := one_report_per_item config .new _ rfl items
  exact rejected (by decide)

end Stream

end ProblemIntake
