import ProblemIntake.Proofs.Stream.Places
import ProblemIntake.Proofs.Stream.Progress

/-!
# The log of a run

The log shows every event of the journal as a line of its own. Every solve request is told of once,
as one that took a status or as one that found none, so the log accounts for all that was fed and
ends with the numbers of the result.
-/

namespace ProblemIntake

/-- Warnings are logged as warnings, and errors as errors. -/
def Severity.level : Severity → LogLevel
  | .warning => .warn
  | .error => .error

structure LogLine where
  level : LogLevel
  text : String
  deriving DecidableEq, Repr

namespace LogLine

/-- Shows a diagnostic. -/
def isReport (line : LogLine) : Bool :=
  line.level == .warn || line.level == .error

/-- Tells of a solve request that took a status. -/
def isConsumption (line : LogLine) : Bool :=
  line.level == .debug && "solve request consumes status".toList.isPrefixOf line.text.toList

end LogLine

/-- How a diagnostic is logged. -/
def Diagnostic.line (d : Diagnostic) : LogLine :=
  ⟨d.severity.level, d.location.text ++ ": " ++ d.cause.text⟩

/-- An error about a solve request without a status. -/
def Diagnostic.isUnanswered (d : Diagnostic) : Bool :=
  d.isError && d.isMissingStatus

namespace Event

def line (e : Event) : LogLine := ⟨e.level, e.text⟩

/-- Tells what becomes of a solve request: it takes a status, or there is none for it. -/
def settles : Event → Bool
  | .consumed _ => true
  | .diagnosed d => d.isUnanswered
  | .started .. | .declared .. | .finished .. => false

theorem line_diagnosed (d : Diagnostic) : (diagnosed d).line = d.line := by
  obtain ⟨severity, location, cause⟩ := d
  cases severity <;> rfl

theorem isReport_line (e : Event) : e.line.isReport = e.diagnostic?.isSome := by
  cases e with
  | diagnosed d =>
    rw [line_diagnosed]
    obtain ⟨severity, location, cause⟩ := d
    cases severity <;> rfl
  | started | declared | consumed | finished => rfl

/-- The texts of the other events begin differently. -/
theorem isConsumption_line (e : Event) :
    e.line.isConsumption = match e with
      | .consumed _ => true
      | _ => false := by
  cases e with
  | started file language =>
    change LogLine.isConsumption
      ⟨.debug, "normalizing '" ++ file ++ "' as " ++ spelling language⟩ = false
    simp [LogLine.isConsumption, List.isPrefixOf]
  | declared field value =>
    change LogLine.isConsumption
      ⟨.debug, "header " ++ spelling field ++ " set to '" ++ value ++ "'"⟩ = false
    simp [LogLine.isConsumption, List.isPrefixOf]
  | consumed status =>
    change LogLine.isConsumption
      ⟨.debug, "solve request consumes status '" ++ status ++ "'"⟩ = true
    simp [LogLine.isConsumption, List.isPrefixOf]
  | diagnosed d =>
    obtain ⟨severity, location, cause⟩ := d
    cases severity <;> rfl
  | finished => rfl

end Event

theorem diagnosticsOf_cons (e : Event) (events : List Event) :
    diagnosticsOf (e :: events) = e.diagnostic?.toList ++ diagnosticsOf events := by
  cases e <;> rfl

/-- The reports in a log are the diagnostics, in order. -/
theorem filter_isReport (events : List Event) :
    (events.map Event.line).filter LogLine.isReport =
      (diagnosticsOf events).map Diagnostic.line := by
  induction events with
  | nil => rfl
  | cons e events ih =>
    rw [List.map_cons, List.filter_cons, ih, Event.isReport_line, diagnosticsOf_cons,
      List.map_append]
    cases e with
    | diagnosed d =>
      rw [Event.line_diagnosed]
      rfl
    | started | declared | consumed | finished => rfl

/-- Solve requests are settled in the log or among the diagnostics. -/
theorem countP_settles (events : List Event) :
    events.countP Event.settles =
      (events.map Event.line).countP LogLine.isConsumption +
        (diagnosticsOf events).countP Diagnostic.isUnanswered := by
  induction events with
  | nil => rfl
  | cons e events ih =>
    rw [List.map_cons, List.countP_cons, List.countP_cons, ih, Event.isConsumption_line,
      diagnosticsOf_cons, List.countP_append]
    cases e with
    | diagnosed d =>
      change _ + (if d.isUnanswered = true then 1 else 0) =
        _ + 0 + ([d].countP Diagnostic.isUnanswered + _)
      rw [List.countP_singleton]
      omega
    | consumed status =>
      change _ + 1 = _ + 1 + (0 + _)
      omega
    | started | declared | finished =>
      change _ + 0 = _ + 0 + (0 + _)
      omega

/-- The events account for the steps: they tell once of every solve request, and they sum nothing
up. -/
structure Accounts (events : List Event) (steps : List (Step Pooled)) : Prop where
  settled : events.countP Event.settles = steps.countP Step.isProve
  unfinished : ∀ e ∈ events, e.level ≠ .info

theorem accounts_nil : Accounts [] [] := ⟨rfl, nofun⟩

theorem Accounts.append {events more : List Event} {steps later : List (Step Pooled)}
    (accounts : Accounts events steps) (accounts' : Accounts more later) :
    Accounts (events ++ more) (steps ++ later) where
  settled := by
    rw [List.countP_append, List.countP_append, accounts.settled, accounts'.settled]
  unfinished e mem := (List.mem_append.mp mem).elim (accounts.unfinished e) (accounts'.unfinished e)

theorem Accounts.append_aside {events more : List Event} {steps : List (Step Pooled)}
    (accounts : Accounts events steps) (aside : Accounts more []) :
    Accounts (events ++ more) steps :=
  List.append_nil steps ▸ accounts.append aside

/-- A remark that has nothing to do with a solve request. -/
theorem accounts_aside {e : Event} (aside : e.settles = false)
    (level : (e.level == .info) = false) : Accounts [e] [] where
  settled := by
    rw [List.countP_singleton, aside]
    rfl
  unfinished := List.forall_mem_singleton.mpr (beq_eq_false_iff_ne.mp level)

theorem accounts_request {e : Event} {s : Step Pooled} (request : s.isProve)
    (settles : e.settles = true) (level : (e.level == .info) = false) : Accounts [e] [s] where
  settled := by rw [List.countP_singleton, List.countP_singleton, settles, request]
  unfinished := List.forall_mem_singleton.mpr (beq_eq_false_iff_ne.mp level)

theorem Accounts.passive {events : List Event} {s : Step Pooled} (accounts : Accounts events [])
    (passive : ¬ s.isProve) : Accounts events [s] where
  settled := by
    rw [accounts.settled, List.countP_singleton, if_neg passive]
    rfl
  unfinished := accounts.unfinished

namespace Record

variable {config : Config} {r : Record}

theorem accounts_check (config : Config) (r : Record) (s : Step Pooled) :
    Accounts (r.check config s).2 [s] := by
  rcases check_cases config s with
    ⟨f, value, declares, passive⟩ | ⟨place, fault, malformed, passive⟩ | request | ⟨other, passive⟩
  · rw [check_of_declares declares]
    refine Accounts.passive (Accounts.append_aside ?_ (accounts_aside rfl rfl)) passive
    cases refused : config.disallowed? f value with
    | none => exact accounts_nil
    | some problem =>
      have aside : (config.diagnosis .error s.label.loc (.header problem)).settles = false := by
        cases problem with
        | missingStatus name =>
          exact absurd refused (config.disallowed?_ne_missingStatus f value name)
        | malformed | licenseNotAllowed | versionNotAllowed | missingWanted | missingRequired => rfl
      exact accounts_aside aside rfl
  · rw [check_of_malformed malformed]
    exact (accounts_aside rfl rfl).passive passive
  · rw [check_of_isProve request, consume]
    cases r.get? .status with
    | none => exact accounts_request request rfl rfl
    | some status => exact accounts_request request rfl rfl
  · rw [check_of_other other passive]
    exact accounts_nil.passive passive

theorem accounts_told (config : Config) (r : Record) (steps : List (Step Pooled)) :
    Accounts (r.told config steps) steps := by
  induction steps generalizing r with
  | nil => exact accounts_nil
  | cons s steps ih => exact (accounts_check config r s).append (ih _)

/-- The last report is about no solve request. -/
theorem accounts_review (config : Config) (r : Record) : Accounts (r.review config) [] := by
  unfold review
  refine Accounts.append_aside ?_ ?_
  · split
    · exact accounts_nil
    · exact accounts_aside rfl rfl
  · split
    · exact accounts_nil
    · exact accounts_aside rfl rfl

end Record

namespace Context

theorem config_conclude (ctx : Context) : ctx.conclude.config = ctx.config := by
  unfold conclude
  split <;> rfl

/-- What is left without the errors is as many as there are warnings. -/
theorem warnings_eq_countP (ctx : Context) :
    ctx.warnings = ctx.diagnostics.countP (!·.isError) := by
  have total := ctx.diagnostics.length_eq_countP_add_countP Diagnostic.isError
  have others : ctx.diagnostics.countP (fun d => decide ¬ d.isError = true) =
      ctx.diagnostics.countP (!·.isError) :=
    List.countP_congr fun d _ => by simp
  rw [warnings, errors]
  omega

end Context

/-! ## A whole run -/

namespace Stream

/-- The steps that header checks look at. -/
def checked (config : Config) (steps : List (Step Pooled)) : List (Step Pooled) :=
  if config.checkHeaders then steps else []

theorem checked_append (config : Config) (steps more : List (Step Pooled)) :
    checked config (steps ++ more) = checked config steps ++ checked config more := by
  unfold checked
  split <;> rfl

theorem context_feed_eq_checked (s : Stream) (item : Item Pooled) :
    let form := (item.canonical s.language s.pool).1
    (s.feed item).2.context = (s.context.receive item.loc form).checkSteps
      (checked s.context.config form.statement.flatten) := by
  intro form
  cases check : s.context.config.checkHeaders with
  | false =>
    rw [context_feed_of_disabled check, checked, if_neg (Bool.not_eq_true _ ▸ check)]
    rfl
  | true => rw [context_feed_of_enabled check, checked, if_pos check]

variable {s : Stream} {steps : List (Step Pooled)}

/-- A refusal is about no solve request. -/
theorem accounts_receive {ctx : Context} (accounts : Accounts ctx.journal.toList steps)
    (loc : Option Span) (form : Canonical) :
    Accounts (ctx.receive loc form).journal.toList steps := by
  rw [Context.receive_eq, Context.journal_tell]
  refine accounts.append_aside ?_
  cases form.warning with
  | none => exact accounts_nil
  | some warning => exact accounts_aside rfl rfl

theorem accounts_feed (accounts : Accounts s.context.journal.toList steps) (item : Item Pooled) :
    Accounts (s.feed item).2.context.journal.toList
      (steps ++ checked s.context.config
        (item.canonical s.language s.pool).1.statement.flatten) := by
  have received := accounts_receive accounts item.loc (item.canonical s.language s.pool).1
  rw [context_feed_eq_checked, Context.checkSteps_eq]
  refine (Context.journal_tell _ _).symm ▸ received.append ?_
  exact Record.accounts_told _ _ _

theorem accounts_feedAll (accounts : Accounts s.context.journal.toList steps)
    (items : List (Item Pooled)) :
    Accounts (s.feedAll items).context.journal.toList
      (steps ++ checked s.context.config (flatSteps s.language items s.pool)) := by
  induction items generalizing s steps with
  | nil =>
    rw [flatSteps_nil, checked, ite_self, List.append_nil]
    exact accounts
  | cons item items ih =>
    have later := ih (accounts_feed accounts item)
    rw [config_feed, language_feed, pool_feed] at later
    rw [feedAll_cons, flatSteps_cons, checked_append, ← List.append_assoc]
    exact later

theorem accounts_conclude {ctx : Context} (accounts : Accounts ctx.journal.toList steps) :
    Accounts ctx.conclude.journal.toList steps := by
  unfold Context.conclude
  split
  · rw [Context.journal_tell]
    exact accounts.append_aside (Record.accounts_review _ _)
  · exact accounts

/-- The journal ends with the numbers of what came before. -/
theorem journal_close (s : Stream) :
    s.close.context.journal.toList = s.context.conclude.journal.toList ++
      [.finished s.context.config.inputFile s.statements.size
        (s.close.context.diagnostics.countP Diagnostic.isError)
        (s.close.context.diagnostics.countP (!·.isError))] := by
  rw [diagnostics_close_eq_conclude, ← Context.warnings_eq_countP, close,
    Context.journal_tell, Context.config_conclude]
  rfl

/-- The diagnostics that come with a result, if an input was read at all. -/
def Outcome.diagnostics? (outcome : Outcome) : Option (List Diagnostic) :=
  match outcome.result with
  | .ok accepted => some accepted.diagnostics
  | .error (.rejected diagnostics) => some diagnostics
  | .error .noLanguage | .error (.unknownExtension _) => none

def Outcome.log (outcome : Outcome) : List LogLine :=
  outcome.journal.toList.map Event.line

section

variable {config : Config} {language : Language} (chosen : config.language = some language)
  (items : List (Item Pooled)) (pool : Pool)

include chosen

theorem journal_run : (run config items pool).journal =
    ((fresh config language pool).feedAll items).close.context.journal := by
  rw [run, start_of_language chosen]
  rfl

/-- The diagnostics of a result are those of the journal. -/
theorem diagnostics?_run : (run config items pool).diagnostics? =
    some (diagnosticsOf (run config items pool).journal.toList) := by
  rw [Outcome.diagnostics?, result_run chosen, verdict, journal_run chosen]
  cases ((fresh config language pool).feedAll items).close.context.hasErrors <;> rfl

/-- The journal of a run accounts for the items, and then sums up. -/
theorem accounts_run :
    ∃ events, Accounts events (checked config (flatSteps language items pool)) ∧
      let journal := (run config items pool).journal.toList
      journal = events ++ [.finished config.inputFile items.length
        ((diagnosticsOf journal).countP Diagnostic.isError)
        ((diagnosticsOf journal).countP (!·.isError))] := by
  have begun : Accounts (fresh config language pool).context.journal.toList [] :=
    accounts_aside rfl rfl
  have taken : ((fresh config language pool).feedAll items).statements.size = items.length := by
    have statements := congrArg List.length
      (statements_feedAll (fresh config language pool) items)
    rw [List.length_append, length_answers] at statements
    exact statements.trans (Nat.zero_add _)
  have closed := journal_close ((fresh config language pool).feedAll items)
  rw [taken, config_feedAll, config_fresh] at closed
  rw [journal_run chosen]
  exact ⟨_, accounts_conclude (accounts_feedAll begun items), closed⟩

end

/-- **The log tells the story of the result.** With a language chosen, every run has diagnostics in
the end. The warnings and errors of the log are these diagnostics, in order, each with its place and
what is said of it. The last line, and no other, informs of the numbers of items, errors and
warnings. If headers are checked, every solve request either takes a status, which is logged, or is
reported as an error. -/
theorem log_tells_result (config : Config) (language : Language)
    (chosen : config.language = some language) (items : List (Item Pooled)) (pool : Pool) :
    let outcome := run config items pool
    ∃ diagnostics, outcome.diagnostics? = some diagnostics ∧
      outcome.log.filter LogLine.isReport = diagnostics.map Diagnostic.line ∧
      (∃ front, (∀ line ∈ front, line.level ≠ .info) ∧
        outcome.log = front ++ [⟨.info, "'" ++ config.inputFile ++ "': " ++ items.length.repr ++
          " statements, " ++ (diagnostics.countP Diagnostic.isError).repr ++ " errors, " ++
          (diagnostics.countP (!·.isError)).repr ++ " warnings"⟩]) ∧
      (config.checkHeaders = true →
        outcome.log.countP LogLine.isConsumption + diagnostics.countP Diagnostic.isUnanswered =
          (flatSteps language items pool).countP Step.isProve) := by
  intro outcome
  obtain ⟨events, accounts, journal⟩ := accounts_run chosen items pool
  refine ⟨diagnosticsOf outcome.journal.toList, diagnostics?_run chosen items pool,
    filter_isReport _, ⟨events.map Event.line, ?_, ?_⟩, fun enabled => ?_⟩
  · intro line mem
    obtain ⟨e, among, rfl⟩ := List.mem_map.mp mem
    exact accounts.unfinished e among
  · exact (congrArg (List.map Event.line) journal).trans List.map_append
  · rw [Outcome.log, ← countP_settles, journal, List.countP_append, accounts.settled,
      checked, if_pos enabled]
    rfl

/-- Of two solve requests after one status, the first one is logged to take it and the second one is
reported. -/
theorem two_requests_logged :
    let config : Config := { language := some .smtlib, checkHeaders := true }
    let term (number : Nat) (shape : Shape Pooled) : Pooled := .mk ⟨number, none⟩ shape
    let status := term 2 (.app (term 3 (.symbol (.attr ":status")))
      [term 4 (.symbol (.term "sat"))])
    let items : List (Item Pooled) := [
      { keyword := "set-info", args := [status] },
      { keyword := "check-sat", args := [] },
      { keyword := "check-sat", args := [] }]
    let outcome := run config items .new
    config.language = some .smtlib ∧ config.checkHeaders = true ∧
    ∃ diagnostics, outcome.diagnostics? = some diagnostics ∧
      outcome.log.filter LogLine.isReport = diagnostics.map Diagnostic.line ∧
      outcome.log.countP LogLine.isConsumption +
        diagnostics.countP Diagnostic.isUnanswered = 2 := by
  intro config term status items outcome
  obtain ⟨diagnostics, reported, lines, _, settled⟩ :=
    log_tells_result config .smtlib rfl items .new
  exact ⟨rfl, rfl, diagnostics, reported, lines, settled rfl⟩

end Stream

end ProblemIntake
