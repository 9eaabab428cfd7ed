import ProblemIntake.Proofs.Stream.Progress
import ProblemIntake.Proofs.View.Canonical
import ProblemIntake.Proofs.View.Headers

/-! Streams that take items which look alike stay alike, whatever pools their terms are in. -/

namespace ProblemIntake

namespace View

variable {v : View}

/-- Contexts that look alike. -/
structure Level (v : View) (ctx ctx' : Context) : Prop where
  config : ctx.config = ctx'.config
  headers : ctx.headers = ctx'.headers
  journal : ctx.journal.toList.map v.event = ctx'.journal.toList.map v.event

theorem diagnosticsOf_map_event (events : List Event) :
    diagnosticsOf (events.map v.event) = (diagnosticsOf events).map v.diagnostic := by
  have seen (e : Event) : (v.event e).diagnostic? = e.diagnostic?.map v.diagnostic := by
    cases e <;> rfl
  rw [diagnosticsOf, diagnosticsOf, List.filterMap_map, List.map_filterMap]
  exact congrArg (List.filterMap · events) (funext seen)

namespace Level

variable {ctx ctx' : Context}

theorem tell (level : Level v ctx ctx') {events events' : List Event}
    (same : events.map v.event = events'.map v.event) :
    Level v (ctx.tell events) (ctx'.tell events') := by
  refine ⟨level.config, level.headers, ?_⟩
  rw [Context.journal_tell, Context.journal_tell, List.map_append, List.map_append, level.journal,
    same]

theorem receive (level : Level v ctx ctx') {loc loc' : Option Span} {form form' : Canonical}
    (places : v.place loc = v.place loc') (warnings : form.warning = form'.warning) :
    Level v (ctx.receive loc form) (ctx'.receive loc' form') := by
  rw [Context.receive_eq, Context.receive_eq, warnings, level.config]
  refine level.tell ?_
  simp only [List.map_map, Function.comp_def, event_diagnosis, places]

theorem examine (level : Level v ctx ctx') {s s' : Statement Pooled}
    (alike : v.statement s = v.statement s') : Level v (ctx.examine s) (ctx'.examine s') := by
  cases check : ctx.config.checkHeaders with
  | false =>
    have check' : ctx'.config.checkHeaders = false := by rwa [← level.config]
    rw [Context.examine_of_disabled check, Context.examine_of_disabled check']
    exact level
  | true =>
    have check' : ctx'.config.checkHeaders = true := by rwa [← level.config]
    have steps : s.flatten.map v.step = s'.flatten.map v.step := by
      rw [← flatten_statement, alike, flatten_statement]
    obtain ⟨after, told⟩ := steps_alike steps ctx'.config ctx'.headers
    rw [Context.examine_of_enabled check, Context.examine_of_enabled check',
      Context.checkSteps_eq, Context.checkSteps_eq, level.config, level.headers]
    exact ⟨level.config, after, (level.tell told).journal⟩

theorem conclude (level : Level v ctx ctx') : Level v ctx.conclude ctx'.conclude := by
  unfold Context.conclude
  rw [level.config, level.headers]
  split
  · exact level.tell rfl
  · exact level

theorem diagnostics (level : Level v ctx ctx') :
    ctx.diagnostics.map v.diagnostic = ctx'.diagnostics.map v.diagnostic := by
  have same := congrArg diagnosticsOf level.journal
  rwa [diagnosticsOf_map_event, diagnosticsOf_map_event] at same

/-- What does not depend on the place of a diagnostic is the same for both. -/
theorem map_diagnostics (level : Level v ctx ctx') {β : Type} {f : Diagnostic → β}
    (placeless : ∀ d, f (v.diagnostic d) = f d) :
    ctx.diagnostics.map f = ctx'.diagnostics.map f := by
  have same := congrArg (List.map f) level.diagnostics
  have seen : f ∘ v.diagnostic = f := funext placeless
  rwa [List.map_map, List.map_map, seen] at same

theorem severities (level : Level v ctx ctx') :
    ctx.diagnostics.map Diagnostic.isError = ctx'.diagnostics.map Diagnostic.isError :=
  level.map_diagnostics fun _ => rfl

theorem hasErrors (level : Level v ctx ctx') : ctx.hasErrors = ctx'.hasErrors := by
  have same := congrArg (List.any · id) level.severities
  rw [List.any_map, List.any_map] at same
  exact same

theorem errors (level : Level v ctx ctx') : ctx.errors = ctx'.errors := by
  have same := congrArg (List.countP id) level.severities
  rw [List.countP_map, List.countP_map] at same
  exact same

theorem warnings (level : Level v ctx ctx') : ctx.warnings = ctx'.warnings := by
  have lengths := congrArg List.length level.severities
  rw [List.length_map, List.length_map] at lengths
  rw [Context.warnings, Context.warnings, lengths, level.errors]

end Level

/-- Streams that look alike, each with a pool of its own. -/
structure Abreast (v : View) (s s' : Stream) : Prop where
  language : s.language = s'.language
  coherent : s.pool.Coherent
  coherent' : s'.pool.Coherent
  context : Level v s.context s'.context
  statements : s.statements.toList.map v.statement = s'.statements.toList.map v.statement

theorem abreast_fresh (v : View) (config : Config) (language : Language) {pool pool' : Pool}
    (coherent : pool.Coherent) (coherent' : pool'.Coherent) :
    Abreast v (.fresh config language pool) (.fresh config language pool') :=
  ⟨rfl, coherent, coherent', ⟨rfl, rfl, rfl⟩, rfl⟩

namespace Abreast

variable {s s' : Stream} {item item' : Item Pooled}

theorem feed (abreast : Abreast v s s') (twins : Twins v item item' s.pool s'.pool) :
    Abreast v (s.feed item).2 (s'.feed item').2 := by
  have forms : v.form (item.canonical s.language s.pool).1 =
      v.form (item'.canonical s'.language s'.pool).1 := by
    rw [← abreast.language]
    exact twins.form_canonical s.language
  obtain ⟨statements, warnings⟩ := Prod.mk.inj forms
  refine ⟨abreast.language, ?_, ?_, ?_, ?_⟩
  · exact (item.extends_canonical s.language abreast.coherent twins.owned).coherent
  · exact (item'.extends_canonical s'.language abreast.coherent' twins.owned').coherent
  · exact (abreast.context.receive twins.place warnings).examine statements
  · rw [Stream.statements_feed, Stream.statements_feed, Array.toList_push, Array.toList_push,
      List.map_append, List.map_append, abreast.statements]
    exact congrArg (fun t => _ ++ [t]) statements

/-- The induction is on the two rows at once. Both pools grow, so items that are still to come stay
in them. -/
theorem feedAll {items items' : List (Item Pooled)} (abreast : Abreast v s s')
    (owned : ∀ item ∈ items, item.OwnedBy s.pool)
    (owned' : ∀ item ∈ items', item.OwnedBy s'.pool)
    (alike : items.map (v.item ·.written) = items'.map (v.item ·.written)) :
    Abreast v (s.feedAll items) (s'.feedAll items') := by
  induction items generalizing s s' items' with
  | nil =>
    rw [List.map_eq_nil_iff.mp alike.symm]
    exact abreast
  | cons item items ih =>
    cases items' with
    | nil => cases alike
    | cons item' items' =>
      obtain ⟨first, rest⟩ := List.cons.inj alike
      obtain ⟨own, later⟩ := List.forall_mem_cons.mp owned
      obtain ⟨own', later'⟩ := List.forall_mem_cons.mp owned'
      have twins : Twins v item item' s.pool s'.pool :=
        ⟨first, abreast.coherent, abreast.coherent', own, own'⟩
      have grown := item.extends_canonical s.language abreast.coherent own
      have grown' := item'.extends_canonical s'.language abreast.coherent' own'
      rw [Stream.feedAll_cons, Stream.feedAll_cons]
      apply ih (abreast.feed twins)
      · exact fun other mem => (later other mem).extends grown
      · exact fun other mem => (later' other mem).extends grown'
      · exact rest

theorem close (abreast : Abreast v s s') : Abreast v s.close s'.close := by
  have context := abreast.context.conclude
  have sizes : s.statements.size = s'.statements.size := by
    have lengths := congrArg List.length abreast.statements
    rwa [List.length_map, List.length_map, Array.length_toList, Array.length_toList] at lengths
  refine ⟨abreast.language, abreast.coherent, abreast.coherent', ?_, abreast.statements⟩
  rw [Stream.close, Stream.close]
  dsimp only
  rw [context.config, context.errors, context.warnings, sizes]
  exact context.tell rfl

end Abreast

/-- Items that look alike are built in two pools, and fed to two new streams. -/
theorem abreast_built (config : Config) (language : Language) {pool pool' : Pool}
    {items items' : List (Item Written)} (coherent : pool.Coherent) (coherent' : pool'.Coherent)
    (alike : items.map v.item = items'.map v.item) :
    let built := items.mapM Item.build pool
    let built' := items'.mapM Item.build pool'
    Abreast v ((Stream.fresh config language built.2).feedAll built.1).close
      ((Stream.fresh config language built'.2).feedAll built'.1).close := by
  intro built built'
  obtain ⟨grown, owned, written⟩ := Item.rendered_mapM_build items coherent
  obtain ⟨grown', owned', written'⟩ := Item.rendered_mapM_build items' coherent'
  have opened := abreast_fresh v config language grown.coherent grown'.coherent
  have seen : built.1.map (v.item ·.written) = built'.1.map (v.item ·.written) :=
    calc built.1.map (v.item ·.written)
      _ = items.map v.item := by rw [← written, List.map_map]; rfl
      _ = items'.map v.item := alike
      _ = built'.1.map (v.item ·.written) := by rw [← written', List.map_map]; rfl
  exact (opened.feedAll owned owned' seen).close

end View

/-- What a diagnostic says, and how severe it is. -/
def Diagnostic.message (d : Diagnostic) : Severity × String := (d.severity, d.cause.text)

namespace Stream

/-- The outcomes of two streams are the same but for places. -/
structure SameButPlaces (s s' : Stream) : Prop where
  /-- Both inputs are accepted, or both are rejected. -/
  verdict : s.verdict.isOk = s'.verdict.isOk
  /-- They report the same, in the same order. -/
  messages : s.context.diagnostics.map Diagnostic.message =
    s'.context.diagnostics.map Diagnostic.message
  /-- They hold the same headers, in the same order. -/
  headers : s.context.headers = s'.context.headers
  /-- Their statements are the same trees. -/
  statements : s.statements.toList.map View.bare.statement =
    s'.statements.toList.map View.bare.statement

theorem isOk_verdict (s : Stream) : s.verdict.isOk = !s.context.hasErrors := by
  unfold verdict
  cases s.context.hasErrors <;> rfl

/-- **Places never influence the outcome.** If two inputs are the same once all places are taken
from them, those of the items and those of all their terms, then building and running each of them
in a new pool leads to the same verdict, the same reports in the same order, the same headers in the
same order, and statements that are the same once all places are taken from them. -/
theorem places_never_matter (config : Config) (language : Language)
    (chosen : config.language = some language) (items items' : List (Item Written))
    (alike : items.map View.bare.item = items'.map View.bare.item) :
    let built := items.mapM Item.build Pool.new
    let built' := items'.mapM Item.build Pool.new
    ∃ s s', start config built.2 = .ok s ∧ start config built'.2 = .ok s' ∧
      let closed := (s.feedAll built.1).close
      let closed' := (s'.feedAll built'.1).close
      (run config built.1 built.2).result = closed.verdict ∧
      (run config built'.1 built'.2).result = closed'.verdict ∧
      SameButPlaces closed closed' := by
  intro built built'
  refine ⟨_, _, start_of_language chosen _, start_of_language chosen _, result_run chosen _ _,
    result_run chosen _ _, ?_⟩
  have abreast := View.abreast_built config language Pool.coherent_new Pool.coherent_new alike
  refine ⟨?_, ?_, abreast.context.headers, abreast.statements⟩
  · rw [isOk_verdict, isOk_verdict, abreast.context.hasErrors]
  · exact abreast.context.map_diagnostics fun _ => rfl

/-- A conjunction in place of a type declaration leads to the same outcome, whether its two members
stand in two places or in none. -/
theorem conjunction_told_alike :
    let config : Config := { language := some .tptp }
    let symbol (loc : Option Span) : Written := .mk loc (.symbol (.term "p"))
    let formula (loc left right : Option Span) : Written :=
      .mk loc (.op .and [symbol left, symbol right])
    let span (first last : Nat) : Option Span := some ⟨⟨1, first⟩, ⟨1, last⟩⟩
    let items : List (Item Written) :=
      [{ keyword := "type", args := [formula (span 1 5) (span 1 1) (span 5 5)], loc := span 1 5 }]
    let items' : List (Item Written) := [{ keyword := "type", args := [formula none none none] }]
    let built := items.mapM Item.build Pool.new
    let built' := items'.mapM Item.build Pool.new
    items ≠ items' ∧ items.map View.bare.item = items'.map View.bare.item ∧
    ∃ s s', start config built.2 = .ok s ∧ start config built'.2 = .ok s' ∧
      SameButPlaces (s.feedAll built.1).close (s'.feedAll built'.1).close := by
  intro config symbol formula span items items' built built'
  have different : items ≠ items' := by
    intro same
    cases congrArg (List.map Item.loc) same
  obtain ⟨s, s', started, started', _, _, same⟩ :=
    places_never_matter config .tptp rfl items items' rfl
  exact ⟨different, rfl, s, s', started, started', same⟩

end Stream

end ProblemIntake
