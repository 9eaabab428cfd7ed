import ProblemIntake.Proofs.Header.Compliance
import ProblemIntake.Stream

namespace ProblemIntake

namespace Context

theorem journal_tell (ctx : Context) (events : List Event) :
    (ctx.tell events).journal.toList = ctx.journal.toList ++ events := by
  simp [tell]

theorem receive_eq (ctx : Context) (loc : Option Span) (canonical : Canonical) :
    ctx.receive loc canonical = ctx.tell (canonical.warning.toList.map fun warning =>
      ctx.config.diagnosis .warning loc (.item warning)) := by
  unfold receive
  cases canonical.warning with
  | none => exact (tell_nil ctx).symm
  | some warning => rfl

@[simp] theorem config_receive (ctx : Context) (loc : Option Span) (canonical : Canonical) :
    (ctx.receive loc canonical).config = ctx.config := by
  rw [receive_eq]
  rfl

@[simp] theorem headers_receive (ctx : Context) (loc : Option Span) (canonical : Canonical) :
    (ctx.receive loc canonical).headers = ctx.headers := by
  rw [receive_eq]
  rfl

/-- A refused item is no error. -/
theorem errorFree_receive_iff {ctx : Context} {loc : Option Span} {canonical : Canonical} :
    ErrorFree (ctx.receive loc canonical).journal.toList ↔ ErrorFree ctx.journal.toList := by
  rw [receive_eq, journal_tell, errorFree_append]
  cases canonical.warning <;> simp

theorem errorFree_checkSteps_iff {ctx : Context} {steps : List (Step Pooled)} :
    ErrorFree (ctx.checkSteps steps).journal.toList ↔
      ErrorFree ctx.journal.toList ∧ ErrorFree (ctx.headers.told ctx.config steps) := by
  rw [checkSteps_eq]
  exact (journal_tell ctx _).symm ▸ errorFree_append

end Context

namespace Stream

/-- The canonical forms of items, each read from the pool that the items before it left. -/
def forms (language : Language) (items : List (Item Pooled)) : StateM Pool (List Canonical) :=
  items.mapM (·.canonical language)

/-- The steps that items stand for, in order. -/
def flatSteps (language : Language) (items : List (Item Pooled)) (pool : Pool) :
    List (Step Pooled) :=
  (forms language items pool).1.flatMap (·.statement.flatten)

theorem forms_cons (language : Language) (item : Item Pooled) (items : List (Item Pooled))
    (pool : Pool) :
    forms language (item :: items) pool =
      let form := item.canonical language pool
      let rest := forms language items form.2
      (form.1 :: rest.1, rest.2) := by
  simp only [forms, List.mapM_cons]
  rfl

@[simp] theorem flatSteps_nil (language : Language) (pool : Pool) :
    flatSteps language [] pool = [] := rfl

theorem flatSteps_cons (language : Language) (item : Item Pooled) (items : List (Item Pooled))
    (pool : Pool) :
    flatSteps language (item :: items) pool =
      (item.canonical language pool).1.statement.flatten ++
        flatSteps language items (item.canonical language pool).2 := by
  rw [flatSteps, forms_cons]
  exact List.flatMap_cons

/-- Later items are read from the pool that the earlier ones left. -/
theorem flatSteps_append (language : Language) (items more : List (Item Pooled)) (pool : Pool) :
    flatSteps language (items ++ more) pool =
      flatSteps language items pool ++ flatSteps language more (forms language items pool).2 := by
  induction items generalizing pool with
  | nil => rfl
  | cons item items ih => rw [List.cons_append, flatSteps_cons, flatSteps_cons, ih, forms_cons,
      List.append_assoc]

/-- The stream that has taken all the items. -/
def feedAll (s : Stream) (items : List (Item Pooled)) : Stream :=
  items.foldl (fun s item => (s.feed item).2) s

@[simp] theorem feedAll_nil (s : Stream) : s.feedAll [] = s := rfl

@[simp] theorem feedAll_cons (s : Stream) (item : Item Pooled) (items : List (Item Pooled)) :
    s.feedAll (item :: items) = (s.feed item).2.feedAll items := rfl

theorem language_feed (s : Stream) (item : Item Pooled) :
    (s.feed item).2.language = s.language := rfl

theorem pool_feed (s : Stream) (item : Item Pooled) :
    (s.feed item).2.pool = (item.canonical s.language s.pool).2 := rfl

theorem context_feed (s : Stream) (item : Item Pooled) :
    (s.feed item).2.context =
      (s.context.receive item.loc (item.canonical s.language s.pool).1).examine
        (item.canonical s.language s.pool).1.statement := rfl

variable {s : Stream}

theorem context_feed_of_enabled (enabled : s.context.config.checkHeaders = true)
    (item : Item Pooled) :
    (s.feed item).2.context =
      (s.context.receive item.loc (item.canonical s.language s.pool).1).checkSteps
        (item.canonical s.language s.pool).1.statement.flatten := by
  rw [context_feed, Context.examine_of_enabled]
  rwa [Context.config_receive]

theorem context_feed_of_disabled (disabled : s.context.config.checkHeaders = false)
    (item : Item Pooled) :
    (s.feed item).2.context =
      s.context.receive item.loc (item.canonical s.language s.pool).1 := by
  rw [context_feed, Context.examine_of_disabled]
  rwa [Context.config_receive]

theorem config_feed (s : Stream) (item : Item Pooled) :
    (s.feed item).2.context.config = s.context.config := by
  cases check : s.context.config.checkHeaders
  · rw [context_feed_of_disabled check, Context.config_receive]
  · rw [context_feed_of_enabled check, Context.config_checkSteps, Context.config_receive]

@[simp] theorem config_feedAll (s : Stream) (items : List (Item Pooled)) :
    (s.feedAll items).context.config = s.context.config := by
  induction items generalizing s with
  | nil => rfl
  | cons item items ih => rw [feedAll_cons, ih, config_feed]

theorem headers_feedAll (enabled : s.context.config.checkHeaders = true)
    (items : List (Item Pooled)) :
    (s.feedAll items).context.headers =
      s.context.headers.after s.context.config (flatSteps s.language items s.pool) := by
  induction items generalizing s with
  | nil => rfl
  | cons item items ih =>
    have next := ih (s := (s.feed item).2) (by rwa [config_feed])
    rw [config_feed, language_feed, pool_feed, context_feed_of_enabled enabled,
      Context.headers_checkSteps, Context.headers_receive, Context.config_receive] at next
    rw [feedAll_cons, next, flatSteps_cons, Record.after_append]

theorem headers_feedAll_of_disabled (disabled : s.context.config.checkHeaders = false)
    (items : List (Item Pooled)) : (s.feedAll items).context.headers = s.context.headers := by
  induction items generalizing s with
  | nil => rfl
  | cons item items ih =>
    rw [feedAll_cons, ih (by rwa [config_feed]), context_feed_of_disabled disabled,
      Context.headers_receive]

/-- The only errors of an input are those told about its steps. -/
theorem errorFree_feedAll_iff (enabled : s.context.config.checkHeaders = true)
    (items : List (Item Pooled)) :
    ErrorFree (s.feedAll items).context.journal.toList ↔
      ErrorFree s.context.journal.toList ∧
      ErrorFree
        (s.context.headers.told s.context.config (flatSteps s.language items s.pool)) := by
  induction items generalizing s with
  | nil => simp
  | cons item items ih =>
    have next := ih (s := (s.feed item).2) (by rwa [config_feed])
    rw [config_feed, language_feed, pool_feed, context_feed_of_enabled enabled,
      Context.errorFree_checkSteps_iff, Context.errorFree_receive_iff, Context.headers_checkSteps,
      Context.headers_receive, Context.config_receive] at next
    rw [feedAll_cons, next, flatSteps_cons, Record.told_append, errorFree_append, and_assoc]

theorem errorFree_feedAll_of_disabled (disabled : s.context.config.checkHeaders = false)
    (items : List (Item Pooled)) :
    ErrorFree (s.feedAll items).context.journal.toList ↔ ErrorFree s.context.journal.toList := by
  induction items generalizing s with
  | nil => rfl
  | cons item items ih =>
    rw [feedAll_cons, ih (by rwa [config_feed]), context_feed_of_disabled disabled,
      Context.errorFree_receive_iff]

end Stream

end ProblemIntake
