import ProblemIntake.Proofs.Canonical.Annotated
import ProblemIntake.Proofs.View.Basic

namespace ProblemIntake

namespace View

/-- A canonical form as it is seen. Warnings are texts, and always seen. -/
def form (v : View) (c : Canonical) : Statement Written × Option Warning :=
  (v.statement c.statement, c.warning)

variable {v : View} {loc loc' : Option Span} {args args' : List Pooled}

theorem statement_step (s : Step Pooled) : v.statement (.step s) = .step (v.step s) := rfl

theorem statement_pack (items : List (Statement Pooled)) (label : Label Pooled) :
    v.statement (.pack items label) = .pack (items.map v.statement) (v.label label) := by
  rw [statement, Statement.fold_pack]

theorem statement_relabel {f : Label Pooled → Label Pooled} {g : Label Written → Label Written}
    (seen : ∀ l, v.label (f l) = g (v.label l)) (s : Statement Pooled) :
    v.statement (s.relabel f) = (v.statement s).relabel g := by
  cases s with
  | step s =>
    rw [Statement.relabel, statement_step, statement_step, Statement.relabel, step, seen]
    rfl
  | pack items label =>
    rw [Statement.relabel, statement_pack, statement_pack, Statement.relabel, seen]

theorem statement_located (loc : Option Span) (s : Statement Pooled) :
    v.statement (s.located loc) = (v.statement s).located (v.place loc) :=
  statement_relabel (fun _ => rfl) s

theorem statement_noted (note : Option Pooled) (s : Statement Pooled) :
    v.statement (s.noted note) = (v.statement s).noted (note.map v.term) :=
  statement_relabel (fun _ => rfl) s

theorem flatten_statement (s : Statement Pooled) :
    (v.statement s).flatten = s.flatten.map v.step := by
  induction s using Statement.induction with
  | step s => rfl
  | pack items label ih =>
    rw [statement_pack, Statement.flatten_pack, Statement.flatten_pack, List.flatMap_map,
      List.map_flatMap]
    exact List.flatMap_congr ih

theorem statement_ofAction (a : Action Pooled) :
    v.statement (.ofAction a) = .ofAction (v.action a) := by
  rw [Statement.ofAction, statement_step, step, label, place_none]
  rfl

theorem ofAction_alike {a a' : Action Pooled} (same : v.action a = v.action a') :
    v.statement (.ofAction a) = v.statement (.ofAction a') := by
  rw [statement_ofAction, statement_ofAction, same]

theorem statement_datatype (d : Datatype Pooled) :
    v.statement (.datatype d) = .datatype (v.datatype d) := by
  rw [Statement.datatype, statement_located, statement_ofAction]
  rfl

theorem statement_goal (t : Pooled) : v.statement (.goal t) = .goal (v.term t) := by
  rw [Statement.goal, statement_pack, List.map_cons, List.map_singleton, statement_ofAction,
    statement_ofAction, label, place_none]
  rfl

theorem statement_attempt {trial trial' kept kept' : Action Pooled}
    (places : v.place loc = v.place loc') (trials : v.action trial = v.action trial')
    (lasting : v.action kept = v.action kept') :
    v.statement (.attempt loc trial kept) = v.statement (.attempt loc' trial' kept') := by
  simp only [Statement.attempt, statement_pack, List.map_cons, List.map_nil, statement_step, step,
    label, places, trials, lasting]

theorem Alike.assume {t t' : Pooled} (alike : v.Alike t t') :
    v.action (.assume t) = v.action (.assume t') :=
  congrArg Action.assume alike

theorem Alike.declare {type type' : Pooled} (alike : v.Alike type type') (id : Symbol) :
    v.action (.declare id type) = v.action (.declare id type') :=
  congrArg (Action.declare id) alike

theorem Alike.define {body body' : Pooled} (alike : v.Alike body body') (id : Symbol) :
    v.action (.define id body) = v.action (.define id body') :=
  congrArg (Action.define id) alike

theorem mapM_constructor?_view (v : View) (ts : List Pooled) :
    (ts.map v.term).mapM Term.constructor? =
      (ts.mapM Term.constructor?).map
        (List.map fun (name, fields) => (name, fields.map v.term)) := by
  induction ts with
  | nil => rfl
  | cons t ts ih =>
    rw [List.map_cons, List.mapM_cons, List.mapM_cons, ih, constructor?_term]
    cases t.constructor? with
    | none => rfl
    | some c => cases ts.mapM Term.constructor? <;> rfl

theorem ofArguments?_view (v : View) (loc : Option Span) (args : List Pooled) :
    Datatype.ofArguments? (v.place loc) (args.map v.term) =
      (Datatype.ofArguments? loc args).map v.datatype := by
  cases args with
  | nil => rfl
  | cons name constructors =>
    rw [List.map_cons, Datatype.ofArguments?, Datatype.ofArguments?, mapM_constructor?_view,
      symbol?_term]
    cases name.symbol? with
    | none => rfl
    | some s => cases constructors.mapM Term.constructor? <;> rfl

theorem action?_view (v : View) (command : Command) (loc : Option Span) (args : List Pooled) :
    command.action? (v.place loc) (args.map v.term) = (command.action? loc args).map v.action := by
  cases command with
  | declareDatatype =>
    simp only [Command.action?, ofArguments?_view, Option.map_map]
    rfl
  | _ =>
    -- Every other command takes two arguments at most, or any number of them as they are.
    rcases args with _ | ⟨a, _ | ⟨b, _ | ⟨c, rest⟩⟩⟩ <;>
      first
      | rfl
      | simp only [Command.action?, List.map_cons, List.map_nil, scopeCount?_term, symbol?_term,
          literal?_term, bareKeyword?_term, attribute?_term, declaration?_term, Option.isSome_map,
          Option.map_map, Option.map_if]
        rfl

theorem ofArguments?_alike (places : v.place loc = v.place loc')
    (same : List.Forall₂ v.Alike args args') :
    (Datatype.ofArguments? loc args).map v.datatype =
      (Datatype.ofArguments? loc' args').map v.datatype := by
  rw [← ofArguments?_view, ← ofArguments?_view, places, map_term_eq_iff.mpr same]

theorem action?_alike (command : Command) (places : v.place loc = v.place loc')
    (same : List.Forall₂ v.Alike args args') :
    (command.action? loc args).map v.action = (command.action? loc' args').map v.action := by
  rw [← action?_view, ← action?_view, places, map_term_eq_iff.mpr same]

/-- Both are statements that look alike, or the same refusal. -/
theorem except_cases {r r' : Except Warning (Statement Pooled)}
    (same : r.map v.statement = r'.map v.statement) :
    (∃ s s', r = .ok s ∧ r' = .ok s' ∧ v.statement s = v.statement s') ∨
      ∃ w, r = .error w ∧ r' = .error w := by
  cases r with
  | ok s =>
    cases r' with
    | ok s' => exact .inl ⟨s, s', rfl, rfl, Except.ok.inj same⟩
    | error => cases same
  | error w =>
    cases r' with
    | ok => cases same
    | error w' => exact .inr ⟨w, rfl, congrArg _ (Except.error.inj same).symm⟩

theorem form_settle {r r' : Except Warning (Statement Pooled)} (places : v.place loc = v.place loc')
    (same : r.map v.statement = r'.map v.statement) :
    v.form (.settle loc r) = v.form (.settle loc' r') := by
  rcases except_cases same with ⟨s, s', rfl, rfl, seen⟩ | ⟨w, rfl, rfl⟩
  · simp only [Canonical.settle, form, statement_located, seen, places]
  · simp only [Canonical.settle, form, statement_located, places]

theorem form_labelled {r r' : Except Warning (Statement Pooled)} {label label' : Label Pooled}
    (labels : v.label label = v.label label') (same : r.map v.statement = r'.map v.statement) :
    v.form (.labelled label r) = v.form (.labelled label' r') := by
  have relabel (label : Label Pooled) (s : Statement Pooled) :
      v.statement (s.relabel fun _ => label) = (v.statement s).relabel fun _ => v.label label :=
    statement_relabel (fun _ => rfl) s
  rcases except_cases same with ⟨s, s', rfl, rfl, seen⟩ | ⟨w, rfl, rfl⟩
  · simp only [Canonical.labelled, form, relabel, seen, labels]
  · simp only [Canonical.labelled, form, relabel, labels]

end View

end ProblemIntake
