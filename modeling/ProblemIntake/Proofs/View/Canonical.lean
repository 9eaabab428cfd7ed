import ProblemIntake.Proofs.Canonical.Extension
import ProblemIntake.Proofs.View.Statements

namespace ProblemIntake

namespace View

/-- Terms of one pool and terms of another that look alike. -/
structure Peers (v : View) (pool pool' : Pool) (ts ts' : List Pooled) : Prop where
  coherent : pool.Coherent
  coherent' : pool'.Coherent
  owned : ∀ t ∈ ts, pool.Owns t
  owned' : ∀ t ∈ ts', pool'.Owns t
  alike : List.Forall₂ v.Alike ts ts'

/-- Two items that look alike, each of them made of terms of a pool of its own. -/
structure Twins (v : View) (item item' : Item Pooled) (pool pool' : Pool) : Prop where
  alike : v.item item.written = v.item item'.written
  coherent : pool.Coherent
  coherent' : pool'.Coherent
  owned : item.OwnedBy pool
  owned' : item'.OwnedBy pool'

variable {v : View} {loc loc' : Option Span} {pool pool' : Pool}

theorem Alike.intern {shape shape' : Shape Pooled}
    (children : Peers v pool pool' shape.children shape'.children)
    (shapes : shape.map v.term = shape'.map v.term) (places : v.place loc = v.place loc') :
    v.Alike (Pool.intern shape loc pool).1 (Pool.intern shape' loc' pool').1 := by
  rw [Alike, term_intern children.coherent children.owned,
    term_intern children.coherent' children.owned', shapes, places]

/-- A symbol without a place looks the same in every pool. -/
theorem intern_symbol (coherent : pool.Coherent) (coherent' : pool'.Coherent) (s : Symbol) :
    v.Alike (Pool.intern (.symbol s) none pool).1 (Pool.intern (.symbol s) none pool').1 :=
  Alike.intern ⟨coherent, coherent', nofun, nofun, .nil⟩ rfl rfl

namespace Peers

variable {t t' : Pooled} {ts ts' : List Pooled}

theorem grown {later later' : Pool} (peers : Peers v pool pool' ts ts') (grown : pool.Extends later)
    (grown' : pool'.Extends later') : Peers v later later' ts ts' :=
  ⟨grown.coherent, grown'.coherent, fun t mem => grown.keeps t (peers.owned t mem),
    fun t mem => grown'.keeps t (peers.owned' t mem), peers.alike⟩

theorem tail (peers : Peers v pool pool' (t :: ts) (t' :: ts')) : Peers v pool pool' ts ts' :=
  ⟨peers.coherent, peers.coherent', (List.forall_mem_cons.mp peers.owned).2,
    (List.forall_mem_cons.mp peers.owned').2, (List.forall₂_cons.mp peers.alike).2⟩

theorem intern_op (peers : Peers v pool pool' ts ts') (c : Connective) :
    v.Alike (Pool.intern (.op c ts) none pool).1 (Pool.intern (.op c ts') none pool').1 := by
  have shapes := congrArg (Shape.op c) (map_term_eq_iff.mpr peers.alike)
  exact Alike.intern peers shapes rfl

theorem includeFile (peers : Peers v pool pool' ts ts') (path : String) :
    v.statement (Statement.includeFile path ts pool).1 =
      v.statement (Statement.includeFile path ts' pool').1 := by
  cases related : peers.alike with
  | nil => rfl
  | cons =>
    rw [Statement.run_includeFile_cons, Statement.run_includeFile_cons, statement_noted,
      statement_noted, Option.map_some, Option.map_some, peers.intern_op .and]

theorem clause (peers : Peers v pool pool' ts ts') :
    v.statement (Statement.clause ts pool).1 = v.statement (Statement.clause ts' pool').1 := by
  rw [Statement.run_clause, Statement.run_clause]
  exact ofAction_alike (peers.intern_op .or).assume

end Peers

theorem item_written (item : Item Pooled) :
    v.item item.written =
      ⟨item.keyword, item.args.map v.term, item.name.map v.term, item.note.map v.term,
        v.place item.loc⟩ := by
  simp only [View.item, Item.written, List.map_map, Option.map_map]
  rfl

namespace Twins

variable {item item' : Item Pooled}

theorem same (twins : Twins v item item' pool pool') :
    item.keyword = item'.keyword ∧ item.args.map v.term = item'.args.map v.term ∧
      item.name.map v.term = item'.name.map v.term ∧
      item.note.map v.term = item'.note.map v.term ∧ v.place item.loc = v.place item'.loc := by
  have alike := twins.alike
  rw [item_written, item_written] at alike
  exact Item.mk.inj alike

theorem keyword (twins : Twins v item item' pool pool') : item.keyword = item'.keyword :=
  twins.same.1

theorem args (twins : Twins v item item' pool pool') :
    Peers v pool pool' item.args item'.args :=
  ⟨twins.coherent, twins.coherent', twins.owned.args, twins.owned'.args,
    map_term_eq_iff.mp twins.same.2.1⟩

theorem name (twins : Twins v item item' pool pool') :
    item.name.map v.term = item'.name.map v.term :=
  twins.same.2.2.1

theorem note (twins : Twins v item item' pool pool') :
    item.note.map v.term = item'.note.map v.term :=
  twins.same.2.2.2.1

theorem place (twins : Twins v item item' pool pool') : v.place item.loc = v.place item'.loc :=
  twins.same.2.2.2.2

end Twins

/-! ## Keywords -/

variable {item item' : Item Pooled}

theorem form_ofKeyword {κ : Type} [Spelled κ]
    {statement? statement?' : κ → StateM Pool (Option (Statement Pooled))}
    (twins : Twins v item item' pool pool')
    (same : ∀ keyword, (statement? keyword pool).1.map v.statement =
      (statement?' keyword pool').1.map v.statement) :
    v.form (Canonical.ofKeyword item statement? pool).1 =
      v.form (Canonical.ofKeyword item' statement?' pool').1 := by
  unfold Canonical.ofKeyword
  rw [twins.keyword]
  cases (Spelled.read? item'.keyword : Option κ) with
  | none => exact form_settle twins.place rfl
  | some keyword =>
    dsimp only
    rw [Pool.run_bind, Pool.run_bind]
    rcases option_cases (same keyword) with ⟨none, none'⟩ | ⟨s, s', some, some', seen⟩
    · rw [none, none']
      exact form_settle twins.place rfl
    · rw [some, some']
      exact form_settle twins.place (congrArg Except.ok seen)

theorem form_ofCommand (twins : Twins v item item' pool pool') :
    v.form (Canonical.ofCommand item pool).1 = v.form (Canonical.ofCommand item' pool').1 := by
  refine form_ofKeyword twins fun command => ?_
  change ((command.action? item.loc item.args).map Statement.ofAction).map v.statement =
    ((command.action? item'.loc item'.args).map Statement.ofAction).map v.statement
  have actions := action?_alike command twins.place twins.args.alike
  rcases option_cases actions with ⟨none, none'⟩ | ⟨a, a', some, some', seen⟩
  · rw [none, none']
  · rw [some, some']
    exact congrArg Option.some (ofAction_alike seen)

theorem form_ofLine (incremental : Bool) (twins : Twins v item item' pool pool') :
    v.form (Canonical.ofLine incremental item pool).1 =
      v.form (Canonical.ofLine incremental item' pool').1 := by
  unfold Canonical.ofLine
  rw [twins.keyword]
  cases (Spelled.read? item'.keyword : Option Line) with
  | none => exact form_settle twins.place rfl
  | some line =>
    cases line with
    | clause => exact form_settle twins.place (congrArg Except.ok twins.args.clause)
    | sizes => exact form_settle twins.place rfl
    | assumptions =>
      cases incremental with
      | true =>
        have request : v.action (.prove item.args) = v.action (.prove item'.args) :=
          congrArg Action.prove (map_term_eq_iff.mpr twins.args.alike)
        exact form_settle twins.place (congrArg Except.ok (ofAction_alike request))
      | false => exact form_settle twins.place rfl

theorem data_alike {args args' : List Pooled} (places : v.place loc = v.place loc')
    (same : List.Forall₂ v.Alike args args') :
    ((Datatype.ofArguments? loc args).map Statement.datatype).map v.statement =
      ((Datatype.ofArguments? loc' args').map Statement.datatype).map v.statement := by
  rcases option_cases (ofArguments?_alike places same) with
    ⟨none, none'⟩ | ⟨d, d', some, some', seen⟩
  · rw [none, none']
  · rw [some, some', Option.map_some, Option.map_some, Option.map_some, Option.map_some,
      statement_datatype, statement_datatype, seen]

/-- Directives of one argument. -/
theorem statement?_single {t t' : Pooled} (directive : Directive)
    (peers : Peers v pool pool' [t] [t']) (places : v.place loc = v.place loc') :
    (directive.statement? loc [t] pool).1.map v.statement =
      (directive.statement? loc' [t'] pool').1.map v.statement := by
  have alike : v.Alike t t' := (List.forall₂_cons.mp peers.alike).1
  cases directive with
  | goal =>
    change some (v.statement (.goal t)) = some (v.statement (.goal t'))
    rw [statement_goal, statement_goal, alike]
  | assert => exact congrArg some (ofAction_alike alike.assume)
  | rule =>
    have keyword := intern_symbol (v := v) peers.coherent peers.coherent'
      (.attr (spelling Directive.rule))
    rw [Statement.run_rule, Statement.run_rule, Option.map_some, Option.map_some, statement_noted,
      statement_noted, Option.map_some, Option.map_some, keyword, ofAction_alike alike.assume]
  | declare =>
    change (t.declaration?.map _).map _ = (t'.declaration?.map _).map _
    rcases alike.declaration?_cases with ⟨none, none'⟩ | ⟨id, type, type', some, some', types⟩
    · rw [none, none']
    · rw [some, some']
      exact congrArg Option.some (ofAction_alike (types.declare id))
  | define => rfl
  | data => exact data_alike places peers.alike
  | includeFile =>
    unfold Directive.statement?
    dsimp only
    rw [alike.literal? .string]
    cases t'.literal? .string with
    | none => rfl
    | some path => exact congrArg some (peers.tail.includeFile path)

theorem statement?_alike (directive : Directive) {args args' : List Pooled}
    (peers : Peers v pool pool' args args') (places : v.place loc = v.place loc') :
    (directive.statement? loc args pool).1.map v.statement =
      (directive.statement? loc' args' pool').1.map v.statement := by
  have data := data_alike places peers.alike
  rcases peers.alike with _ | ⟨first, _ | ⟨second, _ | ⟨third, rest⟩⟩⟩
  · cases directive with
    | data => exact data
    | goal | assert | rule | declare | define | includeFile => rfl
  · exact statement?_single directive peers places
  · rename_i f f' body body'
    cases directive with
    | data => exact data
    | define =>
      change (f.symbol?.map _).map _ = (f'.symbol?.map _).map _
      rw [first.symbol?, Option.map_map, Option.map_map]
      exact Option.map_congr fun id _ => ofAction_alike (second.define id)
    | goal | assert | rule | declare | includeFile => rfl
  · cases directive with
    | data => exact data
    | goal | assert | rule | declare | define | includeFile => rfl

/-! ## Annotated formulas -/

theorem provenance_alike (twins : Twins v item item' pool pool') :
    v.Alike (Canonical.provenance item pool).1 (Canonical.provenance item' pool').1 := by
  have role := intern_symbol (v := v) twins.coherent twins.coherent' (.attr item'.keyword)
  rcases option_cases twins.note with ⟨none, none'⟩ | ⟨note, note', some, some', seen⟩
  · unfold Canonical.provenance
    rw [Pool.run_bind, Pool.run_bind, twins.keyword, none, none']
    exact role
  · obtain ⟨grown, owned⟩ := twins.owned.role_note twins.coherent some
    obtain ⟨grown', owned'⟩ := twins.owned'.role_note twins.coherent' some'
    rw [twins.keyword] at grown owned
    unfold Canonical.provenance
    rw [Pool.run_bind, Pool.run_bind, twins.keyword, some, some']
    refine Alike.intern ⟨grown.coherent, grown'.coherent, owned, owned', ?_⟩ ?_ rfl
    · exact .cons role (.cons seen .nil)
    · exact congrArg₂ Shape.typed role seen

theorem ofFormula_alike {t t' : Pooled} (use : Use) (peers : Peers v pool pool' [t] [t'])
    (places : v.place loc = v.place loc') :
    (Statement.ofFormula loc t use pool).1.map v.statement =
      (Statement.ofFormula loc' t' use pool').1.map v.statement := by
  have alike : v.Alike t t' := (List.forall₂_cons.mp peers.alike).1
  cases use with
  | assume => exact congrArg Except.ok (ofAction_alike alike.assume)
  | prove =>
    have goal : v.action (.goal t) = v.action (.goal t') := congrArg Action.goal alike
    exact congrArg Except.ok (statement_attempt places goal alike.assume)
  | refute =>
    have negation := peers.intern_op .not
    exact congrArg Except.ok (statement_attempt places alike.assume negation.assume)
  | declare =>
    unfold Statement.ofFormula
    rcases alike.declaration?_cases with ⟨none, none'⟩ | ⟨id, type, type', some, some', types⟩
    · rw [none, none', alike.text]
      rfl
    · rw [some, some']
      exact congrArg Except.ok (ofAction_alike (types.declare id))
  | ignore => rfl

theorem answer_alike {t t' : Pooled} (keywords : item.keyword = item'.keyword)
    (places : v.place item.loc = v.place item'.loc) (peers : Peers v pool pool' [t] [t']) :
    (Canonical.answer item t pool).1.map v.statement =
      (Canonical.answer item' t' pool').1.map v.statement := by
  unfold Canonical.answer
  rw [keywords]
  cases (Spelled.read? item'.keyword : Option Role) with
  | none => rfl
  | some role => exact ofFormula_alike role.use peers places

theorem form_ofFormula {t t' : Pooled} (twins : Twins v item item' pool pool')
    (args : item.args = [t]) (args' : item'.args = [t']) :
    v.form (Canonical.ofFormula item t pool).1 = v.form (Canonical.ofFormula item' t' pool').1 := by
  have noted := Canonical.extends_provenance twins.coherent twins.owned
  have noted' := Canonical.extends_provenance twins.coherent' twins.owned'
  have names : (item.name.bind Term.symbol?).map Symbol.name =
      (item'.name.bind Term.symbol?).map Symbol.name := by
    rcases option_cases twins.name with ⟨none, none'⟩ | ⟨name, name', some, some', seen⟩
    · rw [none, none']
    · have symbols : name.symbol? = name'.symbol? := Alike.symbol? seen
      rw [some, some', Option.bind_some, Option.bind_some, symbols]
  have peers := args ▸ args' ▸ twins.args.grown noted noted'
  rw [Canonical.ofFormula_eq, Canonical.ofFormula_eq]
  refine form_labelled ?_ (answer_alike twins.keyword twins.place peers)
  rw [label, label, names, twins.place, Option.map_some, Option.map_some, provenance_alike twins]

theorem form_ofAnnotated (twins : Twins v item item' pool pool') :
    v.form (Canonical.ofAnnotated item pool).1 = v.form (Canonical.ofAnnotated item' pool').1 := by
  rw [Canonical.ofAnnotated_eq, Canonical.ofAnnotated_eq, twins.keyword]
  have peers := twins.args
  cases args : item.args with
  | nil =>
    rw [args] at peers
    rw [List.forall₂_nil_left_iff.mp peers.alike]
    exact form_settle twins.place rfl
  | cons t ts =>
    rw [args] at peers
    obtain ⟨t', ts', first, rest, args'⟩ := List.forall₂_cons_left_iff.mp peers.alike
    rw [args'] at peers ⊢
    dsimp only
    rw [first.literal? .string]
    split
    · cases t'.literal? .string with
      | none => exact form_settle twins.place rfl
      | some path =>
        exact form_settle twins.place (congrArg Except.ok (peers.tail.includeFile path))
    · cases rest with
      | nil => exact form_ofFormula twins args args'
      | cons => exact form_settle twins.place rfl

/-- **Items that look alike stand for statements that look alike**, in every language and whatever
pools they are read from. -/
theorem Twins.form_canonical (twins : Twins v item item' pool pool') (language : Language) :
    v.form (item.canonical language pool).1 = v.form (item'.canonical language pool').1 := by
  cases language with
  | smtlib => exact form_ofCommand twins
  | tptp => exact form_ofAnnotated twins
  | dimacs => exact form_ofLine false twins
  | icnf => exact form_ofLine true twins
  | zf =>
    exact form_ofKeyword twins fun directive => statement?_alike directive twins.args twins.place

end View

end ProblemIntake
