import ProblemIntake.Proofs.Canonical.Recall
import ProblemIntake.Proofs.Canonical.References
import ProblemIntake.Proofs.Pool.Depth

namespace ProblemIntake

variable {pool later : Pool}

namespace Statement

/-- The terms of the statement are shared by the pool, all the way down. -/
def SharedBy (s : Statement Pooled) (pool : Pool) : Prop := ∀ t ∈ s.terms, pool.Deep t

variable {s : Statement Pooled}

theorem SharedBy.kept (shared : s.SharedBy pool) (kept : pool.Keeps later) : s.SharedBy later :=
  fun t mem => (shared t mem).kept kept

theorem sharedBy_empty (pool : Pool) : (empty : Statement Pooled).SharedBy pool := nofun

theorem sharedBy_ofAction {a : Action Pooled} (deep : ∀ t ∈ a.terms, pool.Deep t) :
    (ofAction a).SharedBy pool := by
  intro t mem
  rcases List.mem_append.mp mem with mem | mem
  · exact deep t mem
  · cases mem

theorem sharedBy_single {a : Action Pooled} {t : Pooled} (terms : a.terms = [t])
    (deep : pool.Deep t) : (ofAction a).SharedBy pool := by
  refine sharedBy_ofAction fun u mem => ?_
  rw [terms] at mem
  exact List.mem_singleton.mp mem ▸ deep

theorem SharedBy.relabel (shared : s.SharedBy pool) {f : Label Pooled → Label Pooled}
    (noted : ∀ note, (f s.label).note = some note → pool.Deep note) :
    (s.relabel f).SharedBy pool := by
  intro t mem
  rcases mem_terms_relabel mem with mem | note
  · exact shared t mem
  · exact noted t note

theorem SharedBy.noted (shared : s.SharedBy pool) {note : Pooled} (deep : pool.Deep note) :
    (s.noted (some note)).SharedBy pool :=
  shared.relabel fun _ same => Option.some.inj same ▸ deep

theorem SharedBy.located (shared : s.SharedBy pool) (loc : Option Span) :
    (s.located loc).SharedBy pool := by
  intro t mem
  rw [terms_located] at mem
  exact shared t mem

theorem sharedBy_attempt {loc : Option Span} {trial kept : Action Pooled} {t u : Pooled}
    (tried : trial.terms = [t]) (lasting : kept.terms = [u]) (deep : pool.Deep t)
    (deep' : pool.Deep u) : (attempt loc trial kept).SharedBy pool := by
  have terms : (attempt loc trial kept).terms =
      trial.terms ++ Pool.constant false :: (kept.terms ++ [Pool.constant true]) := by
    have pushed : (Action.push 1 : Action Pooled).terms = [] := rfl
    have asked : (Action.prove [] : Action Pooled).terms = [] := rfl
    have popped : (Action.pop 1 : Action Pooled).terms = [] := rfl
    simp [attempt, Step.terms, pushed, asked, popped]
  intro v mem
  rw [terms, tried, lasting] at mem
  simp only [List.mem_append, List.mem_cons, List.not_mem_nil, or_false] at mem
  rcases mem with rfl | rfl | rfl | rfl
  · exact deep
  · exact pool.deep_constant false
  · exact deep'
  · exact pool.deep_constant true

theorem sharedBy_goal {t : Pooled} (deep : pool.Deep t) : (goal t).SharedBy pool :=
  fun _ mem => List.mem_singleton.mp mem ▸ deep

theorem sharedBy_includeFile (path : String) {restrictions : List Pooled}
    (coherent : pool.Coherent) (given : ∀ t ∈ restrictions, pool.Deep t) :
    let included := includeFile path restrictions pool
    included.1.SharedBy included.2 := by
  have file (pool : Pool) : (ofAction (.includeFile path)).SharedBy pool :=
    sharedBy_ofAction nofun
  cases restrictions with
  | nil => exact file pool
  | cons r rs =>
    rw [run_includeFile_cons]
    exact (file _).noted (Pool.Deep.intern coherent given)

theorem sharedBy_clause {literals : List Pooled} (coherent : pool.Coherent)
    (given : ∀ t ∈ literals, pool.Deep t) :
    let made := clause literals pool
    made.1.SharedBy made.2 := by
  rw [run_clause]
  exact sharedBy_single rfl (Pool.Deep.intern coherent given)

theorem sharedBy_ofFormula (loc : Option Span) {formula : Pooled} (use : Use)
    (coherent : pool.Coherent) (deep : pool.Deep formula) {s : Statement Pooled}
    (made : (ofFormula loc formula use pool).1 = .ok s) :
    s.SharedBy (ofFormula loc formula use pool).2 := by
  cases use with
  | assume =>
    cases made
    exact sharedBy_single rfl deep
  | prove =>
    cases made
    exact sharedBy_attempt rfl rfl deep deep
  | refute =>
    cases made
    have only : ∀ t ∈ (Shape.op .not [formula]).children, pool.Deep t :=
      fun t mem => List.mem_singleton.mp mem ▸ deep
    exact sharedBy_attempt rfl rfl (deep.kept (Pool.keeps_intern _ _ pool))
      (Pool.Deep.intern coherent only)
  | declare =>
    unfold ofFormula at made ⊢
    cases declared : formula.declaration? with
    | none =>
      rw [declared] at made
      cases made
    | some declaration =>
      rw [declared] at made
      cases made
      exact sharedBy_single rfl (deep.part (Term.partOf_of_declaration? declared))
  | ignore =>
    cases made
    exact sharedBy_empty pool

end Statement

theorem Directive.sharedBy_statement? (loc : Option Span) (directive : Directive)
    {args : List Pooled} (coherent : pool.Coherent) (deep : ∀ t ∈ args, pool.Deep t)
    {s : Statement Pooled} (made : (directive.statement? loc args pool).1 = some s) :
    s.SharedBy (directive.statement? loc args pool).2 := by
  generalize request : directive.statement? loc args = answer at made ⊢
  unfold Directive.statement? at request
  split at request <;> subst request
  · cases made
    exact Statement.sharedBy_goal (deep _ List.mem_cons_self)
  · cases made
    exact Statement.sharedBy_single rfl (deep _ List.mem_cons_self)
  · cases made
    have assumed := Statement.sharedBy_single (a := .assume _) rfl (deep _ List.mem_cons_self)
    exact (assumed.kept (Pool.keeps_intern _ _ pool)).noted (Pool.Deep.intern coherent nofun)
  · obtain ⟨⟨id, type⟩, declared, rfl⟩ := Option.map_eq_some_iff.mp made
    have part := Term.partOf_of_declaration? declared
    exact Statement.sharedBy_single rfl ((deep _ List.mem_cons_self).part part)
  · rename_i f body
    obtain ⟨id, _, rfl⟩ := Option.map_eq_some_iff.mp made
    have last : body ∈ [f, body] := List.mem_cons_of_mem f (List.mem_singleton_self body)
    exact Statement.sharedBy_single rfl (deep body last)
  · obtain ⟨d, read, rfl⟩ := Option.map_eq_some_iff.mp made
    refine (Statement.sharedBy_ofAction fun t mem => ?_).located d.loc
    obtain ⟨u, arg, part⟩ := Datatype.partOf_of_mem_terms read mem
    exact (deep u arg).part part
  · rename_i path
    cases text : path.literal? .string with
    | none =>
      rw [text] at made
      cases made
    | some file =>
      rw [text] at made
      cases made
      exact Statement.sharedBy_ofAction nofun
  · cases made

/-- The terms of the item are shared by the pool, all the way down. -/
def Item.SharedBy (item : Item Pooled) (pool : Pool) : Prop := ∀ t ∈ item.terms, pool.Deep t

namespace Item.SharedBy

variable {item : Item Pooled}

theorem args (shared : item.SharedBy pool) : ∀ t ∈ item.args, pool.Deep t :=
  fun t mem => shared t (List.mem_append_left _ (List.mem_append_left _ mem))

theorem note (shared : item.SharedBy pool) {note : Pooled} (noted : item.note = some note) :
    pool.Deep note :=
  shared note (List.mem_append_right _ (by rw [noted]; exact List.mem_singleton_self note))

theorem ownedBy (shared : item.SharedBy pool) : item.OwnedBy pool :=
  fun t mem => (shared t mem).holds.owns

theorem kept (shared : item.SharedBy pool) (kept : pool.Keeps later) : item.SharedBy later :=
  fun t mem => (shared t mem).kept kept

end Item.SharedBy

namespace Canonical

variable {item : Item Pooled}

theorem sharedBy_settle {loc : Option Span} {answer : Except Warning (Statement Pooled)}
    (shared : ∀ s, answer = .ok s → s.SharedBy pool) :
    (settle loc answer).statement.SharedBy pool := by
  cases answer with
  | ok s => exact (shared s rfl).located loc
  | error w => exact (Statement.sharedBy_empty pool).located loc

theorem sharedBy_ofKeyword {κ : Type} [Spelled κ] (item : Item Pooled)
    {statement? : κ → StateM Pool (Option (Statement Pooled))}
    (each : ∀ keyword s, (statement? keyword pool).1 = some s →
      s.SharedBy (statement? keyword pool).2) :
    let form := ofKeyword item statement? pool
    form.1.statement.SharedBy form.2 := by
  unfold ofKeyword
  cases (Spelled.read? item.keyword : Option κ) with
  | none => exact sharedBy_settle nofun
  | some keyword =>
    dsimp only
    rw [Pool.run_bind]
    cases made : (statement? keyword pool).1 with
    | none => exact sharedBy_settle nofun
    | some s => exact (each keyword s made).located item.loc

theorem sharedBy_ofCommand (shared : item.SharedBy pool) :
    let form := ofCommand item pool
    form.1.statement.SharedBy form.2 := by
  refine sharedBy_ofKeyword item fun command s made => ?_
  obtain ⟨a, read, rfl⟩ := Option.map_eq_some_iff.mp made
  refine Statement.sharedBy_ofAction fun t mem => ?_
  obtain ⟨u, arg, part⟩ := Command.partOf_of_mem_terms read mem
  exact (shared.args u arg).part part

theorem sharedBy_ofLine (incremental : Bool) (coherent : pool.Coherent)
    (shared : item.SharedBy pool) :
    let form := ofLine incremental item pool
    form.1.statement.SharedBy form.2 := by
  unfold ofLine
  cases (Spelled.read? item.keyword : Option Line) with
  | none => exact sharedBy_settle nofun
  | some line =>
    cases line with
    | clause => exact (Statement.sharedBy_clause coherent shared.args).located item.loc
    | sizes => exact (Statement.sharedBy_empty _).located item.loc
    | assumptions =>
      cases incremental with
      | true => exact (Statement.sharedBy_ofAction (a := .prove _) shared.args).located item.loc
      | false => exact sharedBy_settle nofun

theorem deep_provenance (coherent : pool.Coherent) (shared : item.SharedBy pool) :
    let noted := provenance item pool
    noted.2.Deep noted.1 := by
  have role : (Pool.intern (.symbol (.attr item.keyword)) none pool).2.Deep
      (Pool.intern (.symbol (.attr item.keyword)) none pool).1 :=
    Pool.Deep.intern coherent nofun
  unfold provenance
  rw [Pool.run_bind]
  cases noted : item.note with
  | none => exact role
  | some note =>
    refine Pool.Deep.intern (coherent.intern nofun) fun t mem => ?_
    rcases List.mem_cons.mp mem with rfl | mem
    · exact role
    · rw [List.mem_singleton.mp mem]
      exact (shared.note noted).kept (Pool.keeps_intern _ _ pool)

theorem sharedBy_answer {formula : Pooled} (coherent : pool.Coherent) (deep : pool.Deep formula)
    {s : Statement Pooled} (made : (answer item formula pool).1 = .ok s) :
    s.SharedBy (answer item formula pool).2 := by
  unfold answer at made ⊢
  cases role : (Spelled.read? item.keyword : Option Role) with
  | none =>
    rw [role] at made
    cases made
  | some role' =>
    rw [role] at made
    exact Statement.sharedBy_ofFormula item.loc role'.use coherent deep made

theorem sharedBy_labelled {label : Label Pooled} {answer : Except Warning (Statement Pooled)}
    (noted : ∀ note, label.note = some note → pool.Deep note)
    (shared : ∀ s, answer = .ok s → s.SharedBy pool) :
    (labelled label answer).statement.SharedBy pool := by
  cases answer with
  | ok s => exact (shared s rfl).relabel (f := fun _ => label) noted
  | error w => exact (Statement.sharedBy_empty pool).relabel (f := fun _ => label) noted

theorem sharedBy_ofFormula {formula : Pooled} (args : item.args = [formula])
    (coherent : pool.Coherent) (shared : item.SharedBy pool) :
    let form := ofFormula item formula pool
    form.1.statement.SharedBy form.2 := by
  have grown := extends_provenance coherent shared.ownedBy
  have formulaDeep : pool.Deep formula := shared.args formula (args ▸ List.mem_singleton_self _)
  have noteDeep := deep_provenance coherent shared
  rw [ofFormula_eq]
  refine sharedBy_labelled (fun note same => ?_) fun s made => ?_
  · rw [← Option.some.inj same]
    exact noteDeep.kept ((repeats_answer item formula).keeps _)
  · exact sharedBy_answer grown.coherent
      (formulaDeep.kept ((repeats_provenance item).keeps pool)) made

theorem sharedBy_ofAnnotated (coherent : pool.Coherent) (shared : item.SharedBy pool) :
    let form := ofAnnotated item pool
    form.1.statement.SharedBy form.2 := by
  rcases ofAnnotated_cases item pool with
    ⟨warning, _, refused⟩ | ⟨path, file, restrictions, _, args, included⟩ | ⟨formula, args, formed⟩
  · rw [refused]
    exact sharedBy_settle nofun
  · have given : ∀ t ∈ path :: restrictions, pool.Deep t := args ▸ shared.args
    rw [included]
    exact (Statement.sharedBy_includeFile file coherent (List.forall_mem_cons.mp given).2).located
      item.loc
  · rw [formed]
    exact sharedBy_ofFormula args coherent shared

end Canonical

/-- The canonical form of an item whose terms are shared is made of shared terms. -/
theorem Item.sharedBy_canonical {item : Item Pooled} (language : Language)
    (coherent : pool.Coherent) (shared : item.SharedBy pool) :
    let form := item.canonical language pool
    form.1.statement.SharedBy form.2 := by
  cases language with
  | smtlib => exact Canonical.sharedBy_ofCommand shared
  | tptp => exact Canonical.sharedBy_ofAnnotated coherent shared
  | dimacs => exact Canonical.sharedBy_ofLine false coherent shared
  | icnf => exact Canonical.sharedBy_ofLine true coherent shared
  | zf =>
    exact Canonical.sharedBy_ofKeyword item fun directive s =>
      directive.sharedBy_statement? item.loc coherent shared.args

end ProblemIntake
