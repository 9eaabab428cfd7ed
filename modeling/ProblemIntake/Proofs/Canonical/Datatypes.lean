import ProblemIntake.Proofs.Canonical.Outline
import ProblemIntake.Proofs.Canonical.References
import ProblemIntake.Proofs.Term.Views

/-! A datatype is declared by a name and its constructors, one argument for each. A declaration is
read as a whole or not at all: no constructor is skipped, and one bad argument refuses all of
them. -/

namespace ProblemIntake

namespace Term

variable {ℓ : Type} {t : Term ℓ} {ts : List (Term ℓ)} {cs : List (Symbol × List (Term ℓ))}

theorem constructor?_eq_none_iff : t.constructor? = none ↔ ∀ c, ¬ t.Introduces c := by
  rw [Option.eq_none_iff_forall_ne_some]
  exact forall_congr' fun c => not_congr constructor?_eq_some_iff

theorem mapM_constructor?_eq_some_iff :
    ts.mapM constructor? = some cs ↔ List.Forall₂ Introduces ts cs := by
  constructor
  · intro read
    exact (forall₂_of_mapM_constructor? read).imp fun _ _ => constructor?_eq_some_iff.mp
  · intro introduces
    induction introduces with
    | nil => rfl
    | cons first _ ih => rw [List.mapM_cons, constructor?_eq_some_iff.mpr first, ih]; rfl

/-- One argument that introduces nothing is enough, wherever it stands. -/
theorem mapM_constructor?_eq_none_iff :
    ts.mapM constructor? = none ↔ ∃ t ∈ ts, ∀ c, ¬ t.Introduces c := by
  induction ts with
  | nil => simp
  | cons t ts ih =>
    have either : (t :: ts).mapM constructor? = none ↔
        t.constructor? = none ∨ ts.mapM constructor? = none := by
      rw [List.mapM_cons]
      cases t.constructor? <;> cases ts.mapM constructor? <;> simp
    rw [either, ih, constructor?_eq_none_iff]
    simp only [List.mem_cons, exists_eq_or_imp]

end Term

namespace Datatype

variable {ℓ : Type} {loc : Option Span} {args : List (Term ℓ)}

/-- The arguments are a symbol, which is the name, and then one for each of the constructors, in
order. -/
inductive Declares : List (Term ℓ) → Symbol → List (Symbol × List (Term ℓ)) → Prop
  | intro {name : Term ℓ} {id : Symbol} {ts : List (Term ℓ)} {cs : List (Symbol × List (Term ℓ))}
      (named : name.shape = .symbol id) (constructors : List.Forall₂ Term.Introduces ts cs) :
      Declares (name :: ts) id cs

/-- What keeps arguments from declaring a datatype. -/
inductive Flawed : List (Term ℓ) → Prop
  | nothing : Flawed []
  | nameless {name : Term ℓ} {ts : List (Term ℓ)} (unnamed : ∀ id, name.shape ≠ .symbol id) :
      Flawed (name :: ts)
  | misfit {name t : Term ℓ} {ts : List (Term ℓ)} (mem : t ∈ ts) (bad : ∀ c, ¬ t.Introduces c) :
      Flawed (name :: ts)

theorem ofArguments?_eq_some_iff {d : Datatype (Term ℓ)} :
    ofArguments? loc args = some d ↔
      ∃ id cs, Declares args id cs ∧ d = ⟨id, [], cs, loc⟩ := by
  constructor
  · intro read
    cases args with
    | nil => cases read
    | cons name ts =>
      obtain ⟨id, named, read⟩ := Option.bind_eq_some_iff.mp read
      obtain ⟨cs, constructors, same⟩ := Option.bind_eq_some_iff.mp read
      have introduced := Term.mapM_constructor?_eq_some_iff.mp constructors
      exact ⟨id, cs, .intro (Term.symbol?_eq_some_iff.mp named) introduced,
        (Option.some.inj same).symm⟩
  · rintro ⟨id, cs, ⟨named, constructors⟩, rfl⟩
    rw [ofArguments?, Term.symbol?_eq_some_iff.mpr named,
      Term.mapM_constructor?_eq_some_iff.mpr constructors]
    rfl

theorem ofArguments?_eq_none_iff : ofArguments? loc args = none ↔ Flawed args := by
  constructor
  · intro refused
    cases args with
    | nil => exact .nothing
    | cons name ts =>
      cases named : name.symbol? with
      | none =>
        refine .nameless fun id shape => ?_
        rw [Term.symbol?_eq_some_iff.mpr shape] at named
        cases named
      | some id =>
        have constructors : ts.mapM Term.constructor? = none := by
          rw [ofArguments?, named] at refused
          cases read : ts.mapM Term.constructor? with
          | none => rfl
          | some cs => simp [read] at refused
        obtain ⟨t, mem, bad⟩ := Term.mapM_constructor?_eq_none_iff.mp constructors
        exact .misfit mem bad
  · intro flawed
    refine Option.eq_none_iff_forall_ne_some.mpr fun d read => ?_
    obtain ⟨id, cs, ⟨named, constructors⟩, _⟩ := ofArguments?_eq_some_iff.mp read
    cases flawed with
    | nameless unnamed => exact unnamed id named
    | misfit mem bad =>
      have refused := Term.mapM_constructor?_eq_none_iff.mpr ⟨_, mem, bad⟩
      rw [Term.mapM_constructor?_eq_some_iff.mpr constructors] at refused
      cases refused

end Datatype

namespace Item

variable {language : Language} {item : Item Pooled}

/-- The item declares a datatype, in one of the languages that have them. -/
def IsDatatype (item : Item Pooled) (language : Language) : Prop :=
  language = .smtlib ∧ item.keyword = "declare-datatype" ∨ language = .zf ∧ item.keyword = "data"

theorem canonical_of_isDatatype (data : item.IsDatatype language) (pool : Pool) :
    (item.canonical language pool).1 =
      .settle item.loc ((Datatype.ofArguments? item.loc item.args).elim
        (.error (.wrongArguments item.keyword)) fun d => .ok (.datatype d)) := by
  rcases data with ⟨rfl, keyword⟩ | ⟨rfl, keyword⟩
  · have spelled : spelling Command.declareDatatype = item.keyword := keyword.symm
    change (Canonical.ofCommand item pool).1 = _
    rw [Canonical.ofCommand, Canonical.ofKeyword_of_spelled spelled]
    change Canonical.settle _
      ((((Datatype.ofArguments? item.loc item.args).map Action.datatype).map
        Statement.ofAction).elim _ _) = _
    cases Datatype.ofArguments? item.loc item.args <;> rfl
  · have spelled : spelling Directive.data = item.keyword := keyword.symm
    change (Canonical.ofDirective item pool).1 = _
    rw [Canonical.ofDirective, Canonical.ofKeyword_of_spelled spelled]
    change Canonical.settle _
      (((Datatype.ofArguments? item.loc item.args).map Statement.datatype).elim _ _) = _
    cases Datatype.ofArguments? item.loc item.args <;> rfl

/-- **Datatype declarations are all or nothing.** If the first argument is a symbol and every other
one introduces a constructor, the item becomes the datatype of that name without parameters, at the
place of the item, with these constructors in order and the very fields they were given, and nothing
is reported. In every other case, whichever argument is at fault, it is refused as a whole. -/
theorem datatypes_all_or_nothing (data : item.IsDatatype language) (pool : Pool) :
    let form := (item.canonical language pool).1
    let whole (id : Symbol) (constructors : List (Symbol × List Pooled)) :=
      form = ⟨.step ⟨.datatype ⟨id, [], constructors, item.loc⟩, { loc := item.loc }⟩, none⟩
    let refused := ∃ warning : Warning,
      form = ⟨.pack [] { loc := item.loc }, some warning⟩ ∧
        warning.text = "wrong arguments for `" ++ item.keyword ++ "`"
    (∀ id constructors, whole id constructors ↔ Datatype.Declares item.args id constructors) ∧
    (refused ↔ Datatype.Flawed item.args) ∧
    ((∃ id constructors, whole id constructors) ∨ refused) := by
  intro form whole refused
  have settled : form = .settle item.loc ((Datatype.ofArguments? item.loc item.args).elim
      (.error (.wrongArguments item.keyword)) fun d => .ok (.datatype d)) :=
    canonical_of_isDatatype data pool
  have distinct (d e : Datatype Pooled) (same : (Statement.datatype d).located item.loc =
      (Statement.datatype e).located item.loc) : d = e :=
    Action.datatype.inj (Step.mk.inj (Statement.step.inj same)).1
  have whole_iff (id : Symbol) (cs : List (Symbol × List Pooled)) :
      whole id cs ↔ Datatype.ofArguments? item.loc item.args = some ⟨id, [], cs, item.loc⟩ := by
    unfold whole
    rw [settled]
    exact Canonical.settle_elim_eq_ok_iff distinct ⟨id, [], cs, item.loc⟩
  have refused_iff : refused ↔ Datatype.ofArguments? item.loc item.args = none := by
    unfold refused
    rw [settled]
    cases Datatype.ofArguments? item.loc item.args with
    | none => exact iff_of_true ⟨_, rfl, rfl⟩ rfl
    | some d =>
      refine iff_of_false ?_ nofun
      rintro ⟨warning, same, _⟩
      cases congrArg Canonical.warning same
  refine ⟨fun id cs => ?_, refused_iff.trans Datatype.ofArguments?_eq_none_iff, ?_⟩
  · rw [whole_iff, Datatype.ofArguments?_eq_some_iff]
    constructor
    · rintro ⟨id, cs, declares, ⟨⟩⟩
      exact declares
    · intro declares
      exact ⟨id, cs, declares, rfl⟩
  · cases read : Datatype.ofArguments? item.loc item.args with
    | none => exact .inr (refused_iff.mpr read)
    | some d =>
      obtain ⟨id, cs, _, rfl⟩ := Datatype.ofArguments?_eq_some_iff.mp read
      exact .inl ⟨id, cs, (whole_iff id cs).mpr read⟩

/-- Lists are declared with both of their constructors, and not at all if a truth value stands
between these. -/
theorem lists_whole_or_refused :
    let name (text : String) : Pooled := .mk ⟨2, none⟩ (.symbol (.term text))
    let cons : Pooled := .mk ⟨3, none⟩ (.app (name "cons") [name "elem", name "list"])
    let form (args : List Pooled) :=
      (Item.canonical { keyword := "data", args } .zf .new).1
    form [name "list", name "nil", cons] =
        ⟨.ofAction (.datatype ⟨.term "list", [],
          [(.term "nil", []), (.term "cons", [name "elem", name "list"])], none⟩), none⟩ ∧
      ∃ warning : Warning,
        form [name "list", name "nil", Pool.constant true, cons] = ⟨.empty, some warning⟩ ∧
          warning.text = "wrong arguments for `data`" := by
  intro name cons form
  have declared (args : List Pooled) :=
    @datatypes_all_or_nothing .zf { keyword := "data", args } (.inr ⟨rfl, rfl⟩) .new
  have constructors : List.Forall₂ Term.Introduces [name "nil", cons]
      [(.term "nil", []), (.term "cons", [name "elem", name "list"])] :=
    .cons (.bare rfl) (.cons (.applied rfl rfl) .nil)
  refine ⟨((declared _).1 _ _).mpr (.intro rfl constructors), (declared _).2.1.mpr ?_⟩
  have mem : Pool.constant true ∈ [name "nil", Pool.constant true, cons] := by simp
  refine .misfit mem fun c introduces => ?_
  cases introduces with
  | bare alone => cases alone
  | applied application => cases application

end Item

end ProblemIntake
