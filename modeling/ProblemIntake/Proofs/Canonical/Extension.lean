import ProblemIntake.Proofs.Canonical.Annotated
import ProblemIntake.Proofs.Pool.Extension

namespace ProblemIntake

variable {pool : Pool} {item : Item Pooled}

namespace Statement

theorem run_includeFile_cons (path : String) (r : Pooled) (rs : List Pooled) (pool : Pool) :
    includeFile path (r :: rs) pool =
      let all := Pool.intern (.op .and (r :: rs)) none pool
      ((ofAction (.includeFile path)).noted (some all.1), all.2) := rfl

theorem run_clause (literals : List Pooled) (pool : Pool) :
    clause literals pool =
      let disjunction := Pool.intern (.op .or literals) none pool
      (ofAction (.assume disjunction.1), disjunction.2) := rfl

theorem extends_includeFile (path : String) {restrictions : List Pooled}
    (coherent : pool.Coherent) (given : ∀ t ∈ restrictions, pool.Owns t) :
    pool.Extends (includeFile path restrictions pool).2 := by
  cases restrictions with
  | nil => exact coherent.extends_self
  | cons r rs =>
    rw [run_includeFile_cons]
    exact coherent.extends_intern given

theorem extends_clause {literals : List Pooled} (coherent : pool.Coherent)
    (given : ∀ t ∈ literals, pool.Owns t) : pool.Extends (clause literals pool).2 := by
  rw [run_clause]
  exact coherent.extends_intern given

theorem extends_ofFormula (loc : Option Span) {formula : Pooled} (use : Use)
    (coherent : pool.Coherent) (owned : pool.Owns formula) :
    pool.Extends (ofFormula loc formula use pool).2 := by
  cases use with
  | assume | prove | ignore => exact coherent.extends_self
  | refute =>
    refine coherent.extends_intern fun t mem => ?_
    exact List.mem_singleton.mp mem ▸ owned
  | declare =>
    unfold ofFormula
    cases formula.declaration? with
    | none => exact coherent.extends_self
    | some declaration => exact coherent.extends_self

theorem run_rule (loc : Option Span) (t : Pooled) (pool : Pool) :
    Directive.rule.statement? loc [t] pool =
      let keyword := Pool.intern (.symbol (.attr (spelling Directive.rule))) none pool
      (some ((ofAction (.assume t)).noted (some keyword.1)), keyword.2) := rfl

theorem extends_directive (loc : Option Span) (directive : Directive) {args : List Pooled}
    (coherent : pool.Coherent) : pool.Extends (directive.statement? loc args pool).2 := by
  generalize request : directive.statement? loc args = answer
  unfold Directive.statement? at request
  split at request <;> subst request
  · exact coherent.extends_self
  · exact coherent.extends_self
  · exact coherent.extends_intern nofun
  · exact coherent.extends_self
  · exact coherent.extends_self
  · exact coherent.extends_self
  · rename_i path
    cases path.literal? .string with
    | none => exact coherent.extends_self
    | some file => exact coherent.extends_self
  · exact coherent.extends_self

end Statement

/-- The role of an item is interned before it is typed by the note. -/
theorem Item.OwnedBy.role_note (owned : item.OwnedBy pool) (coherent : pool.Coherent)
    {note : Pooled} (noted : item.note = some note) :
    let role := Pool.intern (.symbol (.attr item.keyword)) none pool
    pool.Extends role.2 ∧ ∀ t ∈ [role.1, note], role.2.Owns t := by
  intro role
  have grown : pool.Extends role.2 := coherent.extends_intern nofun
  refine ⟨grown, fun t mem => ?_⟩
  rcases List.mem_cons.mp mem with rfl | mem
  · exact Pool.owns_intern_iff.mpr (.inl rfl)
  · exact List.mem_singleton.mp mem ▸ grown.keeps note (owned.note noted)

namespace Canonical

theorem extends_ofKeyword {κ : Type} [Spelled κ] (item : Item Pooled)
    {statement? : κ → StateM Pool (Option (Statement Pooled))} (coherent : pool.Coherent)
    (grown : ∀ keyword, pool.Extends (statement? keyword pool).2) :
    pool.Extends (ofKeyword item statement? pool).2 := by
  unfold ofKeyword
  cases (Spelled.read? item.keyword : Option κ) with
  | none => exact coherent.extends_self
  | some keyword =>
    dsimp only
    rw [Pool.run_bind]
    cases (statement? keyword pool).1 with
    | none => exact grown keyword
    | some s => exact grown keyword

theorem extends_ofLine (incremental : Bool) (coherent : pool.Coherent)
    (owned : item.OwnedBy pool) : pool.Extends (ofLine incremental item pool).2 := by
  unfold ofLine
  cases (Spelled.read? item.keyword : Option Line) with
  | none => exact coherent.extends_self
  | some line =>
    cases line with
    | clause => exact Statement.extends_clause coherent owned.args
    | sizes => exact coherent.extends_self
    | assumptions =>
      cases incremental with
      | true => exact coherent.extends_self
      | false => exact coherent.extends_self

theorem extends_provenance (coherent : pool.Coherent) (owned : item.OwnedBy pool) :
    pool.Extends (provenance item pool).2 := by
  unfold provenance
  rw [Pool.run_bind]
  cases noted : item.note with
  | none => exact coherent.extends_intern nofun
  | some note =>
    obtain ⟨role, both⟩ := owned.role_note coherent noted
    exact role.trans (role.coherent.extends_intern both)

theorem extends_ofFormula {formula : Pooled} (args : item.args = [formula])
    (coherent : pool.Coherent) (owned : item.OwnedBy pool) :
    pool.Extends (ofFormula item formula pool).2 := by
  have noted := extends_provenance coherent owned
  rw [ofFormula_eq]
  refine noted.trans ?_
  dsimp only
  unfold answer
  cases (Spelled.read? item.keyword : Option Role) with
  | none => exact noted.coherent.extends_self
  | some role =>
    refine Statement.extends_ofFormula item.loc role.use noted.coherent ?_
    exact noted.keeps formula (owned.args formula (by rw [args]; exact List.mem_singleton_self _))

theorem extends_ofAnnotated (coherent : pool.Coherent) (owned : item.OwnedBy pool) :
    pool.Extends (ofAnnotated item pool).2 := by
  rcases ofAnnotated_cases item pool with
    ⟨warning, _, refused⟩ | ⟨path, file, restrictions, _, args, included⟩ | ⟨formula, args, formed⟩
  · rw [refused]
    exact coherent.extends_self
  · have given : ∀ t ∈ path :: restrictions, pool.Owns t := args ▸ owned.args
    rw [included]
    exact Statement.extends_includeFile file coherent (List.forall_mem_cons.mp given).2
  · rw [formed]
    exact extends_ofFormula args coherent owned

end Canonical

/-- Reading an item lets the pool grow. -/
theorem Item.extends_canonical (language : Language) (coherent : pool.Coherent)
    (owned : item.OwnedBy pool) : pool.Extends (item.canonical language pool).2 := by
  cases language with
  | smtlib => exact Canonical.extends_ofKeyword item coherent fun _ => coherent.extends_self
  | tptp => exact Canonical.extends_ofAnnotated coherent owned
  | dimacs => exact Canonical.extends_ofLine false coherent owned
  | icnf => exact Canonical.extends_ofLine true coherent owned
  | zf => exact Canonical.extends_ofKeyword item coherent fun _ =>
      Statement.extends_directive item.loc _ coherent

end ProblemIntake
