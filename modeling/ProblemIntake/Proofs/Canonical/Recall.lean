import ProblemIntake.Context
import ProblemIntake.Proofs.Canonical.Extension
import ProblemIntake.Proofs.Pool.Recall

/-! Canonical forms take their terms from the pool by interning alone, so an item that was read once
is read the same way again, whatever the pool was used for in between. -/

namespace ProblemIntake

open Pool (Repeats repeats_pure repeats_intern)

namespace Statement

theorem repeats_includeFile (path : String) (restrictions : List Pooled) :
    Repeats (includeFile path restrictions) := by
  cases restrictions with
  | nil => exact repeats_pure _
  | cons r rs => exact (repeats_intern _ _).bind fun _ => repeats_pure _

theorem repeats_clause (literals : List Pooled) : Repeats (clause literals) :=
  (repeats_intern _ _).bind fun _ => repeats_pure _

theorem repeats_ofFormula (loc : Option Span) (formula : Pooled) (use : Use) :
    Repeats (ofFormula loc formula use) := by
  cases use with
  | assume | prove | ignore => exact repeats_pure _
  | refute => exact (repeats_intern _ _).bind fun _ => repeats_pure _
  | declare =>
    unfold ofFormula
    cases formula.declaration? with
    | none => exact repeats_pure _
    | some declaration => exact repeats_pure _

end Statement

theorem Directive.repeats_statement? (loc : Option Span) (directive : Directive)
    (args : List Pooled) : Repeats (directive.statement? loc args) := by
  unfold Directive.statement?
  split
  · exact repeats_pure _
  · exact repeats_pure _
  · exact (repeats_intern _ _).bind fun _ => repeats_pure _
  · exact repeats_pure _
  · exact repeats_pure _
  · exact repeats_pure _
  · split
    · exact (Statement.repeats_includeFile _ _).map some
    · exact repeats_pure _
  · exact repeats_pure _

namespace Canonical

variable (item : Item Pooled)

theorem repeats_ofKeyword {κ : Type} [Spelled κ]
    {statement? : κ → StateM Pool (Option (Statement Pooled))}
    (each : ∀ keyword, Repeats (statement? keyword)) : Repeats (ofKeyword item statement?) := by
  unfold ofKeyword
  cases (Spelled.read? item.keyword : Option κ) with
  | none => exact repeats_pure _
  | some keyword =>
    refine (each keyword).bind fun made => ?_
    cases made with
    | none => exact repeats_pure _
    | some s => exact repeats_pure _

theorem repeats_ofLine (incremental : Bool) : Repeats (ofLine incremental item) := by
  unfold ofLine
  split
  · exact (Statement.repeats_clause _).bind fun _ => repeats_pure _
  · exact repeats_pure _
  · exact repeats_pure _
  · exact repeats_pure _
  · exact repeats_pure _

theorem repeats_provenance : Repeats (provenance item) := by
  refine (repeats_intern _ _).bind fun role => ?_
  cases item.note with
  | none => exact repeats_pure _
  | some note => exact repeats_intern _ _

theorem repeats_answer (formula : Pooled) : Repeats (answer item formula) := by
  unfold answer
  cases (Spelled.read? item.keyword : Option Role) with
  | none => exact repeats_pure _
  | some role => exact Statement.repeats_ofFormula _ _ _

theorem repeats_ofFormula (formula : Pooled) : Repeats (ofFormula item formula) := by
  let name := (item.name.bind Term.symbol?).map Symbol.name
  have steps : ofFormula item formula = provenance item >>= fun note =>
      labelled ⟨name, some note, item.loc⟩ <$> answer item formula :=
    funext (ofFormula_eq item formula)
  rw [steps]
  exact (repeats_provenance item).bind fun note => (repeats_answer item formula).map _

theorem repeats_ofAnnotated : Repeats (ofAnnotated item) := by
  unfold ofAnnotated
  split
  · split
    · exact (Statement.repeats_includeFile _ _).bind fun _ => repeats_pure _
    · exact repeats_pure _
  · exact repeats_ofFormula item _
  · exact repeats_pure _

end Canonical

/-- The canonical form of an item depends on shared terms only. -/
theorem Item.repeats_canonical (item : Item Pooled) (language : Language) :
    Repeats (item.canonical language) := by
  cases language with
  | smtlib => exact Canonical.repeats_ofKeyword item fun _ => repeats_pure _
  | tptp => exact Canonical.repeats_ofAnnotated item
  | dimacs => exact Canonical.repeats_ofLine item false
  | icnf => exact Canonical.repeats_ofLine item true
  | zf => exact Canonical.repeats_ofKeyword item fun _ => Directive.repeats_statement? _ _ _

namespace Pool

/-- What can become of a pool: terms are shared or put in cells of their own, and items are read.
All of it is made of terms that the pool has. -/
inductive Grown (pool : Pool) : Pool → Prop
  | self : Grown pool pool
  | intern {later : Pool} (grown : Grown pool later) (shape : Shape Pooled) (loc : Option Span)
      (given : ∀ t ∈ shape.children, later.Owns t) : Grown pool (Pool.intern shape loc later).2
  | alloc {later : Pool} (grown : Grown pool later) (shape : Shape Pooled) (loc : Option Span)
      (given : ∀ t ∈ shape.children, later.Owns t) : Grown pool (Pool.alloc shape loc later).2
  | read {later : Pool} (grown : Grown pool later) (language : Language) (item : Item Pooled)
      (owned : item.OwnedBy later) : Grown pool (item.canonical language later).2

variable {pool later : Pool}

theorem Grown.extends (grown : Grown pool later) (coherent : pool.Coherent) :
    Extends pool later := by
  induction grown with
  | self => exact coherent.extends_self
  | intern _ shape loc given ih => exact ih.trans (ih.coherent.extends_intern given)
  | alloc _ shape loc given ih =>
    exact ih.trans ⟨ih.coherent.alloc given, fun _ owned => owns_alloc owned⟩
  | read _ language item owned ih =>
    exact ih.trans (item.extends_canonical language ih.coherent owned)

theorem Grown.keeps (grown : Grown pool later) : Keeps pool later := by
  induction grown with
  | self => exact Keeps.refl pool
  | intern _ shape loc _ ih => exact ih.trans (keeps_intern shape loc _)
  | alloc _ shape loc _ ih => exact ih.trans (keeps_alloc shape loc _)
  | read _ language item _ ih => exact ih.trans ((item.repeats_canonical language).keeps _)

end Pool

/-- **Reading is stable under growth of the pool.** Whatever the pool is used for after an item was
read, reading it again answers the same statement, cell by cell, reports the same warning if it was
refused, and leaves the pool as it is. -/
theorem Item.read_again_alike (item : Item Pooled) (language : Language) (pool later : Pool)
    (grown : (item.canonical language pool).2.Grown later) :
    let first := item.canonical language pool
    let again := item.canonical language later
    again.1.statement = first.1.statement ∧
      (again.1.warning = first.1.warning ∧
        ∀ ctx : Context, ctx.receive item.loc again.1 = ctx.receive item.loc first.1) ∧
      again.2 = later := by
  intro first again
  have same : again = (first.1, later) :=
    (item.repeats_canonical language).again pool later grown.keeps
  rw [same]
  exact ⟨rfl, ⟨rfl, fun _ => rfl⟩, rfl⟩

/-- A formula that was refuted is refuted by the same cells after a term was added, another one
put in a cell of its own, and a rewrite rule read. -/
theorem Item.refuted_again_alike :
    let formula : Pooled := Pool.constant true
    let item : Item Pooled :=
      { keyword := "negated_conjecture", args := [formula], note := some formula }
    let rule : Item Pooled := { keyword := "rewrite", args := [formula] }
    let read := (item.canonical .tptp .new).2
    let added := (Pool.intern (.op .not [formula]) (some ⟨⟨1, 1⟩, ⟨1, 5⟩⟩) read).2
    let allocated := (Pool.alloc (.op .not [formula]) none added).2
    let later := (rule.canonical .zf allocated).2
    read.Grown later ∧
    (item.canonical .tptp later).1.statement = (item.canonical .tptp .new).1.statement ∧
    (item.canonical .tptp later).2 = later := by
  intro formula item rule read added allocated later
  have held (pool : Pool) : pool.Owns formula := (pool.holds_constant true).owns
  have given (pool : Pool) : ∀ t ∈ (Shape.op .not [formula]).children, pool.Owns t :=
    fun t mem => List.mem_singleton.mp mem ▸ held pool
  have grown : read.Grown later :=
    .read (.alloc (.intern .self _ _ (given read)) _ _ (given added)) .zf rule (given allocated)
  obtain ⟨statement, _, pool⟩ := item.read_again_alike .tptp .new later grown
  exact ⟨grown, statement, pool⟩

end ProblemIntake
