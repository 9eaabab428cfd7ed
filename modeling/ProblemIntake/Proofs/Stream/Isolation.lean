import ProblemIntake.Proofs.Canonical.Depth
import ProblemIntake.Proofs.View.Stream

/-!
# Streams that share a pool

A pool outlives the streams that use it. What is left in it by one input cannot be told from the
outcome of the next: neither from the statements as trees, nor from which of their terms are one
reference (`Stream.Sealed.references_iff`).
-/

namespace ProblemIntake

namespace Term

theorem map_id {ℓ : Type} (t : Term ℓ) : t.map id = t := by
  induction t using Term.induction with
  | node label s ih => rw [map_mk, Shape.map_congr (g := id) ih, Shape.map_id, id]

end Term

namespace View

theorem term_placed : placed.term = Term.written := funext fun t => Term.map_id t.written

theorem statement_placed : placed.statement = Statement.map Term.written := by
  have action (a : Action Pooled) : placed.action a = a.map Term.written := by
    unfold View.action
    rw [term_placed]
    split
    · rw [View.datatype, term_placed]
      rfl
    · rfl
  have label (l : Label Pooled) : placed.label l = l.map Term.written := by
    rw [View.label, term_placed]
    rfl
  funext s
  induction s using Statement.induction with
  | step s => rw [statement_step, step, action, label, Statement.map_step, Step.map]
  | pack items l ih => rw [statement_pack, List.map_congr_left ih, label, Statement.map_pack]

end View

/-- What is accepted, with the statements as trees. -/
def Accepted.written (a : Accepted) : List (Statement Written) × List Diagnostic × Record :=
  (a.statements.toList.map (Statement.map Term.written), a.diagnostics, a.headers)

namespace Stream

variable {s s' : Stream}

theorem extends_feedAll {items : List (Item Pooled)} (coherent : s.pool.Coherent)
    (owned : ∀ item ∈ items, item.OwnedBy s.pool) : s.pool.Extends (s.feedAll items).pool := by
  induction items generalizing s with
  | nil => exact coherent.extends_self
  | cons item items ih =>
    obtain ⟨own, later⟩ := List.forall_mem_cons.mp owned
    have grown := item.extends_canonical s.language coherent own
    have rest := ih (s := (s.feed item).2) grown.coherent
      fun other mem => (later other mem).extends grown
    exact grown.trans rest

theorem extends_run (config : Config) {items : List (Item Pooled)} {pool : Pool}
    (coherent : pool.Coherent) (owned : ∀ item ∈ items, item.OwnedBy pool) :
    pool.Extends (run config items pool).pool := by
  cases chosen : config.language with
  | none =>
    rw [run, start, chosen]
    exact coherent.extends_self
  | some language =>
    rw [run, start_of_language chosen]
    exact extends_feedAll (s := fresh config language pool) coherent owned

/-- The statements as trees. -/
def trees (s : Stream) : List (Statement Written) :=
  s.statements.toList.map (Statement.map Term.written)

/-- The terms that the statements refer to, and the terms inside of them, in order. -/
def terms (s : Stream) : List Pooled :=
  (s.statements.toList.flatMap Statement.terms).flatMap Term.subterms

/-- The references of a stream: the numbers of all its terms, in order. -/
def references (s : Stream) : List Nat := s.terms.map Term.number

theorem map_written_terms (s : Stream) :
    s.terms.map Term.written = (s.trees.flatMap Statement.terms).flatMap Term.subterms := by
  have visit (t : Pooled) : t.written.subterms = t.subterms.map Term.written :=
    Term.subterms_map Cell.loc t
  have refer (t : Statement Pooled) : (t.map Term.written).terms = t.terms.map Term.written :=
    Statement.terms_map Term.written t
  simp only [terms, trees, List.map_flatMap, List.flatMap_map, refer, List.flatMap_assoc, visit]

/-- The statements refer to terms that the pool shares all the way down. -/
structure Sealed (s : Stream) : Prop where
  coherent : s.pool.Coherent
  shared : ∀ t ∈ s.statements.toList, t.SharedBy s.pool

namespace Sealed

theorem fresh (config : Config) (language : Language) {pool : Pool} (coherent : pool.Coherent) :
    Sealed (.fresh config language pool) :=
  ⟨coherent, nofun⟩

theorem feed (sealed : s.Sealed) {item : Item Pooled} (shared : item.SharedBy s.pool) :
    Sealed (s.feed item).2 := by
  have kept := (item.repeats_canonical s.language).keeps s.pool
  refine ⟨(item.extends_canonical s.language sealed.coherent shared.ownedBy).coherent, ?_⟩
  intro t mem
  rw [statements_feed, Array.toList_push] at mem
  rcases List.mem_append.mp mem with mem | mem
  · exact (sealed.shared t mem).kept kept
  · rw [List.mem_singleton.mp mem]
    exact Item.sharedBy_canonical s.language sealed.coherent shared

theorem feedAll (sealed : s.Sealed) {items : List (Item Pooled)}
    (shared : ∀ item ∈ items, item.SharedBy s.pool) : Sealed (s.feedAll items) := by
  induction items generalizing s with
  | nil => exact sealed
  | cons item items ih =>
    obtain ⟨now, later⟩ := List.forall_mem_cons.mp shared
    have kept := (item.repeats_canonical s.language).keeps s.pool
    rw [feedAll_cons]
    exact ih (sealed.feed now) fun other mem => (later other mem).kept kept

theorem deep (sealed : s.Sealed) {t : Pooled} (mem : t ∈ s.terms) : s.pool.Deep t := by
  obtain ⟨whole, inside, part⟩ := List.mem_flatMap.mp mem
  obtain ⟨statement, among, held⟩ := List.mem_flatMap.mp inside
  exact (sealed.shared statement among whole held).part (Term.mem_subterms_iff.mp part)

/-- Two references are the same exactly if they are to the same tree. -/
theorem references_iff (sealed : s.Sealed) (i j : Nat) :
    s.references[i]? = s.references[j]? ↔
      (s.terms.map Term.written)[i]? = (s.terms.map Term.written)[j]? := by
  rw [references, List.getElem?_map, List.getElem?_map, List.getElem?_map, List.getElem?_map]
  cases first : s.terms[i]? with
  | none =>
    cases s.terms[j]? with
    | none => exact iff_of_true rfl rfl
    | some u => exact ⟨nofun, nofun⟩
  | some t =>
    cases second : s.terms[j]? with
    | none => exact ⟨nofun, nofun⟩
    | some u =>
      have deep := sealed.deep (List.mem_of_getElem? first)
      have deep' := sealed.deep (List.mem_of_getElem? second)
      simp only [Option.map_some, Option.some.injEq, deep.number_eq_iff deep']

end Sealed

/-- The outcomes of two streams are the same but for the cells their terms are in. -/
structure SameButCells (s s' : Stream) : Prop where
  /-- Both inputs are accepted with the same results, or both are rejected for the same reasons. -/
  verdict : s.verdict.map Accepted.written = s'.verdict.map Accepted.written
  /-- They report the same in the same places, in the same order. -/
  diagnostics : s.context.diagnostics = s'.context.diagnostics
  /-- They hold the same headers, in the same order. -/
  headers : s.context.headers = s'.context.headers
  /-- Their statements are the same trees, places included. -/
  trees : s.trees = s'.trees
  /-- Two terms are one reference in the one exactly if they are in the other. -/
  references : ∀ i j : Nat,
    s.references[i]? = s.references[j]? ↔ s'.references[i]? = s'.references[j]?

theorem sameButCells_of_abreast (abreast : View.placed.Abreast s s') (sealed : s.Sealed)
    (sealed' : s'.Sealed) : SameButCells s s' := by
  have diagnostics : s.context.diagnostics = s'.context.diagnostics := by
    have same := abreast.context.diagnostics
    rwa [show View.placed.diagnostic = id from rfl, List.map_id, List.map_id] at same
  have trees : s.trees = s'.trees := by
    have same := abreast.statements
    rwa [View.statement_placed] at same
  refine ⟨?_, diagnostics, abreast.context.headers, trees, fun i j => ?_⟩
  · have errors := abreast.context.hasErrors
    unfold verdict
    rw [errors, diagnostics, abreast.context.headers]
    cases s'.context.hasErrors with
    | true => rfl
    | false => exact congrArg (fun trees => Except.ok (trees, _, _)) trees
  · rw [sealed.references_iff, sealed'.references_iff, map_written_terms, map_written_terms, trees]

/-- **Streams that share a pool do not interfere.** Whatever a pool was used for, and whatever
input it served last under whatever settings, an input that is built in it and run leads to the same
verdict, the same diagnostics, the same headers in the same order and the same trees as if it is
built and run in a new pool, and two of its terms are one reference in the one run exactly if they
are in the other. -/
theorem streams_never_interfere (config config' : Config) (language : Language)
    (chosen : config'.language = some language) (pool : Pool) (grown : Pool.new.Grown pool)
    (earlier : List (Item Pooled)) (owned : ∀ item ∈ earlier, item.OwnedBy pool)
    (items : List (Item Written)) :
    let used := (run config earlier pool).pool
    let built := items.mapM Item.build used
    let built' := items.mapM Item.build Pool.new
    ∃ s s', start config' built.2 = .ok s ∧ start config' built'.2 = .ok s' ∧
      let closed := (s.feedAll built.1).close
      let closed' := (s'.feedAll built'.1).close
      (run config' built.1 built.2).result = closed.verdict ∧
      (run config' built'.1 built'.2).result = closed'.verdict ∧
      SameButCells closed closed' := by
  intro used built built'
  have coherent : used.Coherent :=
    (extends_run config (grown.extends Pool.coherent_new).coherent owned).coherent
  have sealed {pool : Pool} (coherent : pool.Coherent) :
      let built := items.mapM Item.build pool
      ((fresh config' language built.2).feedAll built.1).close.Sealed := by
    have later := (Item.rendered_mapM_build items coherent).1.coherent
    have all := (Sealed.fresh config' language later).feedAll (Item.deep_mapM_build items coherent)
    exact ⟨all.coherent, all.shared⟩
  refine ⟨_, _, start_of_language chosen _, start_of_language chosen _, result_run chosen _ _,
    result_run chosen _ _, ?_⟩
  exact sameButCells_of_abreast (View.abreast_built config' language coherent Pool.coherent_new rfl)
    (sealed coherent) (sealed Pool.coherent_new)

/-- A conjecture is proved and a clause read in a pool that an earlier conjecture was proved in, as
they are in a new one. -/
theorem conjecture_told_alike_in_used_pool :
    let config : Config := { language := some .tptp, checkHeaders := true }
    let truth : Pooled := Pool.constant true
    let pool := (Pool.alloc (.op .not [truth]) none .new).2
    let earlier : List (Item Pooled) := [{ keyword := "conjecture", args := [truth] }]
    let p : Written := .mk (some ⟨⟨1, 1⟩, ⟨1, 1⟩⟩) (.symbol (.term "p"))
    let items : List (Item Written) :=
      [{ keyword := "negated_conjecture", args := [p], name := some p, note := some p },
        { keyword := "axiom", args := [.mk none (.op .not [p])] }]
    let used := (run config earlier pool).pool
    let built := items.mapM Item.build used
    let built' := items.mapM Item.build Pool.new
    Pool.new.Grown pool ∧ (∀ item ∈ earlier, item.OwnedBy pool) ∧
    ∃ s s', start config built.2 = .ok s ∧ start config built'.2 = .ok s' ∧
      SameButCells (s.feedAll built.1).close (s'.feedAll built'.1).close := by
  intro config truth pool earlier p items used built built'
  have held (pool : Pool) : pool.Owns truth := (pool.holds_constant true).owns
  have grown : Pool.new.Grown pool :=
    .alloc .self _ _ fun t mem => List.mem_singleton.mp mem ▸ held .new
  have owned : ∀ item ∈ earlier, item.OwnedBy pool := by
    intro item mem t inside
    rw [List.mem_singleton.mp mem] at inside
    exact List.mem_singleton.mp inside ▸ held pool
  obtain ⟨s, s', started, started', _, _, same⟩ :=
    streams_never_interfere config config .tptp rfl pool grown earlier owned items
  exact ⟨grown, owned, s, s', started, started', same⟩

end Stream

end ProblemIntake
