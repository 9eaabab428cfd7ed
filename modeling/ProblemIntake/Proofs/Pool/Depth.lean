import ProblemIntake.Proofs.Pool.Extension
import ProblemIntake.Proofs.Pool.Recall

namespace ProblemIntake

namespace Pool

variable {pool mid later : Pool} {t u : Pooled} {shape : Shape Pooled} {loc : Option Span}

theorem Deep.holds (deep : pool.Deep t) : pool.Holds t := by
  obtain ⟨held, _⟩ := deep
  exact held

theorem Deep.child (deep : pool.Deep t) (child : u ∈ t.shape.children) : pool.Deep u := by
  obtain ⟨_, children⟩ := deep
  exact children u child

theorem Deep.part (deep : pool.Deep t) (part : u.PartOf t) : pool.Deep u := by
  induction part with
  | self => exact deep
  | child mem _ ih => exact ih (deep.child mem)

theorem Deep.kept (deep : pool.Deep t) (kept : Keeps pool later) : later.Deep t := by
  induction deep with
  | node held _ ih => exact .node (kept _ held) ih

theorem deep_constant (pool : Pool) (b : Bool) : pool.Deep (constant b) :=
  .node (holds_constant pool b) nofun

theorem Deep.number_eq_iff (deep : pool.Deep t) (deep' : pool.Deep u) :
    t.number = u.number ↔ t.written = u.written := by
  constructor
  · intro same
    rw [deep.holds.owns.eq_of_number deep'.holds.owns same]
  · intro same
    rw [deep.eq_of_written deep' same]

/-- The pool need not be closed: the children of the answer are those asked for. -/
theorem Deep.intern (coherent : pool.Coherent) (children : ∀ u ∈ shape.children, pool.Deep u) :
    (Pool.intern shape loc pool).2.Deep (Pool.intern shape loc pool).1 := by
  have owned : ∀ u ∈ shape.children, pool.Owns u := fun u mem => (children u mem).holds.owns
  refine .node (holds_intern shape loc pool) fun u mem => ?_
  rw [(coherent.shape_intern owned).1] at mem
  exact (children u mem).kept (keeps_intern shape loc pool)

/-- The terms as written, in cells that the later pool shares all the way down. -/
structure Shares (pool : Pool) (ws : List Written) (ts : List Pooled) (later : Pool) : Prop
    extends Renders pool ws ts later where
  recalls : Keeps pool later
  deep : ∀ t ∈ ts, later.Deep t

theorem Shares.cons {w : Written} {ws : List Written} {ts : List Pooled}
    (first : Shares pool [w] [t] mid) (rest : Shares mid ws ts later) :
    Shares pool (w :: ws) (t :: ts) later := by
  refine ⟨first.toRenders.cons rest.toRenders, first.recalls.trans rest.recalls, ?_⟩
  intro u mem
  rcases List.mem_cons.mp mem with rfl | mem
  · exact (first.deep _ (List.mem_singleton_self _)).kept rest.recalls
  · exact rest.deep u mem

theorem Shares.node {ws : List Written} (children : Shares pool ws shape.children later)
    (loc : Option Span) :
    Shares pool [.mk loc (shape.map Term.written)] [(Pool.intern shape loc later).1]
      (Pool.intern shape loc later).2 := by
  refine ⟨children.toRenders.node loc, children.recalls.trans (keeps_intern shape loc later), ?_⟩
  intro u mem
  rw [List.mem_singleton.mp mem]
  exact Deep.intern children.coherent children.deep

theorem buildInvariant_shares : BuildInvariant Coherent Shares where
  nil pool coherent := ⟨⟨coherent.extends_self, nofun, rfl⟩, Keeps.refl pool, nofun⟩
  cons first rest := first.cons rest
  good shares := shares.coherent
  written shares := shares.written
  node loc children := children.node loc

end Pool

namespace Item

/-- The terms of an item are built in a row. -/
theorem run_build (item : Item Written) (pool : Pool) :
    item.terms.mapM Pool.build pool = ((item.build pool).1.terms, (item.build pool).2) := by
  have optional (w? : Option Written) : w?.toList.mapM Pool.build = do
      return (← w?.mapM Pool.build).toList := by
    cases w? <;> rfl
  rw [terms, List.mapM_append, List.mapM_append, optional, optional]
  rfl

/-- So are the terms of items in a row. -/
theorem run_mapM_build (items : List (Item Written)) (pool : Pool) :
    (items.flatMap terms).mapM Pool.build pool =
      let built := items.mapM build pool
      (built.1.flatMap terms, built.2) := by
  induction items generalizing pool with
  | nil => rfl
  | cons item items ih =>
    rw [List.flatMap_cons, Shape.run_mapM_append, Shape.run_mapM_cons]
    dsimp only
    rw [run_build, ih, List.flatMap_cons]

/-- Built items are made of terms shared all the way down. -/
theorem deep_mapM_build (items : List (Item Written)) {pool : Pool} (coherent : pool.Coherent) :
    let built := items.mapM build pool
    ∀ item ∈ built.1, ∀ t ∈ item.terms, built.2.Deep t := by
  intro built item mem t held
  have shares := Pool.buildInvariant_shares.mapM_build (items.flatMap terms) coherent
  rw [run_mapM_build] at shares
  exact shares.deep t (List.mem_flatMap_of_mem mem held)

end Item

end ProblemIntake
