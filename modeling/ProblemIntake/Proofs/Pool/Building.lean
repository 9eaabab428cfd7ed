import ProblemIntake.Proofs.Pool.Trees

namespace ProblemIntake

namespace Pool

/-- What is true of terms in a row if it is true of each of them in turn, and of a term if it is
true of its subterms: in a good pool, of the terms as written, of their cells, and of the pool that
has them. -/
structure BuildInvariant (Good : Pool → Prop)
    (P : Pool → List Written → List Pooled → Pool → Prop) : Prop where
  nil : ∀ pool, Good pool → P pool [] [] pool
  cons : ∀ {pool mid later w t ws ts}, P pool [w] [t] mid → P mid ws ts later →
    P pool (w :: ws) (t :: ts) later
  good : ∀ {pool ws ts later}, P pool ws ts later → Good later
  written : ∀ {pool ws ts later}, P pool ws ts later → ts.map Term.written = ws
  node : ∀ {pool ws later} {shape : Shape Pooled} (loc : Option Span),
    P pool ws shape.children later →
    P pool [.mk loc (shape.map Term.written)] [(intern shape loc later).1]
      (intern shape loc later).2

theorem build_mk (loc : Option Span) (shape : Shape Written) (pool : Pool) :
    build (.mk loc shape) pool =
      let traversed := shape.traverse build pool
      intern traversed.1 loc traversed.2 := by
  rw [build, Term.fold_mk, Shape.traverse_map]
  rfl

namespace BuildInvariant

variable {Good : Pool → Prop} {P : Pool → List Written → List Pooled → Pool → Prop}

theorem mapM (invariant : BuildInvariant Good P) {ws : List Written}
    (each : ∀ w ∈ ws, ∀ pool, Good pool → P pool [w] [(build w pool).1] (build w pool).2)
    {pool : Pool} (good : Good pool) :
    P pool ws (ws.mapM build pool).1 (ws.mapM build pool).2 := by
  induction ws generalizing pool with
  | nil => exact invariant.nil pool good
  | cons w ws ih =>
    have first := each w List.mem_cons_self pool good
    rw [Shape.run_mapM_cons]
    exact invariant.cons first
      (ih (fun v mem => each v (List.mem_cons_of_mem w mem)) (invariant.good first))

/-- The induction is on the term: its subterms are built in a row, and then its top. -/
theorem build (invariant : BuildInvariant Good P) (w : Written) :
    ∀ pool, Good pool → P pool [w] [(Pool.build w pool).1] (Pool.build w pool).2 := by
  induction w using Term.induction with
  | node loc shape ih =>
    intro pool good
    obtain ⟨pools, children, frame⟩ := Shape.traverse_run Pool.build shape pool
    have built := invariant.mapM ih good
    have trees : (shape.traverse Pool.build pool).1.map Term.written = shape := by
      have same := frame Term.written id (by rw [invariant.written built, List.map_id])
      rw [same, Shape.map_id]
    rw [← pools, ← children] at built
    have top := invariant.node loc built
    rw [build_mk]
    rwa [trees] at top

theorem mapM_build (invariant : BuildInvariant Good P) (ws : List Written) {pool : Pool}
    (good : Good pool) : P pool ws (ws.mapM Pool.build pool).1 (ws.mapM Pool.build pool).2 :=
  invariant.mapM (fun w _ => invariant.build w) good

end BuildInvariant

/-- Terms have been built on top of a pool. -/
structure Built (pool : Pool) (ws : List Written) (ts : List Pooled) (later : Pool) : Prop where
  closed : later.Closed
  keeps : ∀ t, pool.Holds t → later.Holds t
  held : ∀ t ∈ ts, later.Holds t
  written : ts.map Term.written = ws
  trees : later.trees = pool.trees ∪ parts ws

theorem built_intern {pool : Pool} {ws : List Written} {shape : Shape Pooled} {later : Pool}
    (children : Built pool ws shape.children later) (loc : Option Span) :
    let w : Written := .mk loc (shape.map Term.written)
    Built pool [w] [(intern shape loc later).1] (intern shape loc later).2 := by
  intro w
  have closed : (intern shape loc later).2.Closed := children.closed.intern children.held
  have held := holds_intern shape loc later
  have kept : ∀ t, later.Holds t → (intern shape loc later).2.Holds t :=
    fun t held => holds_intern_iff.mpr (.inr held)
  have given : ∀ u ∈ shape.children, (intern shape loc later).2.Owns u :=
    fun u mem => (kept u (children.held u mem)).owns
  have top : (intern shape loc later).1.written = w := by
    obtain ⟨shapes, locs⟩ := shape_eq_of_node (node_intern shape loc later)
      (fun u mem => (closed _ held u mem).owns) given
    rw [Term.written_eq, shapes, locs]
  have inner : parts ws ⊆ parts [w] := by
    rw [← children.written, ← Shape.children_map, show parts [w] = _ from parts_mk loc _]
    exact Set.subset_union_right
  refine ⟨closed, fun t held => kept t (children.keeps t held), ?_, congrArg (fun v => [v]) top, ?_⟩
  · intro t mem
    rwa [List.mem_singleton.mp mem]
  · rw [children.closed.trees_intern children.held, top, children.trees, Set.union_assoc,
      Set.union_eq_self_of_subset_left inner]

theorem built_nil {pool : Pool} (closed : pool.Closed) : Built pool [] [] pool := by
  refine ⟨closed, fun _ held => held, nofun, rfl, ?_⟩
  rw [parts_nil, Set.union_empty]

theorem Built.cons {pool mid later : Pool} {w : Written} {t : Pooled} {ws : List Written}
    {ts : List Pooled} (first : Built pool [w] [t] mid) (rest : Built mid ws ts later) :
    Built pool (w :: ws) (t :: ts) later := by
  refine ⟨rest.closed, fun u held => rest.keeps u (first.keeps u held), ?_, ?_, ?_⟩
  · intro u mem
    rcases List.mem_cons.mp mem with rfl | mem
    · exact rest.keeps _ (first.held _ (List.mem_singleton_self _))
    · exact rest.held u mem
  · rw [List.map_cons, rest.written, (List.cons.inj first.written).1]
  · rw [rest.trees, first.trees, parts_cons w ws, Set.union_assoc]

theorem buildInvariant_built : BuildInvariant Closed Built where
  nil _ := built_nil
  cons first rest := first.cons rest
  good built := built.closed
  written built := built.written
  node loc children := built_intern children loc

/-- Building terms answers those very trees and shares their parts, and no other tree. -/
theorem built_mapM_build (ws : List Written) {pool : Pool} (closed : pool.Closed) :
    Built pool ws (ws.mapM build pool).1 (ws.mapM build pool).2 :=
  buildInvariant_built.mapM_build ws closed

end Pool

end ProblemIntake
