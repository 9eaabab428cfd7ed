import ProblemIntake.Item
import ProblemIntake.Proofs.Pool.Building

namespace ProblemIntake

namespace Pool

/-- A coherent pool that owns all the terms of an earlier one. -/
structure Extends (pool later : Pool) : Prop where
  coherent : later.Coherent
  keeps : ∀ t, pool.Owns t → later.Owns t

variable {pool mid later : Pool} {shape : Shape Pooled} {loc : Option Span}

theorem Coherent.extends_self (coherent : pool.Coherent) : Extends pool pool :=
  ⟨coherent, fun _ owned => owned⟩

theorem Extends.trans (first : Extends pool mid) (second : Extends mid later) :
    Extends pool later :=
  ⟨second.coherent, fun t owned => second.keeps t (first.keeps t owned)⟩

theorem Coherent.extends_intern (coherent : pool.Coherent)
    (given : ∀ u ∈ shape.children, pool.Owns u) : Extends pool (Pool.intern shape loc pool).2 :=
  ⟨coherent.intern given, fun _ owned => owns_intern owned⟩

theorem Coherent.written_intern (coherent : pool.Coherent)
    (given : ∀ u ∈ shape.children, pool.Owns u) :
    (Pool.intern shape loc pool).1.written = .mk loc (shape.map Term.written) := by
  have answered : (Pool.intern shape loc pool).1.shape = shape ∧
      (Pool.intern shape loc pool).1.loc = loc := coherent.shape_intern given
  rw [Term.written_eq, answered.1, answered.2]

/-- The terms are made of cells of the later pool, as they were written. -/
structure Renders (pool : Pool) (ws : List Written) (ts : List Pooled) (later : Pool) : Prop
    extends Extends pool later where
  owned : ∀ t ∈ ts, later.Owns t
  written : ts.map Term.written = ws

theorem Renders.cons {w : Written} {t : Pooled} {ws : List Written} {ts : List Pooled}
    (first : Renders pool [w] [t] mid) (rest : Renders mid ws ts later) :
    Renders pool (w :: ws) (t :: ts) later := by
  refine ⟨first.toExtends.trans rest.toExtends, fun u mem => ?_, ?_⟩
  · rcases List.mem_cons.mp mem with rfl | mem
    · exact rest.keeps _ (first.owned _ (List.mem_singleton_self _))
    · exact rest.owned u mem
  · rw [List.map_cons, rest.written, (List.cons.inj first.written).1]

theorem Renders.node {ws : List Written} (children : Renders pool ws shape.children later)
    (loc : Option Span) :
    Renders pool [.mk loc (shape.map Term.written)] [(intern shape loc later).1]
      (intern shape loc later).2 := by
  refine ⟨children.toExtends.trans (children.coherent.extends_intern children.owned),
    fun t mem => ?_, ?_⟩
  · rw [List.mem_singleton.mp mem]
    exact owns_intern_iff.mpr (.inl rfl)
  · rw [List.map_singleton, children.coherent.written_intern children.owned]

theorem buildInvariant_renders : BuildInvariant Coherent Renders where
  nil _ coherent := ⟨coherent.extends_self, nofun, rfl⟩
  cons first rest := first.cons rest
  good renders := renders.coherent
  written renders := renders.written
  node loc children := children.node loc

theorem renders_mapM_build (ws : List Written) (coherent : pool.Coherent) :
    Renders pool ws (ws.mapM build pool).1 (ws.mapM build pool).2 :=
  buildInvariant_renders.mapM_build ws coherent

theorem renders_optionMapM_build (w? : Option Written) (coherent : pool.Coherent) :
    Renders pool w?.toList (w?.mapM build pool).1.toList (w?.mapM build pool).2 ∧
      (w?.mapM build pool).1.map Term.written = w? := by
  cases w? with
  | none => exact ⟨⟨coherent.extends_self, nofun, rfl⟩, rfl⟩
  | some w =>
    have renders := buildInvariant_renders.build w pool coherent
    exact ⟨renders, congrArg some (List.cons.inj renders.written).1⟩

end Pool

namespace Item

/-- The terms of an item. -/
def terms {ρ : Type} (item : Item ρ) : List ρ :=
  item.args ++ item.name.toList ++ item.note.toList

/-- The item with its terms as trees, places included. -/
def written (item : Item Pooled) : Item Written where
  keyword := item.keyword
  args := item.args.map Term.written
  name := item.name.map Term.written
  note := item.note.map Term.written
  loc := item.loc

/-- The terms of the item are in the pool. -/
def OwnedBy (item : Item Pooled) (pool : Pool) : Prop := ∀ t ∈ item.terms, pool.Owns t

variable {pool later : Pool} {item : Item Pooled}

theorem OwnedBy.extends (owned : item.OwnedBy pool) (grown : pool.Extends later) :
    item.OwnedBy later := fun t mem => grown.keeps t (owned t mem)

theorem OwnedBy.args (owned : item.OwnedBy pool) : ∀ t ∈ item.args, pool.Owns t :=
  fun t mem => owned t (List.mem_append_left _ (List.mem_append_left _ mem))

theorem OwnedBy.note (owned : item.OwnedBy pool) {note : Pooled} (noted : item.note = some note) :
    pool.Owns note :=
  owned note (List.mem_append_right _ (by rw [noted]; exact List.mem_singleton_self note))

/-- Building an item answers that very item. -/
theorem rendered_build (item : Item Written) (coherent : pool.Coherent) :
    let built := item.build pool
    pool.Extends built.2 ∧ built.1.OwnedBy built.2 ∧ built.1.written = item := by
  intro built
  have args := Pool.renders_mapM_build item.args coherent
  obtain ⟨name, named⟩ := Pool.renders_optionMapM_build item.name args.coherent
  obtain ⟨note, noted⟩ := Pool.renders_optionMapM_build item.note name.coherent
  refine ⟨(args.toExtends.trans name.toExtends).trans note.toExtends, fun t mem => ?_, ?_⟩
  · rcases List.mem_append.mp mem with mem | mem
    · rcases List.mem_append.mp mem with mem | mem
      · exact note.keeps t (name.keeps t (args.owned t mem))
      · exact note.keeps t (name.owned t mem)
    · exact note.owned t mem
  · have same : built.1.written = ⟨item.keyword, item.args, item.name, item.note, item.loc⟩ :=
      congr (congrArg₂ (fun args name note => Item.mk item.keyword args name note item.loc)
        args.written named) noted
    exact same

/-- Building items in a row answers those very items. -/
theorem rendered_mapM_build (items : List (Item Written)) (coherent : pool.Coherent) :
    let built := items.mapM build pool
    pool.Extends built.2 ∧ (∀ item ∈ built.1, item.OwnedBy built.2) ∧
      built.1.map written = items := by
  induction items generalizing pool with
  | nil => exact ⟨coherent.extends_self, nofun, rfl⟩
  | cons item items ih =>
    obtain ⟨first, owned, same⟩ := rendered_build item coherent
    obtain ⟨rest, owned', same'⟩ := ih first.coherent
    dsimp only
    rw [Shape.run_mapM_cons]
    refine ⟨first.trans rest, fun other mem => ?_, ?_⟩
    · rcases List.mem_cons.mp mem with rfl | mem
      · exact owned.extends rest
      · exact owned' other mem
    · rw [List.map_cons, same, same']

end Item

end ProblemIntake
