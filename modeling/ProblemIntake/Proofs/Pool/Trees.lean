import Mathlib.Data.Bool.Set
import Mathlib.Data.Set.Card
import ProblemIntake.Proofs.Pool.Growth

namespace ProblemIntake

namespace Pool

variable {pool : Pool} {t u : Pooled} {shape : Shape Pooled} {loc : Option Span}

/-- The term is shared, and so are all its parts. -/
inductive Deep (pool : Pool) : Pooled → Prop
  | node {t : Pooled} (held : pool.Holds t) (children : ∀ u ∈ t.shape.children, Deep pool u) :
      Deep pool t

/-- The induction compares the trees layer by layer: equal subtrees are one reference already, so
the two nodes are equal, and the index has one answer for them. -/
theorem Deep.eq_of_written (deep : pool.Deep t) (deep' : pool.Deep u)
    (same : t.written = u.written) : t = u := by
  induction deep generalizing u with
  | @node t held _ ih =>
    obtain ⟨held', children'⟩ := deep'
    rw [Term.written_eq, Term.written_eq] at same
    obtain ⟨locs, shapes⟩ := Term.mk.inj same
    have shape : t.shape = u.shape :=
      Shape.eq_of_map_eq shapes fun a mem b mem' trees => ih a mem (children' b mem') trees
    refine held.eq_of_node held' ?_
    rw [Term.node, Term.node, shape, locs]

/-- Shared terms are made of shared terms. -/
def Closed (pool : Pool) : Prop := ∀ t, pool.Holds t → ∀ u ∈ t.shape.children, pool.Holds u

theorem Closed.deep (closed : pool.Closed) (held : pool.Holds t) : pool.Deep t := by
  induction t using Term.induction with
  | node cell shape ih =>
    refine .node held fun u mem => ?_
    exact ih u mem (closed _ held u mem)

/-- The shared terms as trees. -/
def trees (pool : Pool) : Set Written := Term.written '' {t | pool.Holds t}

/-- The shared terms are as many as the nodes in the index. -/
theorem finite_and_ncard_held (pool : Pool) :
    {t | pool.Holds t}.Finite ∧ {t | pool.Holds t}.ncard = pool.size := by
  have nodes : Term.node '' {t | pool.Holds t} = (pool.index.keys.toFinset : Set Node) := by
    ext n
    simp only [Set.mem_image, List.coe_toFinset, Set.mem_ofPred_eq, Std.HashMap.mem_keys]
    constructor
    · rintro ⟨t, held, rfl⟩
      exact Std.HashMap.mem_iff_isSome_getElem?.mpr (held ▸ rfl)
    · intro mem
      obtain ⟨t, found⟩ := Option.isSome_iff_exists.mp (Std.HashMap.mem_iff_isSome_getElem?.mp mem)
      exact ⟨t, holds_of_index found, (pool.index_sound n t found).1⟩
  have distinct : Set.InjOn Term.node {t | pool.Holds t} :=
    fun t held u held' same => held.eq_of_node held' same
  constructor
  · refine Set.Finite.of_finite_image ?_ distinct
    rw [nodes]
    exact Finset.finite_toSet _
  · rw [← distinct.ncard_image, nodes, Set.ncard_coe_finset,
      List.toFinset_card_of_nodup Std.HashMap.nodup_keys, Std.HashMap.length_keys]
    rfl

theorem finite_trees (pool : Pool) : pool.trees.Finite :=
  (finite_and_ncard_held pool).1.image _

theorem Closed.ncard_trees (closed : pool.Closed) : pool.trees.ncard = pool.size := by
  have distinct : Set.InjOn Term.written {t | pool.Holds t} :=
    fun t held u held' same => (closed.deep held).eq_of_written (closed.deep held') same
  rw [trees, distinct.ncard_image, (finite_and_ncard_held pool).2]

/-- The truth values as trees. -/
def truths : Set Written := Set.range fun b => (constant b).written

theorem ncard_truths : truths.ncard = 2 := by
  rw [truths, Bool.range_eq]
  refine Set.ncard_pair fun same => ?_
  cases same

/-- Every pool shares the truth values; the other trees are counted besides them. -/
theorem Closed.size_eq {others : Set Written} (closed : pool.Closed)
    (trees : pool.trees = truths ∪ others) : pool.size = 2 + (others \ truths).ncard := by
  have finite : (truths ∪ others).Finite := trees ▸ finite_trees pool
  have finite' : (others \ truths).Finite :=
    (finite.subset Set.subset_union_right).subset Set.sdiff_subset
  rw [← closed.ncard_trees, trees, ← Set.union_sdiff_self, Set.ncard_union_eq
    Set.disjoint_sdiff_right (finite.subset Set.subset_union_left) finite', ncard_truths]

theorem closed_new : new.Closed := by
  intro t held u mem
  obtain ⟨b, rfl⟩ := owns_new_iff.mp held.owns
  cases mem

theorem trees_new : new.trees = truths := by
  ext w
  constructor
  · rintro ⟨t, held, rfl⟩
    obtain ⟨b, rfl⟩ := owns_new_iff.mp (Holds.owns held)
    exact ⟨b, rfl⟩
  · rintro ⟨b, rfl⟩
    exact ⟨constant b, holds_constant new b, rfl⟩

/-- The parts of terms, the terms themselves included. -/
def parts (ws : List Written) : Set Written := {v | ∃ w ∈ ws, v.PartOf w}

theorem parts_nil : parts [] = ∅ := by
  ext v
  simp [parts]

theorem parts_cons (w : Written) (ws : List Written) : parts (w :: ws) = parts [w] ∪ parts ws := by
  ext v
  simp [parts]

theorem parts_mk (loc : Option Span) (shape : Shape Written) :
    parts [.mk loc shape] = {.mk loc shape} ∪ parts shape.children := by
  ext v
  simp [parts, Term.partOf_mk_iff]

theorem Closed.parts_subset (closed : pool.Closed) (held : pool.Holds t) :
    parts [t.written] ⊆ pool.trees := by
  induction t using Term.induction with
  | node cell shape ih =>
    rw [Term.written_eq, parts_mk, ← Term.written_eq]
    refine Set.union_subset (Set.singleton_subset_iff.mpr ⟨_, held, rfl⟩) ?_
    rintro v ⟨w, mem, part⟩
    rw [Shape.children_map] at mem
    obtain ⟨u, child, rfl⟩ := List.mem_map.mp mem
    exact ih u child (closed _ held u child) ⟨_, List.mem_singleton_self _, part⟩

theorem Closed.intern (closed : pool.Closed) (given : ∀ u ∈ shape.children, pool.Holds u) :
    (Pool.intern shape loc pool).2.Closed := by
  intro t held u mem
  refine holds_intern_iff.mpr (.inr ?_)
  rcases holds_intern_iff.mp held with rfl | held
  · rcases intern_cases shape loc pool with ⟨t, held, _, found⟩ | ⟨_, answer, _⟩
    · rw [found] at mem
      exact closed t held u mem
    · rw [answer] at mem
      exact given u mem
  · exact closed t held u mem

theorem Closed.trees_intern (closed : pool.Closed) (given : ∀ u ∈ shape.children, pool.Holds u) :
    (Pool.intern shape loc pool).2.trees =
      pool.trees ∪ parts [(Pool.intern shape loc pool).1.written] := by
  refine Set.Subset.antisymm ?_ (Set.union_subset ?_ ?_)
  · rintro _ ⟨t, held, rfl⟩
    rcases holds_intern_iff.mp held with rfl | held
    · exact .inr ⟨_, List.mem_singleton_self _, .self⟩
    · exact .inl ⟨t, held, rfl⟩
  · rintro _ ⟨t, held, rfl⟩
    exact ⟨t, holds_intern_iff.mpr (.inr held), rfl⟩
  · exact (closed.intern given).parts_subset (holds_intern shape loc pool)

end Pool

end ProblemIntake
