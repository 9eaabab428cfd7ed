import ProblemIntake.Proofs.Pool.Growth

namespace ProblemIntake

namespace Pool

/-- What the one pool shares, the later one shares too. -/
def Keeps (pool later : Pool) : Prop := ∀ t, pool.Holds t → later.Holds t

theorem Keeps.refl (pool : Pool) : Keeps pool pool := fun _ held => held

theorem Keeps.trans {pool mid later : Pool} (first : Keeps pool mid) (second : Keeps mid later) :
    Keeps pool later := fun t held => second t (first t held)

theorem keeps_intern (shape : Shape Pooled) (loc : Option Span) (pool : Pool) :
    Keeps pool (intern shape loc pool).2 := fun _ held => holds_intern_iff.mpr (.inr held)

theorem keeps_alloc (shape : Shape Pooled) (loc : Option Span) (pool : Pool) :
    Keeps pool (alloc shape loc pool).2 := fun _ held => holds_alloc_iff.mpr held

/-- The answer depends on shared terms only: once it was given, every pool that keeps them gives it
again, and stays as it is. -/
structure Repeats {α : Type} (x : StateM Pool α) : Prop where
  keeps : ∀ pool, Keeps pool (x pool).2
  again : ∀ pool later, Keeps (x pool).2 later → x later = ((x pool).1, later)

variable {α β : Type}

theorem repeats_pure (a : α) : Repeats (pure a : StateM Pool α) :=
  ⟨Keeps.refl, fun _ _ _ => rfl⟩

theorem repeats_intern (shape : Shape Pooled) (loc : Option Span) :
    Repeats (intern shape loc) := by
  refine ⟨keeps_intern shape loc, fun pool later kept => intern_of_index ?_⟩
  have held := kept _ (holds_intern shape loc pool)
  rwa [Holds, node_intern] at held

theorem Repeats.bind {x : StateM Pool α} {f : α → StateM Pool β} (first : Repeats x)
    (next : ∀ a, Repeats (f a)) : Repeats (x >>= f) := by
  refine ⟨fun pool => (first.keeps pool).trans ((next _).keeps _), fun pool later kept => ?_⟩
  have again := first.again pool later (((next _).keeps _).trans kept)
  change f (x later).1 (x later).2 = _
  rw [again]
  exact (next _).again _ later kept

theorem Repeats.map {x : StateM Pool α} (repeats : Repeats x) (f : α → β) :
    Repeats (f <$> x) := by
  rw [map_eq_pure_bind]
  exact repeats.bind fun a => repeats_pure (f a)

end Pool

end ProblemIntake
