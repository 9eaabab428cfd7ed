import ProblemIntake.Proofs.Term.Parts

namespace ProblemIntake

namespace Pool

/-- The term is in the cell with its number. -/
def Owns (pool : Pool) (t : Pooled) : Prop := pool.cells[t.number]? = some t

/-- The term is the shared one of its node. -/
def Holds (pool : Pool) (t : Pooled) : Prop := pool.index[t.node]? = some t

variable {pool : Pool} {t u : Pooled} {shape : Shape Pooled} {loc : Option Span}

theorem holds_of_index {n : Node} (found : pool.index[n]? = some t) : pool.Holds t := by
  have node := (pool.index_sound n t found).1
  rwa [Holds, node]

theorem Holds.owns (held : pool.Holds t) : pool.Owns t := (pool.index_sound t.node t held).2

/-- A number is one reference. -/
theorem Owns.eq_of_number (owned : pool.Owns t) (owned' : pool.Owns u)
    (same : t.number = u.number) : t = u := by
  rw [Owns, same] at owned
  exact Option.some.inj (owned.symm.trans owned')

/-- A node is shared once. -/
theorem Holds.eq_of_node (held : pool.Holds t) (held' : pool.Holds u)
    (same : t.node = u.node) : t = u := by
  rw [Holds, same] at held
  exact Option.some.inj (held.symm.trans held')

theorem holds_constant (pool : Pool) (b : Bool) : pool.Holds (constant b) := pool.index_constant b

theorem owns_new_iff : new.Owns t ↔ ∃ b, t = constant b := by
  constructor
  · intro owned
    have held : (#[constant true, constant false] : Array Pooled)[t.number]? = some t := owned
    match found : t.number with
    | 0 => rw [found] at held; exact ⟨true, (Option.some.inj held).symm⟩
    | 1 => rw [found] at held; exact ⟨false, (Option.some.inj held).symm⟩
    | n + 2 => simp [found] at held
  · rintro ⟨b, rfl⟩
    exact (holds_constant new b).owns

/-- Interning finds the node, or fills the next cell and indexes it. -/
theorem intern_cases (shape : Shape Pooled) (loc : Option Span) (pool : Pool) :
    (∃ t, pool.Holds t ∧ t.node = .of shape loc ∧ intern shape loc pool = (t, pool)) ∨
    pool.index[Node.of shape loc]? = none ∧
      let t : Pooled := .mk ⟨pool.cells.size, loc⟩ shape
      (intern shape loc pool).1 = t ∧
      (intern shape loc pool).2.cells = pool.cells.push t ∧
      (intern shape loc pool).2.index = pool.index.insert (.of shape loc) t := by
  cases found : pool.index[Node.of shape loc]? with
  | some t =>
    exact .inl ⟨t, holds_of_index found, (pool.index_sound _ t found).1, intern_of_index found⟩
  | none =>
    refine .inr ⟨rfl, ?_⟩
    unfold intern
    split
    · simp_all
    · exact ⟨rfl, rfl, rfl⟩

theorem holds_intern (shape : Shape Pooled) (loc : Option Span) (pool : Pool) :
    (intern shape loc pool).2.Holds (intern shape loc pool).1 :=
  holds_of_index (index_intern shape loc pool)

theorem owns_push_iff {cells : Array Pooled} (number : t.number = cells.size) :
    (cells.push t)[u.number]? = some u ↔ u = t ∨ cells[u.number]? = some u := by
  rw [Array.getElem?_push]
  by_cases last : u.number = cells.size
  · simp [last, eq_comm]
  · have other : u ≠ t := fun same => last (same ▸ number)
    simp [last, other]

theorem owns_intern_iff :
    (intern shape loc pool).2.Owns u ↔ u = (intern shape loc pool).1 ∨ pool.Owns u := by
  rcases intern_cases shape loc pool with ⟨t, held, _, found⟩ | ⟨_, answer, cells, _⟩
  · rw [found]
    exact ⟨.inr, fun owned => owned.elim (· ▸ held.owns) id⟩
  · rw [Owns, cells, answer]
    exact owns_push_iff rfl

theorem holds_intern_iff :
    (intern shape loc pool).2.Holds u ↔ u = (intern shape loc pool).1 ∨ pool.Holds u := by
  rcases intern_cases shape loc pool with ⟨t, held, _, found⟩ | ⟨absent, answer, _, index⟩
  · rw [found]
    exact ⟨.inr, fun held' => held'.elim (· ▸ held) id⟩
  · rw [Holds, index, answer, Std.HashMap.getElem?_insert]
    by_cases same : Node.of shape loc = u.node
    · have unheld : ¬ pool.Holds u := by simp [Holds, ← same, absent]
      simp [same, unheld, eq_comm]
    · have other : u ≠ .mk ⟨pool.cells.size, loc⟩ shape := by
        rintro rfl
        exact same rfl
      simp [same, other, Holds]

theorem owns_intern (owned : pool.Owns u) : (intern shape loc pool).2.Owns u :=
  owns_intern_iff.mpr (.inr owned)

theorem owns_alloc_iff :
    (alloc shape loc pool).2.Owns u ↔ u = (alloc shape loc pool).1 ∨ pool.Owns u :=
  owns_push_iff rfl

theorem holds_alloc_iff : (alloc shape loc pool).2.Holds u ↔ pool.Holds u := Iff.rfl

theorem owns_alloc (owned : pool.Owns u) : (alloc shape loc pool).2.Owns u :=
  owns_alloc_iff.mpr (.inr owned)

/-- Owned terms are made of owned terms. -/
def Coherent (pool : Pool) : Prop := ∀ t, pool.Owns t → ∀ u ∈ t.shape.children, pool.Owns u

theorem coherent_new : new.Coherent := by
  intro t owned u mem
  obtain ⟨b, rfl⟩ := owns_new_iff.mp owned
  cases mem

/-- Terms owned by one pool are told apart by their nodes, one layer of them. -/
theorem shape_eq_of_node (node : t.node = .of shape loc)
    (owned : ∀ u ∈ t.shape.children, pool.Owns u) (given : ∀ u ∈ shape.children, pool.Owns u) :
    t.shape = shape ∧ t.loc = loc := by
  obtain ⟨shapes, locs⟩ := Node.mk.inj node
  refine ⟨Shape.eq_of_map_eq shapes fun a mem b mem' same => ?_, locs⟩
  exact (owned a mem).eq_of_number (given b mem') same

theorem Coherent.shape_intern (coherent : pool.Coherent)
    (given : ∀ u ∈ shape.children, pool.Owns u) :
    (intern shape loc pool).1.shape = shape ∧ (intern shape loc pool).1.loc = loc := by
  rcases intern_cases shape loc pool with ⟨t, held, node, found⟩ | ⟨_, answer, _⟩
  · rw [found]
    exact shape_eq_of_node node (coherent t held.owns) given
  · rw [answer]
    exact ⟨rfl, rfl⟩

theorem Coherent.intern (coherent : pool.Coherent) (given : ∀ u ∈ shape.children, pool.Owns u) :
    (Pool.intern shape loc pool).2.Coherent := by
  intro t owned u mem
  refine owns_intern ?_
  rcases owns_intern_iff.mp owned with rfl | owned
  · rw [(coherent.shape_intern given).1] at mem
    exact given u mem
  · exact coherent t owned u mem

theorem Coherent.alloc (coherent : pool.Coherent) (given : ∀ u ∈ shape.children, pool.Owns u) :
    (Pool.alloc shape loc pool).2.Coherent := by
  intro t owned u mem
  refine owns_alloc ?_
  rcases owns_alloc_iff.mp owned with rfl | owned
  · exact given u mem
  · exact coherent t owned u mem

end Pool

end ProblemIntake
