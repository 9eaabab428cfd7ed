import Std.Data.HashMap
import ProblemIntake.Term.Basic

/-! Terms are kept in numbered cells. The pool has an index of cells by node, one layer of a term
over the cells of its subterms together with its place, and hands out the indexed cell whenever
it meets the node again. A term may also be given a cell outside the index. -/

namespace ProblemIntake

/-- The cell of a node, with the node's place in the input. -/
structure Cell where
  number : Nat
  loc : Option Span
  deriving DecidableEq, Repr

/-- A term whose nodes are in cells. Two of them are the same reference if they have the same
number. -/
abbrev Pooled := Term Cell

/-- What the pool tells apart: a shape over cells, and a place. -/
structure Node where
  shape : Shape Nat
  loc : Option Span
  deriving DecidableEq, Hashable, Repr

namespace Term

def number (t : Pooled) : Nat := t.label.number

def loc (t : Pooled) : Option Span := t.label.loc

@[simp, grind =] theorem number_mk (n : Nat) (loc : Option Span) (shape : Shape Pooled) :
    number (mk ⟨n, loc⟩ shape) = n := rfl

@[simp, grind =] theorem loc_mk (n : Nat) (loc : Option Span) (shape : Shape Pooled) :
    Term.loc (mk ⟨n, loc⟩ shape) = loc := rfl

end Term

/-- The node of a shape over terms in cells. -/
def Node.of (shape : Shape Pooled) (loc : Option Span) : Node :=
  ⟨shape.map Term.number, loc⟩

namespace Term

def node (t : Pooled) : Node := .of t.shape t.loc

@[simp, grind =] theorem node_mk (n : Nat) (loc : Option Span) (shape : Shape Pooled) :
    node (mk ⟨n, loc⟩ shape) = .of shape loc := rfl

end Term

namespace Pool

/-- The truth values, found in every pool. -/
def constant (b : Bool) : Pooled :=
  .mk ⟨if b then 0 else 1, none⟩ (.builtin (.ofBool b))

end Pool

/-- All cells ever filled, and the index of those that are shared. -/
structure Pool where
  cells : Array Pooled
  index : Std.HashMap Node Pooled
  number_cells : ∀ (i : Nat) (t : Pooled), cells[i]? = some t → t.number = i
  index_sound : ∀ (n : Node) (t : Pooled),
    index[n]? = some t → t.node = n ∧ cells[t.number]? = some t
  index_constant : ∀ b, index[(Pool.constant b).node]? = some (Pool.constant b)

namespace Pool

/-- The pool that holds the truth values and nothing else. -/
def new : Pool where
  cells := #[constant true, constant false]
  index := (∅ : Std.HashMap Node Pooled)
    |>.insert (constant true).node (constant true)
    |>.insert (constant false).node (constant false)
  number_cells i t held := by
    match i with
    | 0 | 1 => cases held; rfl
    | i + 2 => simp at held
  index_sound n t found := by
    simp only [Std.HashMap.getElem?_insert, Std.HashMap.getElem?_empty] at found
    split at found
    · cases found
      exact ⟨eq_of_beq ‹_›, rfl⟩
    · split at found
      · cases found
        exact ⟨eq_of_beq ‹_›, rfl⟩
      · cases found
  index_constant b := by
    have distinct : (constant false).node ≠ (constant true).node := by decide
    cases b <;> simp only [Std.HashMap.getElem?_insert] <;> simp [distinct]

/-- The number of terms in the index. -/
def size (pool : Pool) : Nat := pool.index.size

theorem getElem?_push_of_some {cells : Array Pooled} {i : Nat} {u : Pooled} (t : Pooled)
    (held : cells[i]? = some u) : (cells.push t)[i]? = some u := by
  obtain ⟨inside, _⟩ := Array.getElem?_eq_some_iff.mp held
  rwa [Array.getElem?_push, if_neg (Nat.ne_of_lt inside)]

/-- The next cell has the next number. -/
theorem number_push {cells : Array Pooled} {t : Pooled} (fresh : t.number = cells.size)
    (numbered : ∀ (i : Nat) (u : Pooled), cells[i]? = some u → u.number = i) (i : Nat) (u : Pooled)
    (held : (cells.push t)[i]? = some u) : u.number = i := by
  rw [Array.getElem?_push] at held
  split at held
  · rename_i last
    rw [← Option.some.inj held, fresh, last]
  · exact numbered i u held

/-- A fresh cell outside the index. -/
def alloc (shape : Shape Pooled) (loc : Option Span) : StateM Pool Pooled := fun pool =>
  let t : Pooled := .mk ⟨pool.cells.size, loc⟩ shape
  (t, {
    cells := pool.cells.push t
    index := pool.index
    number_cells := number_push rfl pool.number_cells
    index_sound n u found := by
      obtain ⟨node, held⟩ := pool.index_sound n u found
      exact ⟨node, getElem?_push_of_some t held⟩
    index_constant := pool.index_constant
  })

/-- The indexed cell of a node, or a fresh one that is put into the index. -/
def intern (shape : Shape Pooled) (loc : Option Span) : StateM Pool Pooled := fun pool =>
  match absent : pool.index[Node.of shape loc]? with
  | some t => (t, pool)
  | none =>
    let t : Pooled := .mk ⟨pool.cells.size, loc⟩ shape
    (t, {
      cells := pool.cells.push t
      index := pool.index.insert (.of shape loc) t
      number_cells := number_push rfl pool.number_cells
      index_sound n u found := by
        rw [Std.HashMap.getElem?_insert] at found
        split at found
        · cases found
          exact ⟨eq_of_beq ‹_›, Array.getElem?_push_size⟩
        · obtain ⟨node, held⟩ := pool.index_sound n u found
          exact ⟨node, getElem?_push_of_some t held⟩
      index_constant b := by
        have held := pool.index_constant b
        rw [Std.HashMap.getElem?_insert, if_neg, held]
        intro same
        rw [eq_of_beq same, held] at absent
        cases absent
    })

theorem intern_of_index {shape : Shape Pooled} {loc : Option Span} {pool : Pool} {t : Pooled}
    (found : pool.index[Node.of shape loc]? = some t) : intern shape loc pool = (t, pool) := by
  unfold intern
  split <;> simp_all

theorem node_intern (shape : Shape Pooled) (loc : Option Span) (pool : Pool) :
    (intern shape loc pool).1.node = .of shape loc := by
  unfold intern
  split
  · exact (pool.index_sound _ _ ‹_›).1
  · rfl

theorem index_intern (shape : Shape Pooled) (loc : Option Span) (pool : Pool) :
    (intern shape loc pool).2.index[Node.of shape loc]? = some (intern shape loc pool).1 := by
  unfold intern
  split
  · assumption
  · simp

/-- A written term, node by node from the leaves up and from left to right. -/
def build : Written → StateM Pool Pooled :=
  Term.fold fun loc shape => do intern (← shape.traverse id) loc

end Pool

end ProblemIntake
