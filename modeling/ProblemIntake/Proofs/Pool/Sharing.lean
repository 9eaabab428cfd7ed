import ProblemIntake.Proofs.Pool.Building

/-!
# Maximal sharing

A pool is driven by calls: additions, which are shared, and allocations, which are not. Whatever
the calls were, equal additions have one cell, and terms built from additions alone have one cell
exactly if they are the same tree, so references can be compared in place of terms.
-/

namespace ProblemIntake

namespace Pool

/-- What is asked of a pool: a term, shared or in a cell of its own. -/
structure Call where
  shared : Bool
  shape : Shape Pooled
  loc : Option Span

namespace Call

def run (c : Call) : StateM Pool Pooled :=
  if c.shared then intern c.shape c.loc else alloc c.shape c.loc

/-- The term asked for, its subterms by reference. -/
def node (c : Call) : Node := .of c.shape c.loc

variable {c : Call} {pool : Pool} {t : Pooled}

theorem run_of_shared (shared : c.shared = true) : c.run = intern c.shape c.loc := if_pos shared

theorem run_of_unshared (unshared : ¬ c.shared = true) : c.run = alloc c.shape c.loc :=
  if_neg unshared

theorem owns_run_iff : (c.run pool).2.Owns t ↔ t = (c.run pool).1 ∨ pool.Owns t := by
  by_cases shared : c.shared = true
  · rw [run_of_shared shared]
    exact owns_intern_iff
  · rw [run_of_unshared shared]
    exact owns_alloc_iff

theorem holds_run (held : pool.Holds t) : (c.run pool).2.Holds t := by
  by_cases shared : c.shared = true
  · rw [run_of_shared shared]
    exact holds_intern_iff.mpr (.inr held)
  · rw [run_of_unshared shared]
    exact holds_alloc_iff.mpr held

theorem coherent_run (coherent : pool.Coherent) (given : ∀ u ∈ c.shape.children, pool.Owns u) :
    (c.run pool).2.Coherent := by
  by_cases shared : c.shared = true
  · rw [run_of_shared shared]
    exact coherent.intern given
  · rw [run_of_unshared shared]
    exact coherent.alloc given

theorem shape_run (coherent : pool.Coherent) (given : ∀ u ∈ c.shape.children, pool.Owns u) :
    (c.run pool).1.shape = c.shape ∧ (c.run pool).1.loc = c.loc := by
  by_cases shared : c.shared = true
  · rw [run_of_shared shared]
    exact coherent.shape_intern given
  · rw [run_of_unshared shared]
    exact ⟨rfl, rfl⟩

end Call

/-- The references at hand after calls: the truth values and the answers. -/
def Known (past : List (Call × Pooled)) (t : Pooled) : Prop :=
  (∃ b, t = constant b) ∨ ∃ c, (c, t) ∈ past

/-- Calls with their answers, the latest first, and the pool they made of a new one. -/
inductive Made : List (Call × Pooled) → Pool → Prop
  | new : Made [] Pool.new
  | call {past : List (Call × Pooled)} {pool : Pool} (made : Made past pool) (c : Call)
      (known : ∀ u ∈ c.shape.children, Known past u) :
      Made ((c, (c.run pool).1) :: past) (c.run pool).2

variable {past : List (Call × Pooled)} {pool : Pool} {t : Pooled} {c : Call}

/-- What is true of a pool with a past. -/
structure Sound (past : List (Call × Pooled)) (pool : Pool) : Prop where
  coherent : pool.Coherent
  owns : ∀ c t, (c, t) ∈ past → pool.Owns t
  shape : ∀ c t, (c, t) ∈ past → t.shape = c.shape ∧ t.loc = c.loc
  holds : ∀ c t, (c, t) ∈ past → c.shared = true → pool.Holds t

theorem Sound.owns_known (sound : Sound past pool) (known : Known past t) : pool.Owns t := by
  rcases known with ⟨b, rfl⟩ | ⟨c, mem⟩
  · exact (holds_constant pool b).owns
  · exact sound.owns c t mem

theorem Sound.node_eq (sound : Sound past pool) (mem : (c, t) ∈ past) : t.node = c.node := by
  obtain ⟨shape, loc⟩ := sound.shape c t mem
  rw [Term.node, Call.node, shape, loc]

theorem Sound.call (sound : Sound past pool) (c : Call)
    (known : ∀ u ∈ c.shape.children, Known past u) :
    Sound ((c, (c.run pool).1) :: past) (c.run pool).2 := by
  have given : ∀ u ∈ c.shape.children, pool.Owns u := fun u mem => sound.owns_known (known u mem)
  refine ⟨Call.coherent_run sound.coherent given, ?_, ?_, ?_⟩
  · intro d t mem
    refine Call.owns_run_iff.mpr ?_
    rcases List.mem_cons.mp mem with same | mem
    · exact .inl (congrArg Prod.snd same)
    · exact .inr (sound.owns d t mem)
  · intro d t mem
    rcases List.mem_cons.mp mem with same | mem
    · obtain ⟨rfl, rfl⟩ := Prod.mk.inj same
      exact Call.shape_run sound.coherent given
    · exact sound.shape d t mem
  · intro d t mem shared
    rcases List.mem_cons.mp mem with same | mem
    · obtain ⟨rfl, rfl⟩ := Prod.mk.inj same
      rw [Call.run_of_shared shared]
      exact holds_intern _ _ pool
    · exact Call.holds_run (sound.holds d t mem shared)

/-- A history of calls owns its answers, and shares those of its additions. -/
theorem Made.sound (made : Made past pool) : Sound past pool := by
  induction made with
  | new => exact ⟨coherent_new, nofun, nofun, nofun⟩
  | call _ c known ih => exact ih.call c known

/-- The term is a truth value, or the answer to an addition whose subterms were built so. -/
inductive BottomUp (past : List (Call × Pooled)) : Pooled → Prop
  | truth (b : Bool) : BottomUp past (constant b)
  | add {c : Call} {t : Pooled} (mem : (c, t) ∈ past) (shared : c.shared = true)
      (children : ∀ u ∈ c.shape.children, BottomUp past u) : BottomUp past t

theorem BottomUp.known (built : BottomUp past t) : Known past t := by
  cases built with
  | truth b => exact .inl ⟨b, rfl⟩
  | add mem => exact .inr ⟨_, mem⟩

theorem Sound.deep (sound : Sound past pool) (built : BottomUp past t) : pool.Deep t := by
  induction built with
  | truth b => exact .node (holds_constant pool b) nofun
  | @add c t mem shared _ ih =>
    refine .node (sound.holds c t mem shared) fun u child => ?_
    rw [(sound.shape c t mem).1] at child
    exact ih u child

/-- Additions alone share the trees of their answers and no other tree. -/
theorem Made.trees_eq (made : Made past pool) (shared : ∀ c t, (c, t) ∈ past → c.shared = true) :
    pool.Closed ∧ pool.trees = truths ∪ parts (past.map fun (_, t) => t.written) := by
  induction made with
  | new =>
    rw [trees_new, List.map_nil, parts_nil, Set.union_empty]
    exact ⟨closed_new, rfl⟩
  | @call past pool made c known ih =>
    obtain ⟨closed, trees⟩ := ih fun d t mem => shared d t (List.mem_cons_of_mem _ mem)
    have given : ∀ u ∈ c.shape.children, pool.Holds u := by
      intro u mem
      rcases known u mem with ⟨b, rfl⟩ | ⟨d, answered⟩
      · exact holds_constant pool b
      · exact made.sound.holds d u answered (shared d u (List.mem_cons_of_mem _ answered))
    rw [Call.run_of_shared (shared c _ List.mem_cons_self)]
    refine ⟨closed.intern given, ?_⟩
    rw [closed.trees_intern given, trees, List.map_cons, parts_cons _ (past.map _),
      Set.union_assoc, Set.union_comm (parts _)]

/-- What calls can rely on. -/
structure Sharing (past : List (Call × Pooled)) (pool : Pool) : Prop where
  /-- The answer is the term asked for. -/
  faithful : ∀ c t, (c, t) ∈ past → t.shape = c.shape ∧ t.loc = c.loc
  /-- It stays what it is, whatever was asked for since. -/
  lasting : ∀ c t, (c, t) ∈ past → pool.Owns t
  /-- Two additions have one cell exactly if they ask for the same shape in the same place, over
  the same references. -/
  shared : ∀ c t d u, (c, t) ∈ past → (d, u) ∈ past → c.shared = true → d.shared = true →
    (t.number = u.number ↔ c.node = d.node)
  /-- Terms built from the pool alone have one cell exactly if they are the same tree, with the
  same places. -/
  deep : ∀ t u, BottomUp past t → BottomUp past u → (t.number = u.number ↔ t.written = u.written)
  /-- If nothing was allocated outside, the pool has the truth values and what else was built. -/
  size : (∀ c t, (c, t) ∈ past → c.shared = true) →
    pool.size = 2 + (parts (past.map fun (_, t) => t.written) \ truths).ncard

theorem Made.sharing (made : Made past pool) : Sharing past pool := by
  have sound := made.sound
  refine ⟨sound.shape, sound.owns, ?_, ?_, ?_⟩
  · intro c t d u first second shared shared'
    rw [← sound.node_eq first, ← sound.node_eq second]
    constructor
    · intro same
      rw [(sound.owns c t first).eq_of_number (sound.owns d u second) same]
    · intro same
      exact congrArg _ ((sound.holds c t first shared).eq_of_node
        (sound.holds d u second shared') same)
  · intro t u built built'
    constructor
    · intro same
      rw [(sound.owns_known built.known).eq_of_number (sound.owns_known built'.known) same]
    · intro same
      exact congrArg _ ((sound.deep built).eq_of_written (sound.deep built') same)
  · intro shared
    obtain ⟨closed, trees⟩ := made.trees_eq shared
    exact closed.size_eq trees

/-- **Maximal sharing.** After any calls on a new pool, references can be compared in place of
terms. The truth values are what adding them answers, in every pool. Building terms in a new pool
answers those very trees, and leaves the two truth values and one term for each other part. -/
theorem maximal_sharing :
    (∀ past pool, Made past pool → Sharing past pool) ∧
    (∀ b pool, intern (.builtin (.ofBool b)) none pool = (constant b, pool)) ∧
    ∀ ws : List Written,
      let built := ws.mapM build new
      built.1.map Term.written = ws ∧ built.2.size = 2 + (parts ws \ truths).ncard := by
  refine ⟨fun past pool made => made.sharing, ?_, ?_⟩
  · intro b pool
    exact intern_of_index (pool.index_constant b)
  · intro ws built
    have all := built_mapM_build ws closed_new
    exact ⟨all.written, all.closed.size_eq (trees_new ▸ all.trees)⟩

/-- A symbol allocated twice outside the pool is two references. Their negations are shared, and
told apart. -/
theorem negations_of_unshared_symbols :
    let symbol : Call := ⟨false, .symbol (.term "p"), none⟩
    let p := symbol.run new
    let q := symbol.run p.2
    let first : Call := ⟨true, .op .not [p.1], none⟩
    let second : Call := ⟨true, .op .not [q.1], none⟩
    let a := first.run q.2
    let b := second.run a.2
    let c := first.run b.2
    Made [(first, c.1), (second, b.1), (first, a.1), (symbol, q.1), (symbol, p.1)] c.2 ∧
      a.1.number = c.1.number ∧ a.1.number ≠ b.1.number := by
  intro symbol p q first second a b c
  have atP : Made [(symbol, p.1)] p.2 := .call .new symbol nofun
  have atQ : Made [(symbol, q.1), (symbol, p.1)] q.2 := .call atP symbol nofun
  have atA : Made [(first, a.1), (symbol, q.1), (symbol, p.1)] a.2 := by
    refine .call atQ first fun u mem => .inr ⟨symbol, ?_⟩
    exact List.mem_singleton.mp mem ▸ .tail _ (.head _)
  have atB : Made [(second, b.1), (first, a.1), (symbol, q.1), (symbol, p.1)] b.2 := by
    refine .call atA second fun u mem => .inr ⟨symbol, ?_⟩
    exact List.mem_singleton.mp mem ▸ .tail _ (.head _)
  have atC :
      Made [(first, c.1), (second, b.1), (first, a.1), (symbol, q.1), (symbol, p.1)] c.2 := by
    refine .call atB first fun u mem => .inr ⟨symbol, ?_⟩
    exact List.mem_singleton.mp mem ▸ .tail _ (.tail _ (.tail _ (.head _)))
  have sharing := maximal_sharing.1 _ _ atC
  refine ⟨atC, ?_, ?_⟩
  · exact (sharing.shared first a.1 first c.1 (.tail _ (.tail _ (.head _))) (.head _)
      rfl rfl).mpr rfl
  · have distinct : first.node ≠ second.node := by decide
    exact mt (sharing.shared first a.1 second b.1 (.tail _ (.tail _ (.head _))) (.tail _ (.head _))
      rfl rfl).mp distinct

end Pool

end ProblemIntake
