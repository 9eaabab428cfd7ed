import Mathlib.Data.List.Forall2
import ProblemIntake.Canonical.Command
import ProblemIntake.Proofs.Statement.Terms
import ProblemIntake.Proofs.Term.Views

namespace ProblemIntake

namespace Term

variable {ℓ : Type} {t u : Term ℓ}

theorem partOf_of_mem_children (child : u ∈ t.shape.children) : u.PartOf t := by
  cases t with
  | mk label s => exact .child child .self

theorem partOf_of_declaration? {id : Symbol} (declared : t.declaration? = some (id, u)) :
    u.PartOf t := by
  obtain ⟨⟨term, type⟩, typed, named⟩ := Option.bind_eq_some_iff.mp declared
  obtain ⟨s, _, same⟩ := Option.map_eq_some_iff.mp named
  cases same
  refine partOf_of_mem_children ?_
  rw [typed?_eq_some_iff.mp typed]
  exact List.mem_cons_of_mem term (List.mem_singleton_self _)

theorem partOf_of_constructor? {c : Symbol × List (Term ℓ)} (read : t.constructor? = some c)
    (field : u ∈ c.2) : u.PartOf t := by
  unfold constructor? at read
  split at read
  · cases read
    cases field
  · rename_i head fields shape
    obtain ⟨s, _, rfl⟩ := Option.map_eq_some_iff.mp read
    refine partOf_of_mem_children ?_
    rw [shape]
    exact List.mem_cons_of_mem head field
  · cases read

/-- Constructors in a row are read one by one. -/
theorem forall₂_of_mapM_constructor? {ts : List (Term ℓ)} {cs : List (Symbol × List (Term ℓ))}
    (read : ts.mapM constructor? = some cs) :
    List.Forall₂ (fun t c => t.constructor? = some c) ts cs := by
  induction ts generalizing cs with
  | nil =>
    cases read
    exact .nil
  | cons t ts ih =>
    rw [List.mapM_cons] at read
    obtain ⟨first, head, read⟩ := Option.bind_eq_some_iff.mp read
    obtain ⟨rest, tail, same⟩ := Option.bind_eq_some_iff.mp read
    cases same
    exact .cons head (ih tail)

theorem exists_of_mapM_constructor? {ts : List (Term ℓ)} {cs : List (Symbol × List (Term ℓ))}
    (read : ts.mapM constructor? = some cs) {c : Symbol × List (Term ℓ)} (mem : c ∈ cs) :
    ∃ t ∈ ts, t.constructor? = some c := by
  replace read := forall₂_of_mapM_constructor? read
  induction read with
  | nil => cases mem
  | cons head _ ih =>
    rcases List.mem_cons.mp mem with rfl | mem
    · exact ⟨_, List.mem_cons_self, head⟩
    · obtain ⟨u, later, read⟩ := ih mem
      exact ⟨u, List.mem_cons_of_mem _ later, read⟩

end Term

/-- A datatype refers to parts of the arguments it was read from. -/
theorem Datatype.partOf_of_mem_terms {loc : Option Span} {args : List Pooled} {d : Datatype Pooled}
    (read : Datatype.ofArguments? loc args = some d) {t : Pooled}
    (mem : t ∈ (Action.datatype d).terms) : ∃ u ∈ args, t.PartOf u := by
  cases args with
  | nil => cases read
  | cons name constructors =>
    obtain ⟨s, _, read⟩ := Option.bind_eq_some_iff.mp read
    obtain ⟨cs, made, same⟩ := Option.bind_eq_some_iff.mp read
    cases same
    obtain ⟨c, inside, field⟩ := List.mem_flatMap.mp mem
    obtain ⟨u, later, constructor⟩ := Term.exists_of_mapM_constructor? made inside
    exact ⟨u, List.mem_cons_of_mem name later, Term.partOf_of_constructor? constructor field⟩

/-- An action refers to parts of the arguments of its command. -/
theorem Command.partOf_of_mem_terms {command : Command} {loc : Option Span} {args : List Pooled}
    {a : Action Pooled} (read : command.action? loc args = some a) {t : Pooled}
    (mem : t ∈ a.terms) : ∃ u ∈ args, t.PartOf u := by
  have whole {ts : List Pooled} (mem : t ∈ ts) : ∃ u ∈ ts, t.PartOf u := ⟨t, mem, .self⟩
  have silent {α : Type} {o : Option α} {f : α → Action Pooled}
      (termless : ∀ x, (f x).terms = []) (read : o.map f = some a) : ∃ u ∈ args, t.PartOf u := by
    obtain ⟨x, _, rfl⟩ := Option.map_eq_some_iff.mp read
    rw [termless] at mem
    cases mem
  have declared {d : Pooled}
      (read : (d.declaration?.map fun found => Action.declare found.1 found.2) = some a) :
      ∃ u ∈ [d], t.PartOf u := by
    obtain ⟨⟨id, type⟩, found, rfl⟩ := Option.map_eq_some_iff.mp read
    rw [List.mem_singleton.mp mem]
    exact ⟨d, List.mem_singleton_self d, Term.partOf_of_declaration? found⟩
  have metadata {c : Bool} {info : Pooled} {f : Pooled → Action Pooled}
      (terms : (f info).terms = [info]) (read : (if c then some (f info) else none) = some a) :
      ∃ u ∈ [info], t.PartOf u := by
    split at read
    · cases read
      exact whole (terms ▸ mem)
    · cases read
  have defined {f body : Pooled} (read : f.symbol?.map (Action.define · body) = some a) :
      ∃ u ∈ [f, body], t.PartOf u := by
    obtain ⟨id, _, rfl⟩ := Option.map_eq_some_iff.mp read
    exact whole (List.mem_cons_of_mem f mem)
  have data (read : (Datatype.ofArguments? loc args).map .datatype = some a) :
      ∃ u ∈ args, t.PartOf u := by
    obtain ⟨d, made, rfl⟩ := Option.map_eq_some_iff.mp read
    exact Datatype.partOf_of_mem_terms made mem
  unfold Command.action? at read
  -- One case for each row of the table, in its order.
  split at read
  case h_1 | h_3 | h_20 =>
    cases read
    exact whole mem
  case h_5 | h_7 | h_8 | h_10 | h_12 | h_24 => exact silent (fun _ => rfl) read
  case h_9 | h_11 => exact metadata rfl read
  case h_13 | h_14 | h_15 => exact declared read
  case h_16 => exact defined read
  case h_17 => exact data read
  case h_2 | h_4 | h_6 | h_18 | h_19 | h_21 | h_22 | h_23 | h_25 | h_26 | h_27 =>
    cases read
    cases mem
  case h_28 => cases read

end ProblemIntake
