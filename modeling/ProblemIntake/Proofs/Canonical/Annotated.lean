import ProblemIntake.Canonical.Item

namespace ProblemIntake

/-- What follows an action on the pool runs on the pool it left. -/
theorem Pool.run_bind {α β : Type} (x : StateM Pool α) (f : α → StateM Pool β) (pool : Pool) :
    (x >>= f) pool = f (x pool).1 (x pool).2 := rfl

/-- The actions of the steps, in order. -/
def Statement.actions {ρ : Type} (s : Statement ρ) : List (Action ρ) :=
  s.flatten.map Step.action

namespace Statement

variable {ρ : Type}

@[simp] theorem actions_empty : (empty : Statement ρ).actions = [] := rfl

/-- A label does nothing. -/
@[simp] theorem actions_relabel (f : Label ρ → Label ρ) (s : Statement ρ) :
    (s.relabel f).actions = s.actions := by
  cases s with
  | step s => rfl
  | pack items label => simp only [actions, relabel, flatten_pack]

@[simp] theorem actions_located (loc : Option Span) (s : Statement ρ) :
    (s.located loc).actions = s.actions :=
  actions_relabel _ s

@[simp] theorem actions_noted (note : Option ρ) (s : Statement ρ) :
    (s.noted note).actions = s.actions :=
  actions_relabel _ s

theorem actions_attempt (loc : Option Span) (trial kept : Action Pooled) :
    (attempt loc trial kept).actions = [.push 1, trial, .prove [], .pop 1, kept] := rfl

theorem actions_includeFile (path : String) (restrictions : List Pooled) (pool : Pool) :
    (includeFile path restrictions pool).1.actions = [.includeFile path] := by
  cases restrictions with
  | nil => rfl
  | cons r rs => exact actions_noted _ (ofAction (.includeFile path))

end Statement

namespace Item

/-- The roles of formulas that are taken for granted. -/
def assumedRoles : List String := ["axiom", "hypothesis", "definition", "lemma", "theorem"]

/-- The roles of formulas that are proved before they are taken for granted. -/
def provedRoles : List String := ["assumption", "conjecture"]

/-- The role of formulas that are refuted. -/
def refutedRole : String := "negated_conjecture"

/-- The term is the negation of the other one, without a place of its own. -/
def Negates (u t : Pooled) : Prop :=
  u.node = .of (.op .not [t]) none

/-- One of the roles that leave something assumed. -/
def Asserts (role : String) : Prop :=
  role ∈ assumedRoles ∨ role ∈ provedRoles ∨ role = refutedRole

/-- What an annotated item stands for. -/
inductive Expands (item : Item Pooled) : List (Action Pooled) → Prop
  | assumed {t : Pooled} (args : item.args = [t]) (role : item.keyword ∈ assumedRoles) :
      Expands item [.assume t]
  | proved {t : Pooled} (args : item.args = [t]) (role : item.keyword ∈ provedRoles) :
      Expands item [.push 1, .goal t, .prove [], .pop 1, .assume t]
  | refuted {t u : Pooled} (args : item.args = [t]) (role : item.keyword = refutedRole)
      (negates : Negates u t) :
      Expands item [.push 1, .assume t, .prove [], .pop 1, .assume u]
  | nothing (idle : ∀ t, item.args = [t] → ¬ Asserts item.keyword) : Expands item []
  | declared {id : Symbol} {type : Pooled} (idle : ∀ t, item.args = [t] → ¬ Asserts item.keyword) :
      Expands item [.declare id type]
  | included {path : String} (idle : ∀ t, item.args = [t] → ¬ Asserts item.keyword) :
      Expands item [.includeFile path]

theorem mem_assumedRoles_iff {role : Role} :
    spelling role ∈ assumedRoles ↔ role.use = .assume := by
  cases role <;> decide

theorem mem_provedRoles_iff {role : Role} :
    spelling role ∈ provedRoles ↔ role.use = .prove := by
  cases role <;> decide

theorem eq_refutedRole_iff {role : Role} :
    spelling role = refutedRole ↔ role.use = .refute := by
  cases role <;> decide

theorem asserts_spelling_iff {role : Role} :
    Asserts (spelling role) ↔ role.use = .assume ∨ role.use = .prove ∨ role.use = .refute := by
  rw [Asserts, mem_assumedRoles_iff, mem_provedRoles_iff, eq_refutedRole_iff]

/-- A text that is no role leaves nothing assumed. -/
theorem not_asserts_of_read?_eq_none {keyword : String}
    (unknown : (Spelled.read? keyword : Option Role) = none) : ¬ Asserts keyword := by
  have read : ∀ text ∈ assumedRoles ++ provedRoles ++ [refutedRole],
      (Spelled.read? text : Option Role) ≠ none := by decide
  intro asserts
  refine read keyword ?_ unknown
  simpa only [List.mem_append, List.mem_singleton, or_assoc, Asserts] using asserts

end Item

namespace Canonical

/-- What is made of a formula by its role. -/
def answer (item : Item Pooled) (formula : Pooled) :
    StateM Pool (Except Warning (Statement Pooled)) :=
  match Spelled.read? item.keyword with
  | some (role : Role) => Statement.ofFormula item.loc formula role.use
  | none => pure (.error (.unknownRole item.keyword))

/-- Whatever the answer, it bears the label. -/
def labelled (label : Label Pooled) : Except Warning (Statement Pooled) → Canonical
  | .ok s => ⟨s.relabel fun _ => label, none⟩
  | .error w => ⟨Statement.empty.relabel fun _ => label, some w⟩

theorem ofFormula_eq (item : Item Pooled) (formula : Pooled) (pool : Pool) :
    ofFormula item formula pool =
      let noted := provenance item pool
      let answered := answer item formula noted.2
      let label := ⟨(item.name.bind Term.symbol?).map Symbol.name, some noted.1, item.loc⟩
      (labelled label answered.1, answered.2) := by
  simp only [ofFormula, answer, Pool.run_bind]
  cases (Spelled.read? item.keyword : Option Role) with
  | none => rfl
  | some role =>
    simp only [Pool.run_bind]
    cases (Statement.ofFormula item.loc formula role.use (provenance item pool).2).1 <;> rfl

/-- A file to include is read first, and a formula has to stand alone. -/
theorem ofAnnotated_eq (item : Item Pooled) :
    ofAnnotated item =
      match item.args with
      | [] => return settle item.loc (.error (.wrongArguments item.keyword))
      | t :: ts =>
        if item.keyword = "include" then
          match t.literal? .string with
          | some path => do return settle item.loc (.ok (← Statement.includeFile path ts))
          | none => return settle item.loc (.error (.wrongArguments item.keyword))
        else if ts = [] then ofFormula item t
        else return settle item.loc (.error (.wrongArguments item.keyword)) := by
  unfold ofAnnotated
  split
  · rename_i path restrictions keyword args
    rw [args, keyword]
    rfl
  · rename_i formula args other
    rw [args]
    dsimp only
    rw [if_neg other, if_pos rfl]
  · rename_i several other
    cases args : item.args with
    | nil => rfl
    | cons t ts =>
      have formula : item.keyword ≠ "include" := fun keyword => other t ts keyword args
      have more : ts ≠ [] := fun none => several t (none ▸ args)
      dsimp only
      rw [if_neg formula, if_neg more]

/-- An input is refused, includes a file, or is a formula. A file that is included is refused if it
is not named by a string, and a formula if it does not stand alone. -/
theorem ofAnnotated_cases (item : Item Pooled) (pool : Pool) :
    (∃ warning, (item.keyword = "include" ∨ ∀ t, item.args ≠ [t]) ∧
      ofAnnotated item pool = (settle item.loc (.error warning), pool)) ∨
    (∃ path file restrictions, item.keyword = "include" ∧ item.args = path :: restrictions ∧
      let included := Statement.includeFile file restrictions pool
      ofAnnotated item pool = (settle item.loc (.ok included.1), included.2)) ∨
    ∃ formula, item.args = [formula] ∧ ofAnnotated item pool = ofFormula item formula pool := by
  rw [ofAnnotated_eq]
  cases args : item.args with
  | nil => exact .inl ⟨_, .inr nofun, rfl⟩
  | cons t ts =>
    by_cases keyword : item.keyword = "include"
    · dsimp only
      rw [if_pos keyword]
      cases t.literal? .string with
      | none => exact .inl ⟨_, .inl keyword, rfl⟩
      | some file => exact .inr (.inl ⟨t, file, ts, keyword, rfl, rfl⟩)
    · dsimp only
      rw [if_neg keyword]
      by_cases alone : ts = []
      · rw [if_pos alone]
        exact .inr (.inr ⟨t, by rw [alone], rfl⟩)
      · rw [if_neg alone]
        exact .inl ⟨_, .inr fun u same => alone (List.cons.inj same).2, rfl⟩

theorem actions_labelled (label : Label Pooled) (answer : Except Warning (Statement Pooled)) :
    (labelled label answer).statement.actions =
      match answer with
      | .ok s => s.actions
      | .error _ => [] := by
  cases answer with
  | ok s => simp only [labelled, Statement.actions_relabel]
  | error w => simp only [labelled, Statement.actions_relabel, Statement.actions_empty]

end Canonical

namespace Item

theorem expands_ofFormula {item : Item Pooled} {formula : Pooled} (args : item.args = [formula])
    (pool : Pool) : item.Expands (Canonical.ofFormula item formula pool).1.statement.actions := by
  rw [Canonical.ofFormula_eq]
  dsimp only
  rw [Canonical.actions_labelled, Canonical.answer]
  cases known : (Spelled.read? item.keyword : Option Role) with
  | none => exact .nothing fun _ _ => not_asserts_of_read?_eq_none known
  | some role =>
    have spelled : spelling role = item.keyword := Spelled.read?_eq_some_iff.mp known
    dsimp only
    cases use : role.use with
    | assume => exact .assumed args (spelled ▸ mem_assumedRoles_iff.mpr use)
    | prove =>
      change item.Expands (Statement.attempt item.loc _ _).actions
      rw [Statement.actions_attempt]
      exact .proved args (spelled ▸ mem_provedRoles_iff.mpr use)
    | refute =>
      change item.Expands (Statement.attempt item.loc _ _).actions
      rw [Statement.actions_attempt]
      exact .refuted args (spelled ▸ eq_refutedRole_iff.mpr use) (Pool.node_intern _ _ _)
    | declare =>
      have idle : ¬ Asserts item.keyword := by simp [← spelled, asserts_spelling_iff, use]
      unfold Statement.ofFormula
      cases formula.declaration? with
      | none => exact .nothing fun _ _ => idle
      | some declaration => exact .declared fun _ _ => idle
    | ignore =>
      have idle : ¬ Asserts item.keyword := by simp [← spelled, asserts_spelling_iff, use]
      exact .nothing fun _ _ => idle

/-- What a TPTP input stands for. -/
theorem expands_canonical (item : Item Pooled) (pool : Pool) :
    item.Expands (item.canonical .tptp pool).1.statement.actions := by
  have noRole : ¬ Asserts "include" := not_asserts_of_read?_eq_none (by decide)
  change item.Expands (Canonical.ofAnnotated item pool).1.statement.actions
  rcases Canonical.ofAnnotated_cases item pool with
    ⟨warning, reason, refused⟩ | ⟨path, file, restrictions, keyword, args, included⟩ |
    ⟨formula, args, formed⟩
  · rw [refused]
    refine .nothing fun t args => ?_
    rcases reason with keyword | several
    · rwa [keyword]
    · exact absurd args (several t)
  · have settled := Statement.actions_located item.loc
      (Statement.includeFile file restrictions pool).1
    rw [Statement.actions_includeFile] at settled
    rw [included]
    exact settled ▸ .included fun _ _ => by rwa [keyword]
  · rw [formed]
    exact expands_ofFormula args pool

end Item

end ProblemIntake
