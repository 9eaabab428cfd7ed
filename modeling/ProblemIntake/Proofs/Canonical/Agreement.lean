import ProblemIntake.Proofs.Canonical.Annotated

/-!
# One construct in many languages

Declarations, assumptions, definitions, datatypes, solve requests and inclusions can be written in
more than one language. What an item does is told from its construct and its arguments alone, so
however it is spelled, it asks for the same, and refuses the same arguments.
-/

namespace ProblemIntake

/-- The statement without a label of its own. -/
def Statement.unlabelled {ρ : Type} (s : Statement ρ) : Statement ρ :=
  s.relabel fun _ => {}

@[simp] theorem Statement.unlabelled_relabel {ρ : Type} (f : Label ρ → Label ρ)
    (s : Statement ρ) : (s.relabel f).unlabelled = s.unlabelled := by
  cases s <;> rfl

/-- Statements of single actions, made of one thing that is read or not. -/
theorem Statement.map_unlabelled {α ρ : Type} (read? : Option α) {s : α → Statement ρ}
    {a : α → Action ρ} (alone : ∀ x, (s x).unlabelled = ofAction (a x)) :
    (read?.map s).map unlabelled = (read?.map a).map ofAction := by
  rw [Option.map_map, Option.map_map]
  exact Option.map_congr fun x _ => alone x

/-- What can be said in more than one language. -/
inductive Construct where
  | declaration
  | assumption
  | definition
  | datatype
  | request
  | inclusion
  deriving DecidableEq, Repr

namespace Construct

/-- What the construct is called in a language. A language without it has no keyword for it. -/
def keywords : Construct → Language → List String
  | .declaration, .smtlib => ["declare-fun", "declare-const", "declare-sort"]
  | .declaration, .zf => ["decl"]
  | .declaration, .tptp => ["type"]
  | .assumption, .smtlib => ["assert"]
  | .assumption, .zf => ["assert", "rewrite"]
  | .assumption, .tptp => Item.assumedRoles
  | .definition, .smtlib => ["define-fun"]
  | .definition, .zf => ["def"]
  | .datatype, .smtlib => ["declare-datatype"]
  | .datatype, .zf => ["data"]
  | .request, .smtlib => ["check-sat-assuming"]
  | .request, .icnf => ["a"]
  | .inclusion, .tptp => ["include"]
  | .inclusion, .zf => ["include"]
  | _, _ => []

/-- What the construct asks for, if it takes these arguments. -/
def action? (loc : Option Span) : Construct → List Pooled → Option (Action Pooled)
  | .declaration, [t] => t.declaration?.map fun (id, type) => .declare id type
  | .assumption, [t] => some (.assume t)
  | .definition, [f, body] => f.symbol?.map (.define · body)
  | .datatype, args => (Datatype.ofArguments? loc args).map .datatype
  | .request, args => some (.prove args)
  | .inclusion, [path] => (path.literal? .string).map .includeFile
  | _, _ => none

/-! ## The keywords in each language -/

variable {c : Construct} {keyword : String}

/-- A keyword of SMT-LIB is a command that does what the construct asks for. -/
theorem command_of_mem (mem : keyword ∈ c.keywords .smtlib) :
    ∃ command : Command, spelling command = keyword ∧
      ∀ loc (args : List Pooled), command.action? loc args = c.action? loc args := by
  cases c with
  | declaration =>
    simp only [keywords, List.mem_cons, List.not_mem_nil, or_false] at mem
    rcases mem with rfl | rfl | rfl
    · exact ⟨.declareFun, rfl, fun _ args => match args with | [] | [_] | _ :: _ :: _ => rfl⟩
    · exact ⟨.declareConst, rfl, fun _ args => match args with | [] | [_] | _ :: _ :: _ => rfl⟩
    · exact ⟨.declareSort, rfl, fun _ args => match args with | [] | [_] | _ :: _ :: _ => rfl⟩
  | assumption =>
    refine ⟨.assert, (List.mem_singleton.mp mem).symm, fun _ args => ?_⟩
    match args with
    | [] | [_] | _ :: _ :: _ => rfl
  | definition =>
    refine ⟨.defineFun, (List.mem_singleton.mp mem).symm, fun _ args => ?_⟩
    match args with
    | [] | [_] | [_, _] | _ :: _ :: _ :: _ => rfl
  | datatype => exact ⟨.declareDatatype, (List.mem_singleton.mp mem).symm, fun _ _ => rfl⟩
  | request => exact ⟨.checkSatAssuming, (List.mem_singleton.mp mem).symm, fun _ _ => rfl⟩
  | inclusion => cases mem

/-- A keyword of Zf is a directive that does what the construct asks for. -/
theorem directive_of_mem (mem : keyword ∈ c.keywords .zf) :
    ∃ directive : Directive, spelling directive = keyword ∧
      ∀ loc args pool, (directive.statement? loc args pool).1.map Statement.unlabelled =
        (c.action? loc args).map Statement.ofAction := by
  cases c with
  | declaration =>
    refine ⟨.declare, (List.mem_singleton.mp mem).symm, fun loc args pool => ?_⟩
    match args with
    | [] | _ :: _ :: _ => rfl
    | [t] => exact Statement.map_unlabelled t.declaration? fun _ => rfl
  | assumption =>
    simp only [keywords, List.mem_cons, List.not_mem_nil, or_false] at mem
    rcases mem with rfl | rfl
    · exact ⟨.assert, rfl, fun _ args _ => match args with | [] | [_] | _ :: _ :: _ => rfl⟩
    · exact ⟨.rule, rfl, fun _ args _ => match args with | [] | [_] | _ :: _ :: _ => rfl⟩
  | definition =>
    refine ⟨.define, (List.mem_singleton.mp mem).symm, fun loc args pool => ?_⟩
    match args with
    | [] | [_] | _ :: _ :: _ :: _ => rfl
    | [f, body] => exact Statement.map_unlabelled f.symbol? fun _ => rfl
  | datatype =>
    refine ⟨.data, (List.mem_singleton.mp mem).symm, fun loc args _ => ?_⟩
    exact Statement.map_unlabelled (Datatype.ofArguments? loc args) fun _ => rfl
  | request => cases mem
  | inclusion =>
    refine ⟨.includeFile, (List.mem_singleton.mp mem).symm, fun loc args pool => ?_⟩
    match args with
    | [] | _ :: _ :: _ => rfl
    | [path] =>
      change ((Directive.includeFile.statement? loc [path] pool).1).map _ =
        ((path.literal? .string).map _).map _
      unfold Directive.statement?
      dsimp only
      cases path.literal? .string <;> rfl

/-- A keyword of TPTP includes a file, or is the role of an assumption or a declaration. -/
theorem role_of_mem (mem : keyword ∈ c.keywords .tptp) :
    (c = .inclusion ∧ keyword = "include") ∨
    ∃ role : Role, spelling role = keyword ∧
      ((c = .assumption ∧ role.use = .assume) ∨ (c = .declaration ∧ role.use = .declare)) := by
  cases c with
  | declaration => exact .inr ⟨.type, (List.mem_singleton.mp mem).symm, .inr ⟨rfl, rfl⟩⟩
  | assumption =>
    have read : ∀ text ∈ Item.assumedRoles, (Spelled.read? text : Option Role).isSome := by decide
    obtain ⟨role, known⟩ := Option.isSome_iff_exists.mp (read keyword mem)
    have spelled : spelling role = keyword := Spelled.read?_eq_some_iff.mp known
    exact .inr ⟨role, spelled, .inl ⟨rfl, Item.mem_assumedRoles_iff.mp (spelled ▸ mem)⟩⟩
  | definition | datatype | request => cases mem
  | inclusion => exact .inl ⟨rfl, List.mem_singleton.mp mem⟩

end Construct

namespace Canonical

/-- The canonical form stands for the action alone, or for nothing if it was refused. -/
structure Does (form : Canonical) (action? : Option (Action Pooled)) : Prop where
  unlabelled : form.statement.unlabelled = action?.elim .empty .ofAction
  warning : form.warning.isSome = action?.isNone

variable {s : Statement Pooled} {a : Action Pooled} {a? : Option (Action Pooled)}

theorem does_some (f : Label Pooled → Label Pooled) (same : s.unlabelled = .ofAction a) :
    Does ⟨s.relabel f, none⟩ (some a) :=
  ⟨(Statement.unlabelled_relabel f s).trans same, rfl⟩

theorem does_none (f : Label Pooled → Label Pooled) (w : Warning) :
    Does ⟨Statement.empty.relabel f, some w⟩ none :=
  ⟨rfl, rfl⟩

theorem does_labelled (label : Label Pooled) {answer : Except Warning (Statement Pooled)}
    (made : answer.toOption.map Statement.unlabelled = a?.map Statement.ofAction) :
    (labelled label answer).Does a? := by
  cases answer with
  | ok s =>
    obtain ⟨a, rfl, same⟩ := Option.map_eq_some_iff.mp made.symm
    exact does_some _ same.symm
  | error w =>
    obtain rfl := Option.map_eq_none_iff.mp made.symm
    exact does_none _ w

theorem does_ofKeyword {κ : Type} [Spelled κ] {item : Item Pooled} {keyword : κ}
    (spelled : spelling keyword = item.keyword)
    {statement? : κ → StateM Pool (Option (Statement Pooled))} {pool : Pool}
    (made : (statement? keyword pool).1.map Statement.unlabelled = a?.map Statement.ofAction) :
    (ofKeyword item statement? pool).1.Does a? := by
  unfold ofKeyword
  rw [Spelled.read?_eq_some_iff.mpr spelled]
  dsimp only
  rw [Pool.run_bind]
  cases answer : (statement? keyword pool).1 with
  | none =>
    rw [answer] at made
    obtain rfl := Option.map_eq_none_iff.mp made.symm
    exact does_none _ _
  | some s =>
    rw [answer] at made
    obtain ⟨a, rfl, same⟩ := Option.map_eq_some_iff.mp made.symm
    exact does_some _ same.symm

/-- A formula to be assumed or declared. -/
theorem does_answer {c : Construct} {item : Item Pooled} {role : Role}
    (spelled : spelling role = item.keyword)
    (use : (c = .assumption ∧ role.use = .assume) ∨ (c = .declaration ∧ role.use = .declare))
    (t : Pooled) (pool : Pool) :
    (Canonical.answer item t pool).1.toOption.map Statement.unlabelled =
      (c.action? item.loc [t]).map Statement.ofAction := by
  unfold Canonical.answer
  rw [Spelled.read?_eq_some_iff.mpr spelled]
  dsimp only
  rcases use with ⟨rfl, use⟩ | ⟨rfl, use⟩
  · rw [use]
    rfl
  · rw [use]
    change _ = (t.declaration?.map _).map _
    unfold Statement.ofFormula
    cases t.declaration? <;> rfl

end Canonical

namespace Item

variable {c : Construct} {item : Item Pooled}

theorem does_ofAnnotated (mem : item.keyword ∈ c.keywords .tptp)
    (plain : c = .inclusion → item.args.length ≤ 1) (pool : Pool) :
    (Canonical.ofAnnotated item pool).1.Does (c.action? item.loc item.args) := by
  rw [Canonical.ofAnnotated_eq]
  rcases Construct.role_of_mem mem with ⟨rfl, keyword⟩ | ⟨role, spelled, use⟩
  · have few := plain rfl
    match args : item.args with
    | [] => exact Canonical.does_none _ _
    | [path] =>
      dsimp only
      rw [if_pos keyword]
      change Canonical.Does _ ((path.literal? .string).map _)
      cases path.literal? .string with
      | none => exact Canonical.does_none _ _
      | some file => exact Canonical.does_some _ rfl
    | _ :: _ :: _ => simp [args] at few
  · have formula : item.keyword ≠ "include" := by
      rw [← spelled]
      cases role <;> decide
    match args : item.args with
    | [t] =>
      dsimp only
      rw [if_neg formula, if_pos rfl, Canonical.ofFormula_eq]
      exact Canonical.does_labelled _ (Canonical.does_answer spelled use t _)
    | [] =>
      rcases use with ⟨rfl, _⟩ | ⟨rfl, _⟩
      · exact Canonical.does_none _ _
      · exact Canonical.does_none _ _
    | _ :: _ :: _ =>
      dsimp only
      rw [if_neg formula, if_neg (List.cons_ne_nil _ _)]
      rcases use with ⟨rfl, _⟩ | ⟨rfl, _⟩
      · exact Canonical.does_none _ _
      · exact Canonical.does_none _ _

/-- Whatever a construct is called, an item that spells it does what the construct asks for, and is
refused if it does not take the arguments. Only plain inclusions are considered, without
restrictions. -/
theorem does_of_spelled {language : Language} (mem : item.keyword ∈ c.keywords language)
    (plain : c = .inclusion → item.args.length ≤ 1) (pool : Pool) :
    (item.canonical language pool).1.Does (c.action? item.loc item.args) := by
  cases language with
  | smtlib =>
    obtain ⟨command, spelled, same⟩ := Construct.command_of_mem mem
    refine Canonical.does_ofKeyword spelled ?_
    rw [← same]
    exact Option.map_map Statement.unlabelled Statement.ofAction _
  | tptp => exact does_ofAnnotated mem plain pool
  | dimacs => cases c <;> cases mem
  | icnf =>
    cases c with
    | request =>
      change (Canonical.ofLine true item pool).1.Does _
      unfold Canonical.ofLine
      rw [List.mem_singleton.mp mem]
      exact Canonical.does_some _ rfl
    | declaration | assumption | definition | datatype | inclusion => cases mem
  | zf =>
    obtain ⟨directive, spelled, same⟩ := Construct.directive_of_mem mem
    exact Canonical.does_ofKeyword spelled (same item.loc item.args pool)

/-- Increments add assumption lines to CNF and change nothing else. -/
theorem canonical_icnf_eq_dimacs (clauses : item.keyword ≠ "a") :
    item.canonical .icnf = item.canonical .dimacs := by
  change Canonical.ofLine true item = Canonical.ofLine false item
  unfold Canonical.ofLine
  cases known : (Spelled.read? item.keyword : Option Line) with
  | none => rfl
  | some line =>
    cases line with
    | clause | sizes => rfl
    | assumptions => exact absurd (Spelled.read?_eq_some_iff.mp known).symm clauses

/-- **A construct has one canonical form.** Two items with the same arguments, at the same place,
each spelling the same construct in a language of its own, become statements that differ in their
labels at most, and one is refused exactly if the other is: both do what the construct asks for, if
it takes the arguments. Files are included without restrictions. Apart from assumption lines, both
kinds of CNF read every item the same way. -/
theorem languages_agree :
    (∀ (c : Construct) (language language' : Language) (item item' : Item Pooled)
        (pool pool' : Pool),
      item.keyword ∈ c.keywords language → item'.keyword ∈ c.keywords language' →
      item.args = item'.args → item.loc = item'.loc →
      (c = .inclusion → item.args.length ≤ 1) →
      let form := (item.canonical language pool).1
      let form' := (item'.canonical language' pool').1
      form.statement.unlabelled = form'.statement.unlabelled ∧
        form.warning.isSome = form'.warning.isSome ∧
        form.Does (c.action? item.loc item.args)) ∧
    ∀ (item : Item Pooled) (pool : Pool), item.keyword ≠ "a" →
      item.canonical .icnf pool = item.canonical .dimacs pool := by
  constructor
  · intro c language language' item item' pool pool' mem mem' args loc plain form form'
    have does : form.Does (c.action? item.loc item.args) := does_of_spelled mem plain pool
    have does' : form'.Does (c.action? item'.loc item'.args) :=
      does_of_spelled mem' (args ▸ plain) pool'
    rw [← args, ← loc] at does'
    exact ⟨does.unlabelled.trans does'.unlabelled.symm, does.warning.trans does'.warning.symm,
      does⟩
  · intro item pool clauses
    rw [canonical_icnf_eq_dimacs clauses]

/-- A formula that is taken for granted becomes the same statement from a named input of TPTP and
from a rewrite rule of Zf, and a clause is one clause in both kinds of CNF. -/
theorem postulate_and_rule_agree :
    let formula : Pooled := Pool.constant true
    let postulate : Item Pooled :=
      { keyword := "axiom", args := [formula], name := some formula, note := some formula }
    let rule : Item Pooled := { keyword := "rewrite", args := [formula] }
    let clause : Item Pooled := { keyword := "clause", args := [formula, formula] }
    postulate.keyword ∈ Construct.assumption.keywords .tptp ∧
    rule.keyword ∈ Construct.assumption.keywords .zf ∧
    (postulate.canonical .tptp .new).1.statement.unlabelled = .ofAction (.assume formula) ∧
    (rule.canonical .zf .new).1.statement.unlabelled = .ofAction (.assume formula) ∧
    clause.canonical .icnf .new = clause.canonical .dimacs .new := by
  intro formula postulate rule clause
  have mem : postulate.keyword ∈ Construct.assumption.keywords .tptp := by decide
  have mem' : rule.keyword ∈ Construct.assumption.keywords .zf := by decide
  obtain ⟨agree, cnf⟩ := languages_agree
  obtain ⟨same, _, does⟩ :=
    agree .assumption .tptp .zf postulate rule .new .new mem mem' rfl rfl nofun
  have assumed : (postulate.canonical .tptp .new).1.statement.unlabelled =
      .ofAction (.assume formula) := does.unlabelled
  exact ⟨mem, mem', assumed, same.symm.trans assumed, cnf clause .new (by decide)⟩

end Item

end ProblemIntake
