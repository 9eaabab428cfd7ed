import ProblemIntake.Canonical.Basic
import ProblemIntake.Term.Text

/-! The role of an annotated formula says what is done with it. A formula to be proved or refuted is
tried in a scope of its own and then kept as an assumption; the step inside the scope is tagged
false, the step that stays is tagged true. -/

namespace ProblemIntake

/-- The last three describe finite models. -/
inductive Role where
  | postulate
  | hypothesis
  | definition
  | auxiliary
  | established
  | assumption
  | conjecture
  | negatedConjecture
  | type
  | plain
  | unknown
  | modelDomain
  | modelFunctors
  | modelPredicates
  deriving DecidableEq, Repr

/-- What is done with a formula. -/
inductive Use where
  | assume
  /-- Proved, then assumed. -/
  | prove
  /-- Assumed and refuted, then its negation assumed. -/
  | refute
  | declare
  | ignore
  deriving DecidableEq, Repr

namespace Role

instance : Spelled Role where
  all := [.postulate, .hypothesis, .definition, .auxiliary, .established, .assumption,
    .conjecture, .negatedConjecture, .type, .plain, .unknown, .modelDomain, .modelFunctors,
    .modelPredicates]
  spelling
    | .postulate => "axiom"
    | .hypothesis => "hypothesis"
    | .definition => "definition"
    | .auxiliary => "lemma"
    | .established => "theorem"
    | .assumption => "assumption"
    | .conjecture => "conjecture"
    | .negatedConjecture => "negated_conjecture"
    | .type => "type"
    | .plain => "plain"
    | .unknown => "unknown"
    | .modelDomain => "fi_domain"
    | .modelFunctors => "fi_functors"
    | .modelPredicates => "fi_predicates"
  mem_all r := by cases r <;> decide
  nodup_spellings := by decide

/-- An assumption has to be proved as well. -/
def use : Role → Use
  | .postulate | .hypothesis | .definition | .auxiliary | .established => .assume
  | .assumption | .conjecture => .prove
  | .negatedConjecture => .refute
  | .type => .declare
  | .plain | .unknown | .modelDomain | .modelFunctors | .modelPredicates => .ignore

end Role

namespace Statement

/-- One solve request in a scope of its own, with `trial` in force, and `kept` in force from then
on. -/
def attempt (loc : Option Span) (trial kept : Action Pooled) : Statement Pooled :=
  let step (action : Action Pooled) (tag : Option Bool) : Statement Pooled :=
    .step ⟨action, ⟨none, tag.map Pool.constant, loc⟩⟩
  .pack [
    step (.push 1) none,
    step trial (some false),
    step (.prove []) none,
    step (.pop 1) none,
    step kept (some true)] {}

/-- The statement of a formula put to use, or the warning that it cannot be. -/
def ofFormula (loc : Option Span) (formula : Pooled) :
    Use → StateM Pool (Except Warning (Statement Pooled))
  | .assume => return .ok (.ofAction (.assume formula))
  | .prove => return .ok (attempt loc (.goal formula) (.assume formula))
  | .refute => do
    let negation ← Pool.intern (.op .not [formula]) none
    return .ok (attempt loc (.assume formula) (.assume negation))
  | .declare =>
    match formula.declaration? with
    | some (id, type) => return .ok (.ofAction (.declare id type))
    | none => return .error (.badTypeDeclaration formula.text)
  | .ignore => return .ok .empty

end Statement

namespace Canonical

/-- The note on a formula: its role, typed by the item's own note if there is one. -/
def provenance (item : Item Pooled) : StateM Pool Pooled := do
  let role ← Pool.intern (.symbol (.attr item.keyword)) none
  match item.note with
  | some note => Pool.intern (.typed role note) none
  | none => return role

/-- A formula with its role as keyword. It is labelled even if it is refused, and its name has to
be a symbol. -/
def ofFormula (item : Item Pooled) (formula : Pooled) : StateM Pool Canonical := do
  let note ← provenance item
  let answer ← match Spelled.read? item.keyword with
    | some (role : Role) => Statement.ofFormula item.loc formula role.use
    | none => pure (.error (.unknownRole item.keyword))
  let name := (item.name.bind Term.symbol?).map Symbol.name
  let label : Label Pooled := ⟨name, some note, item.loc⟩
  match answer with
  | .ok s => return ⟨s.relabel fun _ => label, none⟩
  | .error w => return ⟨Statement.empty.relabel fun _ => label, some w⟩

/-- A TPTP input: a file to include, with restrictions, or an annotated formula. -/
def ofAnnotated (item : Item Pooled) : StateM Pool Canonical :=
  match item.keyword, item.args with
  | "include", path :: restrictions =>
    match path.literal? .string with
    | some path => do return settle item.loc (.ok (← Statement.includeFile path restrictions))
    | none => return settle item.loc (.error (.wrongArguments item.keyword))
  | _, [formula] => ofFormula item formula
  | _, _ => return settle item.loc (.error (.wrongArguments item.keyword))

end Canonical

end ProblemIntake
