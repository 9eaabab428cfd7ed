import ProblemIntake.Proofs.Canonical.References

namespace ProblemIntake

/-- What a statement holds of an argument: the cell of a term, or what was read from it. -/
inductive Kept where
  | term (cell : Nat)
  | symbol (s : Symbol)
  | declaration (id : Symbol) (type : Nat)
  | text (text : String)
  | constructor (c : Symbol × List Nat)
  | count (n : Nat)
  deriving DecidableEq, Repr

/-- How an argument is kept. Of a `name` the namespace is lost; `string` and `keyword` are texts by
themselves. -/
inductive Manner where
  | term
  | symbol
  | declaration
  | name
  | keyword
  | string
  | constructor
  | count
  deriving DecidableEq, Repr

namespace Manner

/-- What is kept of an argument, if it can be kept in this manner. A constructor may be a symbol
alone, which has no fields. -/
def kept? : Manner → Pooled → Option Kept
  | .term, t => some (.term t.number)
  | .symbol, t => t.symbol?.map .symbol
  | .declaration, t => t.declaration?.map fun (id, type) => .declaration id type.number
  | .name, t => t.symbol?.map fun s => .text s.name
  | .keyword, t => t.bareKeyword?.map .text
  | .string, t => (t.literal? .string).map .text
  | .constructor, t =>
    t.constructor?.map fun (id, fields) => .constructor (id, fields.map Term.number)
  | .count, t => t.scopeCount?.map .count

/-- The same is kept of both arguments. -/
def Same (m : Manner) (t u : Pooled) : Prop :=
  ∃ k, m.kept? t = some k ∧ m.kept? u = some k

variable {m : Manner} {t u : Pooled} {ts us : List Pooled} {k l : Kept} {ks ls : List Kept}

/-- The arguments are kept one by one. -/
def KeepsAll (m : Manner) : List Pooled → List Kept → Prop :=
  List.Forall₂ fun t k => m.kept? t = some k

end Manner

/-- How a keyword keeps its arguments: the first one, and all the others. -/
structure Keeping where
  first : Manner
  others : Manner
  deriving DecidableEq, Repr

namespace Keeping

/-- All arguments are kept in one manner. -/
def each (m : Manner) : Keeping := ⟨m, m⟩

/-- The arguments are kept as these, position by position. -/
inductive Keeps (k : Keeping) : List Pooled → List Kept → Prop
  | nil : Keeps k [] []
  | cons {t : Pooled} {ts : List Pooled} {x : Kept} {xs : List Kept}
      (first : k.first.kept? t = some x) (others : k.others.KeepsAll ts xs) :
      Keeps k (t :: ts) (x :: xs)

/-- There are as many arguments in both rows, and the same is kept in each position. -/
inductive Alike (k : Keeping) : List Pooled → List Pooled → Prop
  | nil : Alike k [] []
  | cons {t u : Pooled} {ts us : List Pooled} (first : k.first.Same t u)
      (others : List.Forall₂ k.others.Same ts us) : Alike k (t :: ts) (u :: us)

variable {k : Keeping} {args args' : List Pooled} {ks ks' : List Kept}

end Keeping

end ProblemIntake
