import ProblemIntake.Proofs.Term.Parts
import ProblemIntake.Proofs.Text.Tokens
import ProblemIntake.Term.Text

/-! Written one after the other, expressions of tokens can be told apart, so the text of a term
determines its skeleton. -/

namespace ProblemIntake

namespace SExpr

/-- An expression whose atoms are tokens. -/
inductive Readable : SExpr → Prop
  | atom {text : String} (token : Token text.toList) : Readable (.atom text)
  | list {items : List SExpr} (each : ∀ e ∈ items, Readable e) : Readable (.list items)

/-- Where the expression is written, no other one is, and its end is found. -/
def Separable (e : SExpr) : Prop :=
  ∀ e', Readable e' → ∀ r s, Ends r → Ends s → e.write r = e'.write s → e = e' ∧ r = s

theorem ends_writeTail (es : List SExpr) (rest : List Char) :
    Ends (writeTail es (')' :: rest)) := by
  cases es with
  | nil => exact ends_cons rest (.inr rfl)
  | cons e es => exact ends_cons _ (.inl rfl)

theorem Readable.write_ne {e : SExpr} (readable : Readable e) (rest tail : List Char) :
    e.write rest ≠ ')' :: tail := by
  intro same
  cases readable with
  | atom token =>
    obtain ⟨c, cs, chars, _, other⟩ := token.exists_cons
    rw [write, chars] at same
    exact other (List.cons.inj same).1
  | @list items each =>
    cases items with
    | nil => cases (List.cons.inj same).1
    | cons e es => cases (List.cons.inj same).1

/-- An atom is not written like a list. -/
theorem atom_write_ne_list {text : String} (token : Token text.toList) (items : List SExpr)
    (r s : List Char) : (atom text).write r ≠ (list items).write s := by
  intro same
  obtain ⟨c, cs, chars, other, _⟩ := token.exists_cons
  rw [write, chars] at same
  cases items with
  | nil => exact other (List.cons.inj same).1
  | cons e es => exact other (List.cons.inj same).1

theorem writeTail_cancel {es es' : List SExpr} {r s : List Char}
    (separable : ∀ e ∈ es, Separable e) (readable : ∀ e ∈ es', Readable e)
    (same : writeTail es (')' :: r) = writeTail es' (')' :: s)) : es = es' ∧ r = s := by
  induction es generalizing es' with
  | nil =>
    cases es' with
    | nil => exact ⟨rfl, (List.cons.inj same).2⟩
    | cons e' es' => cases (List.cons.inj same).1
  | cons e es ih =>
    cases es' with
    | nil => cases (List.cons.inj same).1
    | cons e' es' =>
      obtain ⟨rfl, tails⟩ := separable e List.mem_cons_self e' (readable e' List.mem_cons_self) _ _
        (ends_writeTail es r) (ends_writeTail es' s) (List.cons.inj same).2
      obtain ⟨rfl, rest⟩ := ih (fun e mem => separable e (List.mem_cons_of_mem _ mem))
        (fun e mem => readable e (List.mem_cons_of_mem _ mem)) tails
      exact ⟨rfl, rest⟩

theorem list_write_cancel {es es' : List SExpr} {r s : List Char}
    (readable : ∀ e ∈ es, Readable e) (separable : ∀ e ∈ es, Separable e)
    (readable' : ∀ e ∈ es', Readable e) (same : (list es).write r = (list es').write s) :
    es = es' ∧ r = s := by
  cases es with
  | nil =>
    cases es' with
    | nil => exact ⟨rfl, (List.cons.inj (List.cons.inj same).2).2⟩
    | cons e' es' =>
      have first := readable' e' List.mem_cons_self
      exact absurd (List.cons.inj same).2.symm (first.write_ne _ _)
  | cons e es =>
    cases es' with
    | nil =>
      have first := readable e List.mem_cons_self
      exact absurd (List.cons.inj same).2 (first.write_ne _ _)
    | cons e' es' =>
      -- The first item has no blank before it; with one, the lists are tails.
      exact writeTail_cancel separable readable' (congrArg (' ' :: ·) (List.cons.inj same).2)

theorem Readable.separable {e : SExpr} (readable : Readable e) : Separable e := by
  induction readable with
  | atom token =>
    intro e' readable' r s ends ends' same
    cases readable' with
    | atom token' =>
      obtain ⟨chars, rest⟩ := token.append_cancel token' ends ends' same
      exact ⟨congrArg SExpr.atom (String.toList_inj.mp chars), rest⟩
    | list => exact absurd same (atom_write_ne_list token _ r s)
  | list each ih =>
    intro e' readable' r s ends ends' same
    cases readable' with
    | atom token' => exact absurd same.symm (atom_write_ne_list token' _ s r)
    | list each' =>
      obtain ⟨rfl, rest⟩ := list_write_cancel each ih each' same
      exact ⟨rfl, rest⟩

end SExpr

namespace Term

open SExpr

variable {ℓ μ : Type}

end Term

end ProblemIntake
