import ProblemIntake.Proofs.Canonical.Outline
import ProblemIntake.Proofs.Term.Views
import ProblemIntake.Proofs.Text.Numerals

namespace ProblemIntake

namespace Term

variable {ℓ : Type} {t : Term ℓ} {n : Nat}

/-- The term is a numeral for a number of scopes. -/
def Counts (t : Term ℓ) (n : Nat) : Prop :=
  ∃ text, t.shape = .symbol ⟨text, .literal .integer⟩ ∧ Numeral text.toList n ∧ n < 2 ^ 64

theorem scopeCount?_of_shape {text : String}
    (literal : t.shape = .symbol ⟨text, .literal .integer⟩) :
    t.scopeCount? = Scope.count? text.toList := by
  rw [scopeCount?, literal?_eq_some_iff.mpr literal]
  rfl

theorem scopeCount?_eq_some_iff : t.scopeCount? = some n ↔ t.Counts n := by
  rw [scopeCount?, Option.bind_eq_some_iff]
  refine exists_congr fun text => ?_
  rw [literal?_eq_some_iff, Scope.count?_eq_some_iff]
  rfl

theorem scopeCount?_eq_none_iff : t.scopeCount? = none ↔
    ∀ text, t.shape = .symbol ⟨text, .literal .integer⟩ → Scope.Illegible text.toList := by
  rw [scopeCount?, Option.bind_eq_none_iff]
  refine forall_congr' fun text => ?_
  rw [literal?_eq_some_iff, Scope.count?_eq_none_iff]

/-- The decimal text of a number below the limit counts just as many scopes, whatever number of
zeros comes first and with or without a plus sign. -/
theorem counts_of_text {sign text : String} {zeros : Nat} (signed : sign = "" ∨ sign = "+")
    (small : n < 2 ^ 64)
    (written : text = sign ++ String.ofList (List.replicate zeros '0') ++ n.repr)
    (literal : t.shape = .symbol ⟨text, .literal .integer⟩) : t.Counts n := by
  have digits := (digits_repr n).zeros zeros
  have nonempty : List.replicate zeros '0' ++ n.repr.toList ≠ [] := by
    rw [Nat.toList_repr]
    exact List.append_ne_nil_of_right_ne_nil _ Nat.toDigits_ne_nil
  have chars : text.toList = sign.toList ++ (List.replicate zeros '0' ++ n.repr.toList) := by
    rw [written, String.toList_append, String.toList_append, String.toList_ofList,
      List.append_assoc]
  refine ⟨text, literal, ?_, small⟩
  rw [chars]
  rcases signed with rfl | rfl
  · exact .unsigned nonempty digits
  · exact .signed nonempty digits

end Term

namespace Item

/-- The keywords of the commands that open and drop scopes, and what these do with a count. -/
inductive MovesScopes : String → (Nat → Action Pooled) → Prop
  | push : MovesScopes "push" .push
  | pop : MovesScopes "pop" .pop

variable {item : Item Pooled} {act : Nat → Action Pooled} {t : Pooled}

theorem MovesScopes.injective {keyword : String} (moves : MovesScopes keyword act) {n m : Nat} :
    act n = act m ↔ n = m := by
  cases moves <;> simp

theorem canonical_of_movesScopes (moves : MovesScopes item.keyword act) (args : item.args = [t])
    (pool : Pool) :
    (item.canonical .smtlib pool).1 =
      .settle item.loc (t.scopeCount?.elim (.error (.wrongArguments item.keyword))
        fun n => .ok (.ofAction (act n))) := by
  have answered (command : Command) (spelled : spelling command = item.keyword)
      (read : ∀ loc, command.action? loc [t] = t.scopeCount?.map act) :
      (Canonical.ofCommand item pool).1 = .settle item.loc (t.scopeCount?.elim
        (.error (.wrongArguments item.keyword)) fun n => .ok (.ofAction (act n))) := by
    rw [Canonical.ofCommand, Canonical.ofKeyword_of_spelled spelled, args, read]
    cases t.scopeCount? <;> rfl
  generalize key : item.keyword = keyword at moves
  cases moves with
  | push => exact key ▸ answered .push key.symm fun _ => rfl
  | pop => exact key ▸ answered .pop key.symm fun _ => rfl

/-- **Scope counts are read exactly, without wrap-around.** A command that moves scopes and has one
argument moves as many scopes as the argument counts, if that is a numeral below the limit, and is
refused in every other case: then the argument is no integer literal, or its text has no digits, a
character out of place or too large a value. A machine word that checks each step reads the same.
The decimal text of every number below the limit is read as that number, with a plus sign and with
zeros in front as well. -/
theorem scopes_counted_exactly (moves : MovesScopes item.keyword act) (args : item.args = [t])
    (pool : Pool) :
    let form := (item.canonical .smtlib pool).1
    let counted (n : Nat) := form = ⟨(Statement.ofAction (act n)).located item.loc, none⟩
    let refused :=
      form = ⟨Statement.empty.located item.loc, some (.wrongArguments item.keyword)⟩
    (∀ n, counted n ↔ t.Counts n) ∧
    (refused ↔ ∀ text, t.shape = .symbol ⟨text, .literal .integer⟩ →
      Scope.Illegible text.toList) ∧
    ((∃ n, counted n) ∨ refused) ∧
    ∀ text, t.shape = .symbol ⟨text, .literal .integer⟩ →
      (∀ n, counted n ↔ ∃ w, Word.read? text.toList = some w ∧ w.toNat = n) ∧
      ∀ sign zeros n, sign = "" ∨ sign = "+" → n < 2 ^ 64 →
        text = sign ++ String.ofList (List.replicate zeros '0') ++ n.repr → counted n := by
  intro form counted refused
  have settled : form = .settle item.loc (t.scopeCount?.elim
      (.error (.wrongArguments item.keyword)) fun n => .ok (.ofAction (act n))) :=
    canonical_of_movesScopes moves args pool
  have distinct (n m : Nat) (same : (Statement.ofAction (act n)).located item.loc =
      (Statement.ofAction (act m)).located item.loc) : n = m :=
    moves.injective.mp (Step.mk.inj (Statement.step.inj same)).1
  have counted_iff (n : Nat) : counted n ↔ t.scopeCount? = some n := by
    unfold counted
    rw [settled]
    exact Canonical.settle_elim_eq_ok_iff distinct n
  have refused_iff : refused ↔ t.scopeCount? = none := by
    unfold refused
    rw [settled]
    exact Canonical.settle_elim_eq_error_iff
  refine ⟨fun n => (counted_iff n).trans Term.scopeCount?_eq_some_iff,
    refused_iff.trans Term.scopeCount?_eq_none_iff, ?_, fun text literal => ⟨fun n => ?_, ?_⟩⟩
  · cases read : t.scopeCount? with
    | none => exact .inr (refused_iff.mpr read)
    | some n => exact .inl ⟨n, (counted_iff n).mpr read⟩
  · rw [counted_iff, Term.scopeCount?_of_shape literal]
    constructor
    · intro count
      have small := (Scope.count?_eq_some_iff.mp count).2
      have word := UInt64.toNat_ofNat_of_lt' small
      exact ⟨_, Word.read?_eq_some_iff.mpr (word.symm ▸ count), word⟩
    · rintro ⟨w, read, rfl⟩
      exact Word.read?_eq_some_iff.mp read
  · intro sign zeros n signed small written
    exact (counted_iff n).mpr
      (Term.scopeCount?_eq_some_iff.mpr (Term.counts_of_text signed small written literal))

/-- The largest count is read with a sign and a zero in front, and the number after it is
refused. -/
theorem largest_count_pushed :
    let push (text : String) : Item Pooled :=
      { keyword := "push", args := [.mk ⟨2, none⟩ (.symbol ⟨text, .literal .integer⟩)] }
    let form (text : String) := ((push text).canonical .smtlib .new).1
    form "+018446744073709551615" = ⟨.ofAction (.push 18446744073709551615), none⟩ ∧
      form "18446744073709551616" = ⟨.empty, some (.wrongArguments "push")⟩ := by
  intro push form
  have pushed (text : String) := @scopes_counted_exactly (push text) .push _ .push rfl .new
  obtain ⟨_, _, _, read⟩ := pushed "+018446744073709551615"
  refine ⟨(read _ rfl).2 "+" 1 _ (.inr rfl) (by decide) (by decide), ?_⟩
  refine (pushed "18446744073709551616").2.1.mpr ?_
  rintro _ ⟨⟩
  exact Scope.count?_eq_none_iff.mp (by decide)

end Item

end ProblemIntake
