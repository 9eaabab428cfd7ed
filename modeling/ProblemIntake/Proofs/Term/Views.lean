import ProblemIntake.Canonical.Arguments

namespace ProblemIntake.Term

variable {ℓ : Type} {t : Term ℓ}

theorem symbol?_eq_some_iff {s : Symbol} : t.symbol? = some s ↔ t.shape = .symbol s := by
  unfold symbol?
  cases t.shape <;> simp

theorem typed?_eq_some_iff {term type : Term ℓ} :
    t.typed? = some (term, type) ↔ t.shape = .typed term type := by
  unfold typed?
  cases t.shape <;> simp

private theorem name_eq_some_iff {space : Namespace} {name : String} :
    (t.symbol?.bind fun s => if s.space = space then some s.name else none) = some name ↔
      t.shape = .symbol ⟨name, space⟩ := by
  rw [← symbol?_eq_some_iff, Option.bind_eq_some_iff]
  constructor
  · rintro ⟨⟨_, _⟩, symbol, named⟩
    split at named
    · rename_i same
      cases same
      cases named
      exact symbol
    · cases named
  · intro symbol
    exact ⟨_, symbol, if_pos rfl⟩

theorem keyword?_eq_some_iff {keyword : String} :
    t.keyword? = some keyword ↔ t.shape = .symbol (.attr keyword) :=
  name_eq_some_iff

theorem literal?_eq_some_iff {kind : Literal} {text : String} :
    t.literal? kind = some text ↔ t.shape = .symbol ⟨text, .literal kind⟩ :=
  name_eq_some_iff

/-- The term introduces a constructor: a symbol alone, which has no fields, or a symbol applied to
the fields. -/
inductive Introduces (t : Term ℓ) : Symbol × List (Term ℓ) → Prop
  | bare {id : Symbol} (alone : t.shape = .symbol id) : Introduces t (id, [])
  | applied {head : Term ℓ} {id : Symbol} {fields : List (Term ℓ)}
      (application : t.shape = .app head fields) (named : head.shape = .symbol id) :
      Introduces t (id, fields)

theorem constructor?_eq_some_iff {c : Symbol × List (Term ℓ)} :
    t.constructor? = some c ↔ t.Introduces c := by
  constructor
  · intro found
    unfold constructor? at found
    split at found
    · rename_i alone
      cases found
      exact .bare alone
    · rename_i head fields application
      obtain ⟨id, named, rfl⟩ := Option.map_eq_some_iff.mp found
      exact .applied application (symbol?_eq_some_iff.mp named)
    · cases found
  · intro introduces
    unfold constructor?
    cases introduces with
    | bare alone => rw [alone]
    | applied application named =>
      rw [application]
      dsimp only
      rw [symbol?_eq_some_iff.mpr named]
      rfl

end ProblemIntake.Term
