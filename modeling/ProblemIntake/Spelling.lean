namespace ProblemIntake

/-- Every value listed once, each with a text of its own. -/
class Spelled (α : Type) where
  all : List α
  spelling : α → String
  mem_all : ∀ a, a ∈ all
  nodup_spellings : (all.map spelling).Nodup

export Spelled (spelling)

namespace Spelled

variable {α : Type} [Spelled α]

theorem spelling_injective {a b : α} (same : spelling a = spelling b) : a = b := by
  have nodup := nodup_spellings (α := α)
  have ha := mem_all a
  have hb := mem_all b
  generalize (all : List α) = values at nodup ha hb
  induction values with
  | nil => cases ha
  | cons v vs ih => grind

/-- The value spelled exactly so. -/
def read? (text : String) : Option α :=
  all.find? (spelling · == text)

theorem read?_eq_some_iff {text : String} {a : α} :
    (read? text : Option α) = some a ↔ spelling a = text := by
  constructor
  · intro found
    simpa using List.find?_some found
  · rintro rfl
    have found : (read? (spelling a) : Option α).isSome := by
      simpa [read?] using ⟨a, mem_all a, rfl⟩
    obtain ⟨b, hb⟩ := Option.isSome_iff_exists.mp found
    have same : spelling b = spelling a := by simpa using List.find?_some hb
    rw [hb, spelling_injective same]

@[simp] theorem read?_spelling (a : α) : read? (spelling a) = some a :=
  read?_eq_some_iff.mpr rfl

end Spelled

end ProblemIntake
