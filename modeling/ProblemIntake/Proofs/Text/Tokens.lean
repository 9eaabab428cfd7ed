import ProblemIntake.Symbol

namespace ProblemIntake

/-- The characters that end a word, or that begin something else than a word. Of all white space,
only the blank is put between tokens. -/
def isMark (c : Char) : Bool :=
  [' ', '(', ')', '"', '|'].contains c

open ProblemIntake.Symbol (doubled)

/-- A word is not empty, and has no marks in it. -/
inductive Token : List Char → Prop
  | word {cs : List Char} (nonempty : cs ≠ []) (solid : ∀ c ∈ cs, isMark c = false) : Token cs
  | bars (name : List Char) (plain : '|' ∉ name) : Token ('|' :: (name ++ ['|']))
  | quotes (text : List Char) : Token ('"' :: (doubled text ++ ['"']))

/-- What may follow a token. -/
def Ends (rest : List Char) : Prop :=
  ∀ c ∈ rest.head?, c = ' ' ∨ c = ')'

theorem ends_cons {c : Char} (rest : List Char) (closes : c = ' ' ∨ c = ')') :
    Ends (c :: rest) := by
  rintro d ⟨⟩
  exact closes

/-- A run of characters ends where the first other character comes. -/
theorem run_append_cancel {p : Char → Bool} {xs ys r s : List Char} (all : ∀ c ∈ xs, p c)
    (all' : ∀ c ∈ ys, p c) (stop : ∀ c ∈ r.head?, p c = false)
    (stop' : ∀ c ∈ s.head?, p c = false) (same : xs ++ r = ys ++ s) : xs = ys ∧ r = s := by
  induction xs generalizing ys with
  | nil =>
    cases ys with
    | nil => exact ⟨rfl, same⟩
    | cons y ys =>
      have passed := all' y List.mem_cons_self
      rw [stop y (by rw [← List.nil_append r, same]; rfl)] at passed
      cases passed
  | cons x xs ih =>
    cases ys with
    | nil =>
      have passed := all x List.mem_cons_self
      rw [stop' x (by rw [← List.nil_append s, ← same]; rfl)] at passed
      cases passed
    | cons y ys =>
      obtain ⟨rfl, rest⟩ := List.cons.inj same
      obtain ⟨rfl, last⟩ := ih (fun c mem => all c (List.mem_cons_of_mem _ mem))
        (fun c mem => all' c (List.mem_cons_of_mem _ mem)) rest
      exact ⟨rfl, last⟩

theorem word_append_cancel {cs ds r s : List Char} (solid : ∀ c ∈ cs, isMark c = false)
    (solid' : ∀ c ∈ ds, isMark c = false) (ends : Ends r) (ends' : Ends s)
    (same : cs ++ r = ds ++ s) : cs = ds ∧ r = s := by
  have stop {rest : List Char} (ends : Ends rest) (c : Char) (head : c ∈ rest.head?) :
      (!isMark c) = false := by
    rcases ends c head with rfl | rfl <;> rfl
  refine run_append_cancel (p := (!isMark ·)) ?_ ?_ (stop ends) (stop ends') same
  · intro c mem
    rw [solid c mem]
    rfl
  · intro c mem
    rw [solid' c mem]
    rfl

/-- A name between bars ends at the next bar. -/
theorem bars_append_cancel {name name' r s : List Char} (plain : '|' ∉ name) (plain' : '|' ∉ name')
    (same : name ++ '|' :: r = name' ++ '|' :: s) : name = name' ∧ r = s := by
  have apart {name : List Char} (plain : '|' ∉ name) (c : Char) (mem : c ∈ name) :
      (c != '|') = true :=
    bne_iff_ne.mpr fun bar => plain (bar ▸ mem)
  have stop (rest : List Char) (c : Char) (head : c ∈ ('|' :: rest).head?) :
      (c != '|') = false := by
    cases head
    rfl
  obtain ⟨names, closed⟩ :=
    run_append_cancel (apart plain) (apart plain') (stop r) (stop s) same
  exact ⟨names, (List.cons.inj closed).2⟩

theorem doubled_cons (c : Char) (text : List Char) :
    doubled (c :: text) = if c = '"' then '"' :: '"' :: doubled text else c :: doubled text := by
  rw [doubled, List.flatMap_cons]
  split <;> rfl

/-- A text between quotes ends at the next quote that stands alone. -/
theorem quotes_append_cancel {text text' r s : List Char} (stop : '"' ∉ r.head?)
    (stop' : '"' ∉ s.head?) (same : doubled text ++ '"' :: r = doubled text' ++ '"' :: s) :
    text = text' ∧ r = s := by
  induction text generalizing text' with
  | nil =>
    cases text' with
    | nil => exact ⟨rfl, (List.cons.inj same).2⟩
    | cons c text' =>
      rw [doubled_cons] at same
      split at same
      · rw [(List.cons.inj same).2] at stop
        exact absurd rfl stop
      · rename_i other
        exact absurd (List.cons.inj same).1.symm other
  | cons c text ih =>
    cases text' with
    | nil =>
      rw [doubled_cons] at same
      split at same
      · rw [← (List.cons.inj same).2] at stop'
        exact absurd rfl stop'
      · rename_i other
        exact absurd (List.cons.inj same).1 other
    | cons d text' =>
      rw [doubled_cons, doubled_cons] at same
      split at same <;> split at same
      · rename_i quote quote'
        obtain ⟨rfl, last⟩ := ih (List.cons.inj (List.cons.inj same).2).2
        exact ⟨by rw [quote, quote'], last⟩
      · rename_i other
        exact absurd (List.cons.inj same).1.symm other
      · rename_i other _
        exact absurd (List.cons.inj same).1 other
      · obtain ⟨rfl, rest⟩ := List.cons.inj same
        obtain ⟨rfl, last⟩ := ih rest
        exact ⟨rfl, last⟩

namespace Token

variable {a b r s : List Char}

/-- A word begins with no mark. -/
theorem isMark_head {c : Char} (nonempty : a ≠ []) (solid : ∀ c ∈ a, isMark c = false)
    (same : a ++ r = c :: s) : isMark c = false := by
  obtain ⟨d, cs, rfl⟩ := List.exists_cons_of_ne_nil nonempty
  obtain ⟨rfl, _⟩ := List.cons.inj same
  exact solid d List.mem_cons_self

/-- A token begins with no parenthesis. -/
theorem exists_cons (token : Token a) : ∃ c cs, a = c :: cs ∧ c ≠ '(' ∧ c ≠ ')' := by
  cases token with
  | word nonempty solid =>
    obtain ⟨c, cs, rfl⟩ := List.exists_cons_of_ne_nil nonempty
    have unmarked : isMark c = false := solid c List.mem_cons_self
    refine ⟨c, cs, rfl, ?_, ?_⟩
    · rintro rfl
      cases unmarked
    · rintro rfl
      cases unmarked
  | bars => exact ⟨_, _, rfl, by decide, by decide⟩
  | quotes => exact ⟨_, _, rfl, by decide, by decide⟩

/-- The first character tells what kind of token it is, and the kind where it ends. -/
theorem append_cancel (token : Token a) (token' : Token b) (ends : Ends r) (ends' : Ends s)
    (same : a ++ r = b ++ s) : a = b ∧ r = s := by
  cases token with
  | word nonempty solid =>
    cases token' with
    | word _ solid' => exact word_append_cancel solid solid' ends ends' same
    | bars => cases isMark_head nonempty solid same
    | quotes => cases isMark_head nonempty solid same
  | bars name plain =>
    cases token' with
    | word nonempty solid => cases isMark_head nonempty solid same.symm
    | bars name' plain' =>
      have names : name ++ '|' :: r = name' ++ '|' :: s := by simpa using same
      obtain ⟨rfl, rest⟩ := bars_append_cancel plain plain' names
      exact ⟨rfl, rest⟩
    | quotes => cases (List.cons.inj same).1
  | quotes text =>
    cases token' with
    | word nonempty solid => cases isMark_head nonempty solid same.symm
    | bars => cases (List.cons.inj same).1
    | quotes text' =>
      have unquoted {rest : List Char} (ends : Ends rest) : '"' ∉ rest.head? := by
        intro head
        rcases ends _ head with quote | quote <;> cases quote
      have texts : doubled text ++ '"' :: r = doubled text' ++ '"' :: s := by simpa using same
      obtain ⟨rfl, rest⟩ := quotes_append_cancel (unquoted ends) (unquoted ends') texts
      exact ⟨rfl, rest⟩

end Token

/-- A word is not empty and has no marks in it. -/
def IsWord (text : String) : Prop :=
  text.toList ≠ [] ∧ ∀ c ∈ text.toList, isMark c = false

-- The instance for lists is named, as others for this proposition need not evaluate.
instance (text : String) : Decidable (IsWord text) :=
  @instDecidableAnd _ _ _ (List.decidableBAll _ _)

theorem IsWord.token {text : String} (word : IsWord text) : Token text.toList :=
  .word word.1 word.2

namespace Symbol

end Symbol

end ProblemIntake
