import Mathlib.Algebra.Ring.Nat
import ProblemIntake.Canonical.Arguments

namespace ProblemIntake

/-- What a digit stands for by itself. -/
def digitValue (c : Char) : Nat := c.toNat - '0'.toNat

theorem digitValue_lt {c : Char} (digit : c.isDigit) : digitValue c < 10 := by
  have upper : c.toNat ≤ '9'.toNat := by
    rw [Char.isDigit, Bool.and_eq_true] at digit
    exact of_decide_eq_true digit.2
  have nine : '9'.toNat = 57 := rfl
  have zero : '0'.toNat = 48 := rfl
  rw [digitValue]
  omega

/-- Digits in a row and the number they stand for, each digit counting by its place. -/
inductive Digits : List Char → Nat → Prop
  | nil : Digits [] 0
  | cons {c : Char} {cs : List Char} {n : Nat} (digit : c.isDigit) (rest : Digits cs n) :
      Digits (c :: cs) (digitValue c * 10 ^ cs.length + n)

/-- Digits, with or without a plus sign in front, and the number they stand for. -/
inductive Numeral : List Char → Nat → Prop
  | unsigned {cs : List Char} {n : Nat} (nonempty : cs ≠ []) (digits : Digits cs n) : Numeral cs n
  | signed {cs : List Char} {n : Nat} (nonempty : cs ≠ []) (digits : Digits cs n) :
      Numeral ('+' :: cs) n

variable {cs : List Char} {n : Nat}

theorem digits_iff : Digits cs n ↔ (∀ c ∈ cs, c.isDigit) ∧ Nat.ofDigitChars 10 cs 0 = n := by
  have place (c : Char) (cs : List Char) : Nat.ofDigitChars 10 (c :: cs) 0 =
      digitValue c * 10 ^ cs.length + Nat.ofDigitChars 10 cs 0 := by
    rw [Nat.ofDigitChars_cons, Nat.ofDigitChars_eq_ofDigitChars_zero, Nat.mul_zero, Nat.zero_add,
      Nat.mul_comm, digitValue]
  constructor
  · intro digits
    induction digits with
    | nil => exact ⟨nofun, rfl⟩
    | cons digit _ ih => exact ⟨List.forall_mem_cons.mpr ⟨digit, ih.1⟩, by rw [place, ih.2]⟩
  · rintro ⟨digits, rfl⟩
    induction cs with
    | nil => exact .nil
    | cons c cs ih =>
      obtain ⟨digit, rest⟩ := List.forall_mem_cons.mp digits
      rw [place]
      exact .cons digit (ih rest)

/-- The decimal text of a number is digits that stand for it. -/
theorem digits_repr (n : Nat) : Digits n.repr.toList n := by
  rw [Nat.toList_repr, digits_iff]
  exact ⟨fun c mem => Nat.isDigit_of_mem_toDigits (by decide) (by decide) mem,
    Nat.ofDigitChars_ten_toDigits⟩

/-- Zeros in front stand for nothing. -/
theorem Digits.zeros (digits : Digits cs n) (k : Nat) : Digits (List.replicate k '0' ++ cs) n := by
  induction k with
  | zero => exact digits
  | succ k ih =>
    have more := Digits.cons (c := '0') rfl ih
    rwa [show digitValue '0' = 0 from rfl, Nat.zero_mul, Nat.zero_add] at more

open Scope (unsigned)

theorem unsigned_cases (text : List Char) :
    text = '+' :: unsigned text ∨ text = unsigned text ∧ text.head? ≠ some '+' := by
  unfold unsigned
  split
  · exact .inl rfl
  · rename_i other
    refine .inr ⟨rfl, fun plus => ?_⟩
    obtain ⟨rest, same⟩ := List.head?_eq_some_iff.mp plus
    exact other rest same

theorem unsigned_of_digits (digits : Digits cs n) : unsigned cs = cs := by
  cases digits with
  | nil => rfl
  | cons digit =>
    unfold unsigned
    split
    · rename_i same
      obtain ⟨rfl, _⟩ := List.cons.inj same
      cases digit
    · rfl

theorem numeral_iff {text : List Char} :
    Numeral text n ↔ unsigned text ≠ [] ∧ Digits (unsigned text) n := by
  constructor
  · intro numeral
    cases numeral with
    | unsigned nonempty digits =>
      rw [unsigned_of_digits digits]
      exact ⟨nonempty, digits⟩
    | signed nonempty digits => exact ⟨nonempty, digits⟩
  · rintro ⟨nonempty, digits⟩
    rcases unsigned_cases text with plus | ⟨plain, _⟩
    · rw [plus]
      exact .signed nonempty digits
    · rw [plain]
      exact .unsigned nonempty digits

namespace Scope

variable {text : List Char}

theorem count?_eq (text : List Char) :
    count? text =
      if unsigned text ≠ [] ∧ (unsigned text).all Char.isDigit ∧
          Nat.ofDigitChars 10 (unsigned text) 0 < limit then
        some (Nat.ofDigitChars 10 (unsigned text) 0)
      else none := rfl

theorem count?_eq_some_iff : count? text = some n ↔ Numeral text n ∧ n < limit := by
  rw [count?_eq, numeral_iff, digits_iff, Option.ite_none_right_eq_some, List.all_eq_true,
    Option.some.injEq]
  constructor
  · rintro ⟨⟨nonempty, digits, small⟩, rfl⟩
    exact ⟨⟨nonempty, digits, rfl⟩, small⟩
  · rintro ⟨⟨nonempty, digits, rfl⟩, small⟩
    exact ⟨⟨nonempty, digits, small⟩, rfl⟩

/-- What keeps a text from being a scope count. -/
inductive Illegible (text : List Char) : Prop
  | noDigit (none : ∀ c ∈ text, ¬ c.isDigit) : Illegible text
  /-- Only digits belong in a count, and a plus sign if nothing is before it. -/
  | stray {before after : List Char} {c : Char} (here : text = before ++ c :: after)
      (other : ¬ c.isDigit) (misplaced : c ≠ '+' ∨ before ≠ []) : Illegible text
  | large {n : Nat} (numeral : Numeral text n) (much : limit ≤ n) : Illegible text

/-- Digits are nothing but digits, in whatever numeral they stand. -/
theorem Illegible.not_count (illegible : Illegible text) : count? text = none := by
  refine Option.eq_none_iff_forall_ne_some.mpr fun n counted => ?_
  obtain ⟨numeral, small⟩ := count?_eq_some_iff.mp counted
  obtain ⟨nonempty, digits⟩ := numeral_iff.mp numeral
  have all := (digits_iff.mp digits).1
  cases illegible with
  | noDigit none =>
    obtain ⟨c, rest, first⟩ := List.exists_cons_of_ne_nil nonempty
    have mem : c ∈ unsigned text := first ▸ List.mem_cons_self
    have inside : c ∈ text := by
      rcases unsigned_cases text with plus | ⟨plain, _⟩
      · rw [plus]
        exact List.mem_cons_of_mem _ mem
      · rwa [plain]
    exact none c inside (all c mem)
  | @stray before after c here other misplaced =>
    refine other (all c ?_)
    rcases unsigned_cases text with plus | ⟨plain, _⟩
    · rw [here] at plus
      cases before with
      | nil => exact absurd (List.cons.inj plus).1 (misplaced.resolve_right fun none => none rfl)
      | cons b before =>
        rw [here, ← (List.cons.inj plus).2]
        exact List.mem_append_right before List.mem_cons_self
    · rw [← plain, here]
      exact List.mem_append_right before List.mem_cons_self
  | large numeral' much =>
    have same := (digits_iff.mp (numeral_iff.mp numeral').2).2
    rw [(digits_iff.mp digits).2] at same
    omega

theorem illegible_of_not_count (refused : count? text = none) : Illegible text := by
  by_cases all : ∀ c ∈ unsigned text, c.isDigit
  · by_cases empty : unsigned text = []
    · refine .noDigit ?_
      rcases unsigned_cases text with plus | ⟨plain, _⟩
      · rw [plus, empty, List.forall_mem_singleton]
        decide
      · rw [plain, empty]
        exact nofun
    · have numeral : Numeral text _ := numeral_iff.mpr ⟨empty, digits_iff.mpr ⟨all, rfl⟩⟩
      refine .large numeral (Nat.le_of_not_lt fun small => ?_)
      rw [count?_eq_some_iff.mpr ⟨numeral, small⟩] at refused
      cases refused
  · obtain ⟨c, mem, other⟩ : ∃ c ∈ unsigned text, ¬ c.isDigit := by
      simpa only [Classical.not_forall, exists_prop] using all
    obtain ⟨before, after, here⟩ := List.append_of_mem mem
    rcases unsigned_cases text with plus | ⟨plain, first⟩
    · have signed : text = ('+' :: before) ++ c :: after := by
        rw [plus, here]
        rfl
      exact .stray signed other (.inr (List.cons_ne_nil _ _))
    · rw [here] at plain
      refine .stray plain other ?_
      cases before with
      | nil => exact .inl fun same => first (by rw [plain, same]; rfl)
      | cons b before => exact .inr (List.cons_ne_nil _ _)

theorem count?_eq_none_iff : count? text = none ↔ Illegible text :=
  ⟨illegible_of_not_count, Illegible.not_count⟩

end Scope

/-! ## Machine words -/

namespace Word

/-- Ten times the word, unless that is too large for a word. -/
def timesTen? (w : UInt64) : Option UInt64 :=
  if w ≤ .ofNat ((UInt64.size - 1) / 10) then some (w * 10) else none

/-- The sum of the words, unless it is smaller than what was added to. -/
def add? (w v : UInt64) : Option UInt64 :=
  if w ≤ w + v then some (w + v) else none

/-- The word with one more digit behind. -/
def shift? (w : UInt64) (c : Char) : Option UInt64 :=
  if c.isDigit then (timesTen? w).bind (add? · (.ofNat (digitValue c))) else none

/-- The word of a numeral, read digit by digit. -/
def read? (text : List Char) : Option UInt64 :=
  if unsigned text = [] then none else (unsigned text).foldlM shift? 0

variable {w v u : UInt64} {c : Char}

theorem timesTen?_eq_some_iff : timesTen? w = some v ↔ v.toNat = 10 * w.toNat := by
  have ten : (10 : UInt64).toNat = 10 := rfl
  have bound : (UInt64.ofNat ((UInt64.size - 1) / 10)).toNat = 1844674407370955161 := rfl
  rw [timesTen?, Option.ite_none_right_eq_some, UInt64.le_iff_toNat_le, bound, Option.some.injEq,
    ← UInt64.toNat_inj, UInt64.toNat_mul, ten]
  have := UInt64.toNat_lt v
  omega

theorem add?_eq_some_iff : add? w v = some u ↔ u.toNat = w.toNat + v.toNat := by
  rw [add?, Option.ite_none_right_eq_some, UInt64.le_iff_toNat_le, Option.some.injEq,
    ← UInt64.toNat_inj, UInt64.toNat_add]
  have := UInt64.toNat_lt w
  have := UInt64.toNat_lt v
  have := UInt64.toNat_lt u
  omega

theorem shift?_eq_some_iff :
    shift? w c = some v ↔ c.isDigit ∧ v.toNat = 10 * w.toNat + digitValue c := by
  rw [shift?, Option.ite_none_right_eq_some]
  refine and_congr_right fun digit => ?_
  have small := digitValue_lt digit
  have value : (UInt64.ofNat (digitValue c)).toNat = digitValue c :=
    UInt64.toNat_ofNat_of_lt' (Nat.lt_trans small (by decide))
  rw [Option.bind_eq_some_iff]
  simp only [timesTen?_eq_some_iff, add?_eq_some_iff, value]
  constructor
  · rintro ⟨product, ten, sum⟩
    rw [sum, ten]
  · intro sum
    have fits : 10 * w.toNat < 2 ^ 64 := by
      have := UInt64.toNat_lt v
      omega
    exact ⟨.ofNat (10 * w.toNat), UInt64.toNat_ofNat_of_lt' fits,
      by rw [UInt64.toNat_ofNat_of_lt' fits, sum]⟩

theorem foldlM_shift?_eq_some_iff {digits : List Char} :
    digits.foldlM shift? w = some v ↔
      (∀ c ∈ digits, c.isDigit) ∧ v.toNat = Nat.ofDigitChars 10 digits w.toNat := by
  induction digits generalizing w with
  | nil =>
    rw [List.foldlM_nil, Nat.ofDigitChars_nil, UInt64.toNat_inj]
    exact ⟨fun same => ⟨nofun, (Option.some.inj same).symm⟩, fun same => congrArg some same.2.symm⟩
  | cons c digits ih =>
    rw [List.foldlM_cons, List.forall_mem_cons, Nat.ofDigitChars_cons, ← digitValue]
    constructor
    · intro read
      obtain ⟨next, shifted, rest⟩ := Option.bind_eq_some_iff.mp read
      obtain ⟨digit, value⟩ := shift?_eq_some_iff.mp shifted
      obtain ⟨digits, result⟩ := ih.mp rest
      exact ⟨⟨digit, digits⟩, by rw [result, value]⟩
    · rintro ⟨⟨digit, rest⟩, result⟩
      -- No digit makes a number smaller, so what fits in the end fits all along.
      have grows : 10 * w.toNat + digitValue c ≤ v.toNat := by
        rw [result, Nat.ofDigitChars_eq_ofDigitChars_zero]
        exact Nat.le_add_right_of_le (Nat.le_mul_of_pos_left _ (Nat.pow_pos (by decide)))
      have value := UInt64.toNat_ofNat_of_lt' (Nat.lt_of_le_of_lt grows (UInt64.toNat_lt v))
      exact Option.bind_eq_some_iff.mpr
        ⟨_, shift?_eq_some_iff.mpr ⟨digit, value⟩, ih.mpr ⟨rest, by rw [value, result]⟩⟩

/-- A word is read from a text exactly if it is the scope count of the text. -/
theorem read?_eq_some_iff {text : List Char} :
    read? text = some w ↔ Scope.count? text = some w.toNat := by
  rw [Scope.count?_eq_some_iff, numeral_iff, digits_iff, read?, Option.ite_none_left_eq_some,
    foldlM_shift?_eq_some_iff]
  constructor
  · rintro ⟨nonempty, digits, value⟩
    exact ⟨⟨nonempty, digits, value.symm⟩, UInt64.toNat_lt w⟩
  · rintro ⟨⟨nonempty, digits, value⟩, _⟩
    exact ⟨nonempty, digits, value.symm⟩

end Word

end ProblemIntake
