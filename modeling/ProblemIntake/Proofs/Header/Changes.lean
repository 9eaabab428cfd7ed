import Mathlib.Data.List.Nodup
import Mathlib.Data.List.Perm.Subperm
import ProblemIntake.Proofs.Header.Listing

/-! A record is changed by setting a field and by erasing one. What it holds, and in which order, is
told from its changes alone. -/

namespace ProblemIntake

inductive Change where
  | set (field : Field) (value : String)
  | erase (field : Field)
  deriving DecidableEq, Repr

namespace Change

variable {field : Field} {c : Change}

/-- The value that a change sets the field to. -/
def value? (field : Field) : Change → Option String
  | .set f value => if f = field then some value else none
  | .erase _ => none

/-- The value the field was last set to, unless it was erased since. -/
def lastSet? (field : Field) (changes : List Change) : Option String :=
  ((changes.rtakeWhile (· != .erase field)).filterMap (value? field)).getLast?

/-- The position of the first change that set the field since it was last erased. -/
def firstSet? (field : Field) (changes : List Change) : Option Nat :=
  openedAt? (fun c => (c.value? field).isSome) (· == .erase field) changes

theorem lastSet?_concat_erase (field : Field) (changes : List Change) :
    lastSet? field (changes ++ [.erase field]) = none := by
  rw [lastSet?, List.rtakeWhile_concat_neg _ _ _ (by simp)]
  rfl

theorem lastSet?_concat (keeps : c ≠ .erase field) (changes : List Change) :
    lastSet? field (changes ++ [c]) = (c.value? field).or (lastSet? field changes) := by
  rw [lastSet?, List.rtakeWhile_concat_pos _ _ _ (by simpa using keeps),
    getLast?_filterMap_concat, lastSet?]

theorem firstSet?_concat_erase (field : Field) (changes : List Change) :
    firstSet? field (changes ++ [.erase field]) = none := by
  rw [firstSet?]
  apply openedAt?_concat_of_closes
  exact beq_self_eq_true _

theorem firstSet?_concat (keeps : c ≠ .erase field) (changes : List Change) :
    firstSet? field (changes ++ [c]) =
      (firstSet? field changes).or
        (if (c.value? field).isSome then some changes.length else none) := by
  rw [firstSet?, firstSet?]
  apply openedAt?_concat
  exact beq_eq_false_iff_ne.mpr keeps

end Change

namespace Record

def changed (r : Record) : Change → Record
  | .set field value => r.set field value
  | .erase field => r.erase field

/-- The record that the changes make of an empty one. -/
def ofChanges (changes : List Change) : Record := changes.foldl changed empty

theorem ofChanges_concat (changes : List Change) (c : Change) :
    ofChanges (changes ++ [c]) = (ofChanges changes).changed c :=
  List.foldl_concat changed empty c changes

/-- A field holds the value it was last set to, unless it was erased since. -/
theorem get?_ofChanges (changes : List Change) (field : Field) :
    (ofChanges changes).get? field = Change.lastSet? field changes := by
  induction changes using List.reverseRecOn with
  | nil => rfl
  | append_singleton changes c ih =>
    rw [ofChanges_concat]
    cases c with
    | set f value =>
      rw [changed, get?_set, ih, Change.lastSet?_concat (by simp), Change.value?]
      by_cases same : f = field
      · simp [same]
      · simp [same, Ne.symm same]
    | erase f =>
      rw [changed, get?_erase, ih]
      by_cases same : field = f
      · rw [if_pos same, same, Change.lastSet?_concat_erase]
      · rw [if_neg same, Change.lastSet?_concat (by simpa using Ne.symm same)]
        rfl

/-- The fields are listed as they were first set since they were last erased. -/
theorem listed_ofChanges (changes : List Change) :
    Listed (fun field => Change.firstSet? field changes) (ofChanges changes).fields := by
  induction changes using List.reverseRecOn with
  | nil => exact ⟨fun field => iff_of_false List.not_mem_nil (· rfl), .nil⟩
  | append_singleton changes c ih =>
    rw [ofChanges_concat]
    cases c with
    | set f value =>
      rw [changed, fields_set]
      apply ih.insert
      · intro g i opened
        exact openedAt?_lt opened
      · intro g
        rw [Change.firstSet?_concat (by simp), Change.value?]
        by_cases same : g = f
        · simp [same]
        · simp [same, Ne.symm same]
    | erase f =>
      rw [changed, fields_erase]
      apply ih.erase
      · exact Change.firstSet?_concat_erase f changes
      · intro g other
        rw [Change.firstSet?_concat (by simpa using Ne.symm other), Change.value?]
        simp

variable {r s : Record}

theorem count_fields (r : Record) (field : Field) :
    r.fields.count field = if (r.get? field).isSome then 1 else 0 := by
  have held : (r.get? field).isSome ↔ field ∈ r.fields := by
    rw [mem_fields_iff, Option.ne_none_iff_isSome]
  rw [r.nodup.count]
  simp only [held]

/-- A record is as long as there are fields with a value. -/
theorem size_eq_countP (r : Record) :
    r.size = Spelled.all.countP fun field => (r.get? field).isSome := by
  have distinct : (Spelled.all : List Field).Nodup :=
    List.Nodup.of_map spelling Spelled.nodup_spellings
  have held : (Spelled.all.filter fun field => (r.get? field).isSome).Perm r.fields := by
    rw [List.perm_ext_iff_of_nodup (distinct.filter _) r.nodup]
    intro field
    rw [List.mem_filter, ← Option.ne_none_iff_isSome, ← mem_fields_iff]
    exact and_iff_right (Spelled.mem_all field)
  rw [List.countP_eq_length_filter, held.length_eq, fields, List.length_map, size]

theorem isEmpty_iff : r.isEmpty = true ↔ ∀ field, r.get? field = none := by
  have none_iff (field : Field) : r.get? field = none ↔ field ∉ r.fields := by
    rw [mem_fields_iff, not_not]
  simp only [none_iff, ← List.eq_nil_iff_forall_not_mem]
  rw [isEmpty, List.isEmpty_iff, fields, List.map_eq_nil_iff]

theorem agrees_iff_size_eq_and : r.agrees s = true ↔
    r.size = s.size ∧ ∀ field value, r.get? field = some value → s.get? field = some value := by
  rw [agrees, Bool.and_eq_true, beq_iff_eq, List.all_eq_true]
  apply and_congr_right
  intro _
  constructor
  · intro all field value held
    exact beq_iff_eq.mp (all (field, value) (mem_entries_iff.mpr held))
  · intro same entry mem
    exact beq_iff_eq.mpr (same entry.1 entry.2 (mem_entries_iff.mp mem))

/-- Records that hold the same values agree, in whatever order they hold them. -/
theorem agrees_iff : r.agrees s = true ↔ ∀ field, r.get? field = s.get? field := by
  rw [agrees_iff_size_eq_and]
  constructor
  · rintro ⟨sizes, values⟩ field
    -- Of two lists of fields equally long, neither can hold a field that the other does not.
    have subset : r.fields ⊆ s.fields := by
      intro f mem
      obtain ⟨value, held⟩ := Option.ne_none_iff_exists'.mp (mem_fields_iff.mp mem)
      rw [mem_fields_iff, values f value held]
      exact Option.some_ne_none value
    have lengths : s.fields.length ≤ r.fields.length := by
      rw [fields, fields, List.length_map, List.length_map]
      exact Nat.le_of_eq sizes.symm
    have perm : r.fields.Perm s.fields :=
      (r.nodup.subperm subset).perm_of_length_le lengths
    cases held : r.get? field with
    | some value => exact (values field value held).symm
    | none =>
      have absent : field ∉ s.fields := fun mem =>
        mem_fields_iff.mp (perm.mem_iff.mpr mem) held
      exact (not_not.mp (mt mem_fields_iff.mpr absent)).symm
  · intro same
    constructor
    · rw [size_eq_countP, size_eq_countP]
      simp only [same]
    · intro field value held
      rw [← same, held]

/-- What a record shows of the changes that made it. -/
structure Recounts (changes : List Change) (r : Record) : Prop where
  /-- A field holds the value it was last set to, unless it was erased since. -/
  get?_eq : ∀ field, r.get? field = Change.lastSet? field changes
  contains_eq : ∀ field, r.contains field = (r.get? field).isSome
  size_eq : r.size = Spelled.all.countP fun field => (r.get? field).isSome
  isEmpty_iff : r.isEmpty = true ↔ ∀ field, r.get? field = none
  /-- A field is listed once if it holds a value, and not at all otherwise. -/
  count_fields : ∀ field, r.fields.count field = if (r.get? field).isSome then 1 else 0
  mem_entries_iff : ∀ field value, (field, value) ∈ r.entries ↔ r.get? field = some value
  /-- The fields are listed as they were first set since they were last erased. -/
  order : r.fields.Pairwise (Precedes fun field => Change.firstSet? field changes)

theorem recounts_ofChanges (changes : List Change) : Recounts changes (ofChanges changes) where
  get?_eq := get?_ofChanges changes
  contains_eq := contains_eq_isSome_get? _
  size_eq := size_eq_countP _
  isEmpty_iff := isEmpty_iff
  count_fields := count_fields _
  mem_entries_iff _ _ := Record.mem_entries_iff
  order := (listed_ofChanges changes).order

/-- **A record is an ordered map whose equality ignores the order.** After any changes a field holds
the value it was last set to, unless it was erased since. The record lists each field that holds a
value once, in the order in which they were first set since they were last erased: a field that is
set again keeps its place, and one that is erased leaves the others in theirs. Two records agree
exactly if they hold the same values, in whatever order. -/
theorem ordered_map_of_changes (changes others : List Change) :
    let r := ofChanges changes
    let s := ofChanges others
    Recounts changes r ∧
    (∀ field value, r.contains field = true →
      (ofChanges (changes ++ [.set field value])).fields = r.fields) ∧
    (∀ field, (ofChanges (changes ++ [.erase field])).fields = r.fields.filter (· != field)) ∧
    (r.agrees s = true ↔ ∀ field, r.get? field = s.get? field) := by
  intro r s
  refine ⟨recounts_ofChanges changes, ?_, ?_, agrees_iff⟩
  · intro field value held
    have mem : field ∈ r.fields := List.contains_iff_mem.mp held
    rw [ofChanges_concat, changed, fields_set, if_pos mem]
  · intro field
    rw [ofChanges_concat, changed, fields_erase]

/-- A status erased and set again comes after the license, which keeps its place when it is set
again. The record agrees with one in which the status came first. -/
theorem status_set_anew_agrees :
    let changes : List Change :=
      [.set .status "sat", .set .license "GPL", .erase .status, .set .status "unsat"]
    let others : List Change := [.set .status "unsat", .set .license "MIT"]
    (ofChanges changes).contains .license = true ∧
    (ofChanges (changes ++ [.set .license "MIT"])).fields = [.license, .status] ∧
    (ofChanges others).fields = [.status, .license] ∧
    (ofChanges (changes ++ [.set .license "MIT"])).agrees (ofChanges others) = true := by
  intro changes others
  have held : (ofChanges changes).contains .license = true := by decide
  have kept := (ordered_map_of_changes changes others).2.1 .license "MIT" held
  have agree := (ordered_map_of_changes (changes ++ [.set .license "MIT"]) others).2.2.2
  refine ⟨held, kept.trans (by decide), by decide, agree.mpr fun field => ?_⟩
  cases field <;> decide

end Record

end ProblemIntake
