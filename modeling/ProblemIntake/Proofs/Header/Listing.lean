import Mathlib.Data.List.DropRight
import ProblemIntake.Header.Record

/-! Where a field stands in a record can be told from a history of the record: a field is opened by
some entries, closed by others, and has the position of the first entry that opened it since it
was last closed. -/

namespace ProblemIntake

section Histories

variable {α β : Type} {opens closes : α → Bool} {e : α}

theorem getLast?_filterMap_concat (says? : α → Option β) (entries : List α) (e : α) :
    ((entries ++ [e]).filterMap says?).getLast? =
      (says? e).or (entries.filterMap says?).getLast? := by
  rw [List.filterMap_append, List.getLast?_append]
  cases said : says? e <;> simp [said]

/-- The position of the first entry that opens, among those after the last one that closes. -/
def openedAt? (opens closes : α → Bool) (entries : List α) : Option Nat :=
  let since := entries.rtakeWhile (!closes ·)
  (since.findIdx? opens).map (entries.length - since.length + ·)

theorem openedAt?_concat_of_closes (closed : closes e = true) (entries : List α) :
    openedAt? opens closes (entries ++ [e]) = none := by
  have since : (entries ++ [e]).rtakeWhile (!closes ·) = [] :=
    List.rtakeWhile_concat_neg _ _ _ (by simp [closed])
  rw [openedAt?, since]
  rfl

/-- A further entry opens, unless it is open already. -/
theorem openedAt?_concat (keeps : closes e = false) (entries : List α) :
    openedAt? opens closes (entries ++ [e]) =
      (openedAt? opens closes entries).or (if opens e then some entries.length else none) := by
  have since : (entries ++ [e]).rtakeWhile (!closes ·) = entries.rtakeWhile (!closes ·) ++ [e] :=
    List.rtakeWhile_concat_pos _ _ _ (by simp [keeps])
  -- Positions count from the first of all entries, so those before `since` are added.
  have shorter := (List.rtakeWhile_suffix (!closes ·) entries).length_le
  simp only [openedAt?, since, List.findIdx?_append, List.length_append, List.length_singleton,
    List.findIdx?_singleton]
  generalize entries.rtakeWhile (!closes ·) = recent at shorter
  have offset : entries.length + 1 - (recent.length + 1) = entries.length - recent.length := by
    omega
  have last : entries.length - recent.length + recent.length = entries.length := by omega
  rw [offset]
  cases recent.findIdx? opens with
  | some i => rfl
  | none =>
    by_cases opened : opens e
    · simp [opened, last]
    · simp [opened]

theorem openedAt?_lt {entries : List α} {i : Nat}
    (opened : openedAt? opens closes entries = some i) : i < entries.length := by
  induction entries using List.reverseRecOn generalizing i with
  | nil => cases opened
  | append_singleton entries e ih =>
    rw [List.length_append, List.length_singleton]
    cases closed : closes e with
    | true =>
      rw [openedAt?_concat_of_closes closed] at opened
      cases opened
    | false =>
      rw [openedAt?_concat closed, Option.or_eq_some_iff] at opened
      rcases opened with before | ⟨_, now⟩
      · exact Nat.lt_succ_of_lt (ih before)
      · split at now
        · cases now
          exact Nat.lt_succ_self _
        · cases now

end Histories

/-- Both fields have a position, and the first field's is the smaller one. -/
def Precedes (position : Field → Option Nat) (f g : Field) : Prop :=
  ∃ i j, position f = some i ∧ position g = some j ∧ i < j

/-- The fields are those that have a position, listed by it. -/
structure Listed (position : Field → Option Nat) (fields : List Field) : Prop where
  mem_iff : ∀ field, field ∈ fields ↔ position field ≠ none
  order : fields.Pairwise (Precedes position)

namespace Listed

variable {position later : Field → Option Nat} {fields : List Field} {field : Field}

/-- A field that is closed leaves the others as they are listed. -/
theorem erase (listed : Listed position fields) (closed : later field = none)
    (others : ∀ f, f ≠ field → later f = position f) :
    Listed later (fields.filter (· != field)) := by
  constructor
  · intro f
    rw [List.mem_filter, bne_iff_ne, listed.mem_iff]
    by_cases same : f = field
    · rw [same, closed]
      exact iff_of_false (fun held => held.2 rfl) (· rfl)
    · rw [others f same]
      exact and_iff_left same
  · refine (listed.order.filter _).imp_of_mem fun {f g} mem mem' precedes => ?_
    rw [List.mem_filter, bne_iff_ne] at mem mem'
    rwa [Precedes, others f mem.2, others g mem'.2]

/-- A field that is opened comes last, and keeps its place if it is open already. -/
theorem insert (listed : Listed position fields) {now : Nat}
    (past : ∀ f i, position f = some i → i < now)
    (opened : ∀ f, later f = (position f).or (if f = field then some now else none)) :
    Listed later (if field ∈ fields then fields else fields ++ [field]) := by
  have kept {f : Field} {i : Nat} (held : position f = some i) : later f = some i := by
    rw [opened, held, Option.some_or]
  have older : fields.Pairwise (Precedes later) := by
    refine listed.order.imp fun precedes => ?_
    obtain ⟨i, j, first, second, lt⟩ := precedes
    exact ⟨i, j, kept first, kept second, lt⟩
  have open_iff (f : Field) : later f ≠ none ↔ f ∈ fields ∨ f = field := by
    rw [opened, listed.mem_iff]
    by_cases same : f = field <;> simp [same]
  by_cases held : field ∈ fields
  · rw [if_pos held]
    refine ⟨fun f => ?_, older⟩
    rw [open_iff]
    exact ⟨.inl, fun mem => mem.elim id fun same => same ▸ held⟩
  · rw [if_neg held]
    constructor
    · intro f
      rw [open_iff, List.mem_append, List.mem_singleton]
    · rw [List.pairwise_append]
      refine ⟨older, List.pairwise_singleton _ _, fun f mem g last => ?_⟩
      have fresh : position field = none := not_not.mp (mt (listed.mem_iff field).mpr held)
      obtain ⟨i, first⟩ := Option.ne_none_iff_exists'.mp ((listed.mem_iff f).mp mem)
      rw [List.mem_singleton.mp last]
      refine ⟨i, now, kept first, ?_, past f i first⟩
      rw [opened, fresh, if_pos rfl, Option.none_or]

end Listed

namespace Record

variable {r : Record} {field : Field}

theorem nodup (r : Record) : r.fields.Nodup := r.nodup_fields

theorem mem_fields_iff : field ∈ r.fields ↔ r.get? field ≠ none := by
  rw [← List.contains_iff_mem, Option.ne_none_iff_isSome, ← contains_eq_isSome_get?]
  rfl

theorem mem_entries_iff {value : String} :
    (field, value) ∈ r.entries ↔ r.get? field = some value := by
  rw [get?, List.lookup_eq_some_iff]
  constructor
  · intro mem
    obtain ⟨front, back, split⟩ := List.append_of_mem mem
    refine ⟨front, back, split, fun e among => ?_⟩
    have nodup := r.nodup_fields
    rw [split, List.map_append, List.map_cons, List.nodup_append] at nodup
    have apart := nodup.2.2 e.1 (List.mem_map_of_mem among) field List.mem_cons_self
    simpa using Ne.symm apart
  · rintro ⟨front, back, split, -⟩
    simp [split]

end Record

end ProblemIntake
