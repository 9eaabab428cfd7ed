import ProblemIntake.Header.Field

namespace ProblemIntake

/-- The values declared so far, one for each field, in the order the fields came in. -/
structure Record where
  entries : List (Field × String)
  nodup_fields : (entries.map Prod.fst).Nodup

namespace Record

def empty : Record := ⟨[], by simp⟩

def fields (r : Record) : List Field := r.entries.map Prod.fst

def size (r : Record) : Nat := r.entries.length

def isEmpty (r : Record) : Bool := r.entries.isEmpty

def get? (r : Record) (field : Field) : Option String := r.entries.lookup field

def contains (r : Record) (field : Field) : Bool := r.fields.contains field

/-- The entries with a value put in at the field's place, or at the end. -/
def put (field : Field) (value : String) : List (Field × String) → List (Field × String)
  | [] => [(field, value)]
  | e :: es => if e.1 = field then (field, value) :: es else e :: put field value es

theorem fields_put (field : Field) (value : String) (es : List (Field × String)) :
    (put field value es).map Prod.fst =
      if field ∈ es.map Prod.fst then es.map Prod.fst else es.map Prod.fst ++ [field] := by
  induction es with
  | nil => rfl
  | cons e es ih =>
    rw [put]
    split
    · simp_all
    · grind

theorem lookup_cons_eq_ite (e : Field × String) (es : List (Field × String)) (g : Field) :
    (e :: es).lookup g = if g = e.1 then some e.2 else es.lookup g := by
  rw [List.lookup_cons]
  by_cases same : g = e.1
  · rw [if_pos same, beq_iff_eq.mpr same]
  · rw [if_neg same, beq_eq_false_iff_ne.mpr same]

theorem lookup_put (field : Field) (value : String) (es : List (Field × String)) (g : Field) :
    (put field value es).lookup g = if g = field then some value else es.lookup g := by
  induction es with
  | nil => rw [put, lookup_cons_eq_ite]
  | cons e es ih =>
    rw [put]
    by_cases here : e.1 = field
    · rw [if_pos here, lookup_cons_eq_ite, lookup_cons_eq_ite, here]
      by_cases same : g = field <;> simp [same]
    · rw [if_neg here, lookup_cons_eq_ite, lookup_cons_eq_ite, ih]
      by_cases same : g = e.1
      · simp [same, here]
      · simp [same]

def set (r : Record) (field : Field) (value : String) : Record where
  entries := put field value r.entries
  nodup_fields := by
    have := r.nodup_fields
    rw [fields_put]
    split
    · assumption
    · rw [List.nodup_append]; grind

def erase (r : Record) (field : Field) : Record where
  entries := r.entries.filter (·.1 != field)
  nodup_fields := r.nodup_fields.sublist (List.filter_sublist.map _)

/-- Whether two records hold the same values, in whatever order. -/
def agrees (r s : Record) : Bool :=
  r.size == s.size && r.entries.all fun (field, value) => s.get? field == some value

theorem get?_empty (field : Field) : empty.get? field = none := rfl

theorem get?_set (r : Record) (field : Field) (value : String) (g : Field) :
    (r.set field value).get? g = if g = field then some value else r.get? g :=
  lookup_put field value r.entries g

theorem get?_erase (r : Record) (field g : Field) :
    (r.erase field).get? g = if g = field then none else r.get? g := by
  simp only [get?, erase]
  generalize r.entries = es
  induction es with
  | nil => simp
  | cons e es ih =>
    rw [lookup_cons_eq_ite, List.filter_cons]
    by_cases here : e.1 = field
    · rw [if_neg (by simp [here]), ih]
      by_cases same : g = field
      · rw [if_pos same, if_pos same]
      · rw [if_neg same, if_neg same, if_neg (here ▸ same)]
    · by_cases same : g = e.1
      · simp [here, same, lookup_cons_eq_ite]
      · simp [here, same, lookup_cons_eq_ite, ih]

theorem contains_eq_isSome_get? (r : Record) (field : Field) :
    r.contains field = (r.get? field).isSome := by
  rw [Bool.eq_iff_iff, get?, List.lookup_isSome_iff, contains, List.contains_iff_mem, fields,
    List.mem_map]
  exact exists_congr fun e => and_congr_right fun _ => by rw [beq_iff_eq, eq_comm]

theorem fields_set (r : Record) (field : Field) (value : String) :
    (r.set field value).fields =
      if field ∈ r.fields then r.fields else r.fields ++ [field] :=
  fields_put field value r.entries

theorem fields_erase (r : Record) (field : Field) :
    (r.erase field).fields = r.fields.filter (· != field) := by
  simp [fields, erase, List.filter_map, Function.comp_def]

end Record

end ProblemIntake
