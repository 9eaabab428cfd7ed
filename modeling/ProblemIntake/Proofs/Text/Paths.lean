import Mathlib.Data.List.TakeWhile
import ProblemIntake.Failure

/-! The language of a file is told by what follows the last dot of its name, and by nothing else of
the path: neither by the directories it is in, nor by slashes and single dots behind it. -/

namespace ProblemIntake

namespace Path

/-- Whether a part of a path leads anywhere. -/
def leads (part : List Char) : Bool := !part.isEmpty && part != ['.']

/-- The parts of a text between slashes that lead somewhere. -/
def parts (text : List Char) : List (List Char) := (text.splitOn '/').filter leads

theorem components_eq (path : String) : components path = parts path.toList := rfl

/-- A text that can be the name of a file in a directory. Two dots are such a text, even though they
name no file. -/
structure IsName (name : String) : Prop where
  nonempty : name ≠ ""
  whole : '/' ∉ name.toList
  moves : name ≠ "."

/-- Any number of slashes, each with a single dot behind it or not. -/
inductive Trail : List Char → Prop
  | nil : Trail []
  | slash {rest : List Char} (trail : Trail rest) : Trail ('/' :: rest)
  | dot {rest : List Char} (trail : Trail rest) : Trail ('/' :: '.' :: rest)

theorem parts_append_slash (before after : List Char) :
    parts (before ++ '/' :: after) = parts before ++ parts after := by
  rw [parts, List.splitOn_append_cons_self, List.filter_append, parts, parts]

/-- The induction is for any text before the trail: behind a slash this is nothing or a single dot,
neither of which leads anywhere. -/
theorem parts_append_trail {trail : List Char} (trails : Trail trail) (text : List Char) :
    parts (text ++ trail) = parts text := by
  have nowhere : parts [] = [] ∧ parts ['.'] = [] := by decide
  induction trails generalizing text with
  | nil => rw [List.append_nil]
  | slash _ ih =>
    have behind := ih []
    rw [List.nil_append, nowhere.1] at behind
    rw [parts_append_slash, behind, List.append_nil]
  | dot _ ih =>
    have behind := ih ['.']
    rw [List.singleton_append, nowhere.2] at behind
    rw [parts_append_slash, behind, List.append_nil]

theorem components_append_slash (dir rest : String) :
    components (dir ++ "/" ++ rest) = components dir ++ components rest := by
  have chars : (dir ++ "/" ++ rest).toList = dir.toList ++ '/' :: rest.toList := by
    rw [String.toList_append, String.toList_append, List.append_assoc]
    rfl
  rw [components_eq, chars, parts_append_slash, components_eq, components_eq]

theorem components_append_trail {trail : String} (trails : Trail trail.toList) (path : String) :
    components (path ++ trail) = components path := by
  rw [components_eq, String.toList_append, parts_append_trail trails, components_eq]

theorem components_of_isName {name : String} (named : IsName name) :
    components name = [name.toList] := by
  have nonempty : name.toList ≠ [] := mt String.toList_eq_nil_iff.mp named.nonempty
  have moves : name.toList ≠ ['.'] := fun dot => named.moves (String.toList_inj.mp dot)
  rw [components_eq, parts, List.splitOn_eq_singleton named.whole]
  simp [leads, nonempty, moves]

/-- The file of a path is the same in every directory, and with a trail behind it. -/
theorem fileName?_append {name trail : String} (named : IsName name) (trails : Trail trail.toList)
    (dir : String) :
    fileName? (dir ++ "/" ++ name) = fileName? name ∧
      fileName? (dir ++ "/" ++ name ++ trail) = fileName? name := by
  have inside : (components (dir ++ "/" ++ name)).getLast? = (components name).getLast? := by
    rw [components_append_slash, components_of_isName named, List.getLast?_concat,
      List.getLast?_singleton]
  constructor
  · rw [fileName?, inside, fileName?]
  · rw [fileName?, components_append_trail trails, inside, fileName?]

theorem splitLastDot?_append_dot {stem extension : List Char} (plain : '.' ∉ extension) :
    splitLastDot? (stem ++ '.' :: extension) = some (stem, extension) := by
  have passed : ∀ c ∈ extension.reverse, (c != '.') = true := by
    intro c mem
    exact bne_iff_ne.mpr fun dot => plain (dot ▸ List.mem_reverse.mp mem)
  have backwards :
      (stem ++ '.' :: extension).reverse = extension.reverse ++ '.' :: stem.reverse := by simp
  rw [splitLastDot?, backwards, List.dropWhile_append_of_pos passed,
    List.takeWhile_append_of_pos passed]
  simp

theorem splitLastDot?_of_plain {name : List Char} (plain : '.' ∉ name) :
    splitLastDot? name = none := by
  have passed : name.reverse.dropWhile (· != '.') = [] := by
    rw [List.dropWhile_eq_nil_iff]
    intro c mem
    exact bne_iff_ne.mpr fun dot => plain (dot ▸ List.mem_reverse.mp mem)
  rw [splitLastDot?, passed]

/-- A name with a dot in it and something before that dot. -/
theorem isName_append_dot {stem extension : String} (before : stem ≠ "")
    (inside : '/' ∉ stem.toList) (whole : '/' ∉ extension.toList) :
    IsName (stem ++ "." ++ extension) where
  nonempty := by simp [before]
  whole := by simp [inside, whole]
  moves := by
    intro dot
    have lengths := congrArg String.length dot
    have positive : stem.length ≠ 0 := mt String.length_eq_zero_iff.mp before
    simp at lengths
    omega

/-- What follows the last dot of a name is its extension, if anything stands before that dot. Two
dots alone name no file. -/
theorem extension?_append_dot {stem extension : String} (before : stem ≠ "")
    (inside : '/' ∉ stem.toList) (plain : '.' ∉ extension.toList)
    (whole : '/' ∉ extension.toList) :
    extension? (stem ++ "." ++ extension) =
      if stem = "." ∧ extension = "" then none else some extension := by
  have chars : (stem ++ "." ++ extension).toList = stem.toList ++ '.' :: extension.toList := by
    rw [String.toList_append, String.toList_append, List.append_assoc]
    rfl
  obtain ⟨c, cs, first⟩ := List.exists_cons_of_ne_nil (mt String.toList_eq_nil_iff.mp before)
  split
  case isTrue dots =>
    obtain ⟨rfl, rfl⟩ := dots
    decide
  case isFalse other =>
    have named : (stem ++ "." ++ extension).toList ≠ ['.', '.'] := by
      intro dots
      rw [chars, first, List.cons_append, List.cons.injEq] at dots
      obtain ⟨rfl, rest⟩ := dots
      obtain ⟨rfl, last⟩ | ⟨-, none⟩ := List.append_eq_singleton_iff.mp rest
      · have empty := String.toList_eq_nil_iff.mp (List.cons.inj last).2
        exact other ⟨String.toList_inj.mp first, empty⟩
      · exact List.cons_ne_nil _ _ none
    rw [extension?, fileName?, components_of_isName (isName_append_dot before inside whole)]
    simp only [List.getLast?_singleton, Option.filter, bne_iff_ne.mpr named, if_true,
      Option.bind_some]
    rw [chars, splitLastDot?_append_dot plain, first]
    simp

/-- Every part of a text is made of characters of the text. -/
theorem mem_of_mem_splitOn {text part : List Char} {c : Char} (among : part ∈ text.splitOn '/')
    (mem : c ∈ part) : c ∈ text := by
  induction text generalizing part with
  | nil =>
    rw [List.splitOn_nil, List.mem_singleton] at among
    rwa [← among]
  | cons d text ih =>
    rw [List.splitOn_cons_eq_if_modifyHead] at among
    split at among
    · obtain rfl | among := List.mem_cons.mp among
      · exact absurd mem List.not_mem_nil
      · exact List.mem_cons_of_mem _ (ih among mem)
    · obtain ⟨first, others, split⟩ := List.exists_cons_of_ne_nil (List.splitOn_ne_nil '/' text)
      rw [split] at among ih
      obtain rfl | among := List.mem_cons.mp among
      · obtain rfl | mem := List.mem_cons.mp mem
        · exact List.mem_cons_self
        · exact List.mem_cons_of_mem _ (ih List.mem_cons_self mem)
      · exact List.mem_cons_of_mem _ (ih (List.mem_cons_of_mem _ among) mem)

/-- The file name is one of the parts between slashes. -/
theorem mem_splitOn_of_fileName? {path : String} {name : List Char}
    (named : fileName? path = some name) : name ∈ path.toList.splitOn '/' := by
  have last := (Option.filter_eq_some_iff.mp named).1
  exact (List.mem_filter.mp (List.mem_of_getLast? last)).1

/-- A path has no extension if no part of it has a dot other than its first character. -/
theorem extension?_eq_none {path : String}
    (starts : ∀ part ∈ path.toList.splitOn '/', '.' ∉ part.tail) : extension? path = none := by
  cases named : fileName? path with
  | none => rw [extension?, named, Option.bind_none]
  | some name =>
    have plain := starts name (mem_splitOn_of_fileName? named)
    rw [extension?, named, Option.bind_some]
    cases name with
    | nil => rw [splitLastDot?_of_plain List.not_mem_nil]
    | cons c rest =>
      rw [List.tail_cons] at plain
      by_cases dot : c = '.'
      · have split : splitLastDot? ([] ++ '.' :: rest) = some ([], rest) :=
          splitLastDot?_append_dot plain
        rw [dot, ← List.nil_append ('.' :: rest), split]
      · rw [splitLastDot?_of_plain (List.not_mem_cons_of_ne_of_not_mem (Ne.symm dot) plain)]

/-- A path without a dot has no extension. -/
theorem extension?_of_plain {path : String} (plain : '.' ∉ path.toList) :
    extension? path = none := by
  apply extension?_eq_none
  intro part among dot
  exact plain (mem_of_mem_splitOn among (List.mem_of_mem_tail dot))

/-- A path whose only dot is its first character has no extension. -/
theorem extension?_of_hidden {rest : String} (plain : '.' ∉ rest.toList) :
    extension? ("." ++ rest) = none := by
  apply extension?_eq_none
  obtain ⟨first, others, split⟩ :=
    List.exists_cons_of_ne_nil (List.splitOn_ne_nil '/' rest.toList)
  have parts : ("." ++ rest).toList.splitOn '/' = ('.' :: first) :: others := by
    have chars : ("." ++ rest).toList = '.' :: rest.toList := String.toList_append
    rw [chars, List.splitOn_cons_eq_if_modifyHead, split]
    rfl
  -- past the leading dot the parts are those of the text behind it
  intro part among dot
  rw [parts] at among
  apply plain
  obtain rfl | among := List.mem_cons.mp among
  · exact mem_of_mem_splitOn (split ▸ List.mem_cons_self) dot
  · exact mem_of_mem_splitOn (split ▸ List.mem_cons_of_mem _ among) (List.mem_of_mem_tail dot)

end Path

/-! ## Languages of files -/

namespace Language

/-- Telling the language of a path fails exactly if the path announces none, and names the path. -/
theorem detect_eq_iff (path : String) :
    (∀ language, detect path = .ok language ↔ ofPath? path = some language) ∧
      ∀ failure, detect path = .error failure ↔
        ofPath? path = none ∧ failure = .unknownExtension path := by
  rw [detect]
  cases ofPath? path with
  | none => simp [eq_comm]
  | some language => simp

/-- The language of a path is told by what follows the last dot of its file name. Whatever directory
the file is in, and whatever slashes and single dots follow its name, the answer is the same; a name
without a dot, or with its only dot in front, tells none. -/
theorem told_by_extension :
    (∀ dir name trail : String, Path.IsName name → Path.Trail trail.toList →
      ofPath? (dir ++ "/" ++ name) = ofPath? name ∧
        ofPath? (dir ++ "/" ++ name ++ trail) = ofPath? name) ∧
    (∀ stem extension : String, stem ≠ "" → '/' ∉ stem.toList →
      '.' ∉ extension.toList → '/' ∉ extension.toList →
        ofPath? (stem ++ "." ++ extension) = ofExtension? extension) ∧
    (∀ name : String, '.' ∉ name.toList → ofPath? name = none) ∧
    (∀ rest : String, '.' ∉ rest.toList → ofPath? ("." ++ rest) = none) ∧
    ∀ path : String,
      (∀ language, detect path = .ok language ↔ ofPath? path = some language) ∧
        ∀ failure, detect path = .error failure ↔
          ofPath? path = none ∧ failure = .unknownExtension path := by
  refine ⟨?_, ?_, ?_, ?_, detect_eq_iff⟩
  · intro dir name trail named trails
    obtain ⟨inside, behind⟩ := Path.fileName?_append named trails dir
    simp only [ofPath?, Path.extension?, inside, behind, and_self]
  · intro stem extension before inside plain whole
    rw [ofPath?, Path.extension?_append_dot before inside plain whole]
    split
    case isTrue dots =>
      rw [dots.2]
      decide
    case isFalse => rfl
  · intro name plain
    rw [ofPath?, Path.extension?_of_plain plain, Option.bind_none]
  · intro rest plain
    rw [ofPath?, Path.extension?_of_hidden plain, Option.bind_none]

/-- Neither a directory with a dot in its name nor the slashes behind the file mislead. -/
theorem dotted_directory_ignored :
    Path.IsName "x.cnf" ∧ Path.Trail "/.//".toList ∧
      ofPath? ("a.zf/.." ++ "/" ++ "x.cnf" ++ "/.//") = some .dimacs ∧
      ofPath? "README" = none ∧ ofPath? ("." ++ "cnf") = none := by
  obtain ⟨placed, split, plain, hidden, -⟩ := told_by_extension
  have named : Path.IsName "x.cnf" := ⟨by decide, by decide, by decide⟩
  have trails : Path.Trail "/.//".toList := .dot (.slash (.slash .nil))
  have known : ofPath? ("x" ++ "." ++ "cnf") = some .dimacs := by
    rw [split "x" "cnf" (by decide) (by decide) (by decide) (by decide)]
    decide
  refine ⟨named, trails, ?_, plain "README" (by decide), hidden "cnf" (by decide)⟩
  rw [(placed "a.zf/.." "x.cnf" "/.//" named trails).2]
  exact known

end Language

end ProblemIntake
