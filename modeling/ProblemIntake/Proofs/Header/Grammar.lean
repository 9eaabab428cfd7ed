import Mathlib.Logic.Basic
import ProblemIntake.Header.Reading
import ProblemIntake.Proofs.Term.Views

/-! Every term is one of three things to the headers: it declares a field, or it uses the keyword
of a field in another way, or it does not concern them. The keywords and the faults are listed
here anew, so that the readings are compared with a grammar of their own. -/

namespace ProblemIntake

namespace Term

variable {ℓ : Type} {t : Term ℓ}

/-- The term is the keyword alone, or the keyword applied to the arguments. -/
inductive Invokes (t : Term ℓ) (keyword : String) : List (Term ℓ) → Prop
  | alone (bare : t.shape = .symbol (.attr keyword)) : Invokes t keyword []
  | applied {head : Term ℓ} {args : List (Term ℓ)} (application : t.shape = .app head args)
      (keyed : head.shape = .symbol (.attr keyword)) : Invokes t keyword args

theorem attribute?_eq_some_iff {keyword : String} {args : List (Term ℓ)} :
    t.attribute? = some (keyword, args) ↔ t.Invokes keyword args := by
  constructor
  · intro found
    unfold attribute? at found
    split at found
    · rename_i head args' application
      obtain ⟨keyword', keyed, same⟩ := Option.map_eq_some_iff.mp found
      cases same
      exact .applied application (keyword?_eq_some_iff.mp keyed)
    · obtain ⟨keyword', bare, same⟩ := Option.map_eq_some_iff.mp found
      cases same
      exact .alone (keyword?_eq_some_iff.mp bare)
  · intro invokes
    unfold attribute?
    cases invokes with
    | alone bare =>
      rw [bare, keyword?_eq_some_iff.mpr bare]
      rfl
    | applied application keyed =>
      rw [application]
      dsimp only
      rw [keyword?_eq_some_iff.mpr keyed]
      rfl

theorem Invokes.unique {keyword keyword' : String} {args args' : List (Term ℓ)}
    (invokes : t.Invokes keyword args) (invokes' : t.Invokes keyword' args') :
    keyword = keyword' ∧ args = args' := by
  have found := attribute?_eq_some_iff.mpr invokes
  rw [attribute?_eq_some_iff.mpr invokes'] at found
  cases found
  exact ⟨rfl, rfl⟩

end Term

namespace Field

variable {language : Option Language} {field : Field} {keyword : String}

/-- The symbols that are values of the field. A status may live in any namespace. -/
def Takes : Field → Symbol → Prop
  | .languageVersion, s | .problemVersion, s => s.space = .literal .decimal
  | .source, s => s.space = .attr
  | .license, s | .category, s => s.space = .literal .string
  | .status, s => s.name ∈ ["sat", "unsat", "unknown"]

theorem value?_eq_some_iff {t : Pooled} {value : String} :
    field.value? t = some value ↔ ∃ s, t.shape = .symbol s ∧ field.Takes s ∧ s.name = value := by
  have spaced (space : Namespace) : t.shape = .symbol ⟨value, space⟩ ↔
      ∃ s, t.shape = .symbol s ∧ s.space = space ∧ s.name = value := by
    constructor
    · intro shape
      exact ⟨_, shape, rfl, rfl⟩
    · rintro ⟨s, shape, rfl, rfl⟩
      exact shape
  cases field with
  | languageVersion | problemVersion => exact Term.literal?_eq_some_iff.trans (spaced _)
  | source => exact Term.keyword?_eq_some_iff.trans (spaced _)
  | license | category => exact Term.literal?_eq_some_iff.trans (spaced _)
  | status =>
    rw [value?, Option.filter_eq_some_iff, Option.map_eq_some_iff, List.contains_iff_mem]
    constructor
    · rintro ⟨⟨s, symbol, rfl⟩, listed⟩
      exact ⟨s, Term.symbol?_eq_some_iff.mp symbol, listed, rfl⟩
    · rintro ⟨s, shape, listed, rfl⟩
      exact ⟨⟨s, Term.symbol?_eq_some_iff.mpr shape, rfl⟩, listed⟩

/-- The keywords that declare fields. Only SMT-LIB has any, and none for the version of a
problem. -/
inductive Keyed : Option Language → Field → String → Prop
  | languageVersion : Keyed (some .smtlib) .languageVersion ":smt-lib-version"
  | source : Keyed (some .smtlib) .source ":source"
  | license : Keyed (some .smtlib) .license ":license"
  | category : Keyed (some .smtlib) .category ":category"
  | status : Keyed (some .smtlib) .status ":status"

theorem keyword?_eq_some_iff :
    field.keyword? language = some keyword ↔ Keyed language field keyword := by
  constructor
  · intro own
    unfold keyword? at own
    split at own
    case h_6 => cases own
    all_goals
      cases own
      constructor
  · intro keyed
    cases keyed <;> rfl

theorem keyed_of_keyword?_ne_none (keyed : field.keyword? language ≠ none) :
    language = some .smtlib ∧ field ≠ .problemVersion := by
  obtain ⟨keyword, own⟩ := Option.ne_none_iff_exists'.mp keyed
  cases keyword?_eq_some_iff.mp own <;> exact ⟨rfl, nofun⟩

theorem Keyed.smtlib (keyed : Keyed language field keyword) : language = some .smtlib := by
  cases keyed <;> rfl

theorem Keyed.unique {other : Field} (keyed : Keyed language field keyword)
    (keyed' : Keyed language other keyword) : field = other := by
  generalize same : keyword = keyword' at keyed'
  cases keyed <;> cases keyed' <;> first | rfl | exact absurd same (by decide)

/-- What is wrong with arguments that are not one value of the field. Every field but the status
says so if there is no value at all. -/
inductive Flawed (keyword : String) : Field → List Pooled → Fault → Prop
  | empty {field : Field} (valued : field ≠ .status) :
      Flawed keyword field [] (.emptyValue keyword)
  | languageVersion {v : Pooled} {rest : List Pooled} :
      Flawed keyword .languageVersion (v :: rest) .expectedVersion
  | source {v : Pooled} {rest : List Pooled} : Flawed keyword .source (v :: rest) .expectedSymbol
  | license {v : Pooled} {rest : List Pooled} : Flawed keyword .license (v :: rest) .expectedString
  | category {v : Pooled} {rest : List Pooled} :
      Flawed keyword .category (v :: rest) .expectedString
  | status {args : List Pooled} : Flawed keyword .status args .expectedStatus

theorem ofKeyword?_eq_some_iff :
    ofKeyword? language keyword = some field ↔ Keyed language field keyword := by
  have matched {other : Field} (found : ofKeyword? language keyword = some other) :
      Keyed language other keyword := by
    have same := List.find?_some found
    exact keyword?_eq_some_iff.mp (eq_of_beq same)
  constructor
  · exact matched
  · intro keyed
    have listed : (ofKeyword? language keyword).isSome := by
      rw [ofKeyword?, List.find?_isSome]
      exact ⟨field, Spelled.mem_all field, beq_iff_eq.mpr (keyword?_eq_some_iff.mpr keyed)⟩
    obtain ⟨other, found⟩ := Option.isSome_iff_exists.mp listed
    rw [found, keyed.unique (matched found)]

end Field

namespace Term

/-- The term uses the field's keyword, with these arguments. -/
structure Addresses (language : Option Language) (t : Pooled) (field : Field) (keyword : String)
    (args : List Pooled) : Prop where
  own : Field.Keyed language field keyword
  invokes : t.Invokes keyword args

/-- The term applies the field's keyword to one symbol, which the field takes as its value. -/
inductive Declares (language : Option Language) (t : Pooled) (field : Field) : String → Prop
  | intro {head v : Pooled} {keyword : String} {s : Symbol} (application : t.shape = .app head [v])
      (keyed : head.shape = .symbol (.attr keyword))
      (own : Field.Keyed language field keyword)
      (valued : v.shape = .symbol s) (takes : field.Takes s) : Declares language t field s.name

/-- The term uses the field's keyword, but declares nothing. -/
structure Misuses (language : Option Language) (t : Pooled) (field : Field) (keyword : String)
    (args : List Pooled) : Prop extends Addresses language t field keyword args where
  undeclared : ∀ other value, ¬ t.Declares language other value

variable {language : Option Language} {t : Pooled} {field field' : Field}
  {keyword keyword' : String} {args args' : List Pooled} {value value' : String}

theorem Addresses.smtlib (addresses : t.Addresses language field keyword args) :
    language = some .smtlib := addresses.own.smtlib

theorem Addresses.unique (addresses : t.Addresses language field keyword args)
    (addresses' : t.Addresses language field' keyword' args') :
    field = field' ∧ keyword = keyword' ∧ args = args' := by
  obtain ⟨rfl, rfl⟩ := addresses.invokes.unique addresses'.invokes
  exact ⟨addresses.own.unique addresses'.own, rfl, rfl⟩

theorem declares_iff :
    t.Declares language field value ↔
      ∃ keyword v, t.Addresses language field keyword [v] ∧ field.value? v = some value := by
  constructor
  · rintro ⟨application, keyed, own, valued, takes⟩
    exact ⟨_, _, ⟨own, .applied application keyed⟩,
      Field.value?_eq_some_iff.mpr ⟨_, valued, takes, rfl⟩⟩
  · rintro ⟨keyword, v, ⟨own, invokes⟩, read⟩
    obtain ⟨s, valued, takes, rfl⟩ := Field.value?_eq_some_iff.mp read
    cases invokes with
    | applied application keyed => exact ⟨application, keyed, own, valued, takes⟩

theorem Declares.addresses (declares : t.Declares language field value) :
    ∃ keyword v, t.Addresses language field keyword [v] := by
  obtain ⟨keyword, v, addresses, _⟩ := declares_iff.mp declares
  exact ⟨keyword, v, addresses⟩

theorem Declares.unique (declares : t.Declares language field value)
    (declares' : t.Declares language field' value') : field = field' ∧ value = value' := by
  obtain ⟨_, v, addresses, read⟩ := declares_iff.mp declares
  obtain ⟨_, v', addresses', read'⟩ := declares_iff.mp declares'
  obtain ⟨rfl, _, same⟩ := addresses.unique addresses'
  cases same
  exact ⟨rfl, Option.some.inj (read.symm.trans read')⟩

end Term

/-! ## Readings -/

namespace Reading

variable {language : Option Language} {t : Pooled} {field : Field} {keyword : String}
  {args : List Pooled}

/-- A field's keyword is read by its arguments. -/
theorem ofTerm_of_addresses (addresses : t.Addresses language field keyword args) :
    ofTerm language t = ofArguments t field keyword args := by
  rw [ofTerm, Term.attribute?_eq_some_iff.mpr addresses.invokes]
  dsimp only
  rw [Field.ofKeyword?_eq_some_iff.mpr addresses.own]

theorem ofTerm_of_not_addresses
    (silent : ¬ ∃ field keyword args, t.Addresses language field keyword args) :
    ofTerm language t = .other := by
  unfold ofTerm
  split
  · rename_i keyword args applied
    split
    · rename_i field known
      exact absurd ⟨field, keyword, args, Field.ofKeyword?_eq_some_iff.mp known,
        Term.attribute?_eq_some_iff.mp applied⟩ silent
    · rfl
  · rfl

/-- Where a header is blamed that declares nothing: on its first argument, if there is one and its
place is known. -/
def blamed (t : Pooled) (args : List Pooled) : Option Span :=
  (args.head?.bind Term.loc).or t.loc

/-- What is found wrong with it. -/
def flaw (field : Field) (keyword : String) (args : List Pooled) : Fault :=
  if args.isEmpty then field.emptyFault keyword else field.fault

theorem eq_flaw_iff (own : Field.Keyed language field keyword) {fault : Fault} :
    fault = flaw field keyword args ↔ Field.Flawed keyword field args fault := by
  constructor
  · rintro rfl
    cases own <;> cases args <;> constructor
    all_goals exact nofun
  · intro flawed
    cases flawed with
    | empty valued => cases field <;> first | rfl | exact absurd rfl valued
    | languageVersion | source | license | category => rfl
    | status => cases args <;> rfl

theorem ofArguments_of_value? {v : Pooled} {value : String} (read : field.value? v = some value) :
    ofArguments t field keyword [v] = .declares field value := by
  rw [ofArguments, read]

theorem ofArguments_of_unread (unread : ∀ v, args = [v] → field.value? v = none) :
    ofArguments t field keyword args = .malformed (blamed t args) (flaw field keyword args) := by
  match args with
  | [] => rfl
  | [v] =>
    rw [ofArguments, unread v rfl]
    rfl
  | v :: w :: rest => rfl

/-- A term declares a field, or misuses the keyword of one, or uses none. -/
theorem ofTerm_cases (language : Option Language) (t : Pooled) :
    (∃ field value, t.Declares language field value ∧ ofTerm language t = .declares field value) ∨
    (∃ field keyword args, t.Misuses language field keyword args ∧
      ofTerm language t = .malformed (blamed t args) (flaw field keyword args)) ∨
    (¬ ∃ field keyword args, t.Addresses language field keyword args) ∧
      ofTerm language t = .other := by
  by_cases concerns : ∃ field keyword args, t.Addresses language field keyword args
  · obtain ⟨field, keyword, args, addresses⟩ := concerns
    rw [ofTerm_of_addresses addresses]
    by_cases declared : ∃ other value, t.Declares language other value
    · obtain ⟨other, value, declares⟩ := declared
      obtain ⟨_, v, addresses', read⟩ := Term.declares_iff.mp declares
      obtain ⟨rfl, rfl, rfl⟩ := addresses.unique addresses'
      exact .inl ⟨field, value, declares, ofArguments_of_value? read⟩
    · have undeclared : ∀ other value, ¬ t.Declares language other value :=
        fun other value declares => declared ⟨other, value, declares⟩
      refine .inr (.inl ⟨field, keyword, args, ⟨addresses, undeclared⟩, ?_⟩)
      refine ofArguments_of_unread fun v same => ?_
      rw [Option.eq_none_iff_forall_ne_some]
      intro value read
      exact undeclared field value (Term.declares_iff.mpr ⟨keyword, v, same ▸ addresses, read⟩)
  · exact .inr (.inr ⟨concerns, ofTerm_of_not_addresses concerns⟩)

theorem ofTerm_eq_declares_iff {value : String} :
    ofTerm language t = .declares field value ↔ t.Declares language field value := by
  rcases ofTerm_cases language t with
    ⟨other, value', declares, reads⟩ | ⟨_, _, _, misuses, reads⟩ | ⟨silent, reads⟩
  · rw [reads]
    constructor
    · intro same
      cases same
      exact declares
    · intro declares'
      obtain ⟨rfl, rfl⟩ := declares.unique declares'
      rfl
  · rw [reads]
    exact ⟨nofun, fun declares => absurd declares (misuses.undeclared field value)⟩
  · rw [reads]
    refine ⟨nofun, fun declares => ?_⟩
    obtain ⟨keyword, v, addresses⟩ := declares.addresses
    exact absurd ⟨field, keyword, [v], addresses⟩ silent

theorem ofTerm_eq_malformed_iff {place : Option Span} {fault : Fault} :
    ofTerm language t = .malformed place fault ↔
      ∃ field keyword args, t.Misuses language field keyword args ∧
        place = blamed t args ∧ fault = flaw field keyword args := by
  rcases ofTerm_cases language t with
    ⟨other, value', declares, reads⟩ | ⟨field, keyword, args, misuses, reads⟩ | ⟨silent, reads⟩
  · rw [reads]
    refine ⟨nofun, ?_⟩
    rintro ⟨_, _, _, misuses, _⟩
    exact absurd declares (misuses.undeclared other value')
  · rw [reads]
    constructor
    · intro same
      cases same
      exact ⟨field, keyword, args, misuses, rfl, rfl⟩
    · rintro ⟨_, _, _, misuses', rfl, rfl⟩
      obtain ⟨rfl, rfl, rfl⟩ := misuses.unique misuses'.toAddresses
      rfl
  · rw [reads]
    refine ⟨nofun, ?_⟩
    rintro ⟨field, keyword, args, misuses, _⟩
    exact absurd ⟨field, keyword, args, misuses.toAddresses⟩ silent

theorem ofTerm_eq_other_iff :
    ofTerm language t = .other ↔
      ¬ ∃ field keyword args, t.Addresses language field keyword args := by
  rcases ofTerm_cases language t with
    ⟨other, value, declares, reads⟩ | ⟨field, keyword, args, misuses, reads⟩ | ⟨silent, reads⟩
  · rw [reads]
    obtain ⟨keyword, v, addresses⟩ := declares.addresses
    exact ⟨nofun, fun silent => absurd ⟨other, keyword, [v], addresses⟩ silent⟩
  · rw [reads]
    exact ⟨nofun, fun silent => absurd ⟨field, keyword, args, misuses.toAddresses⟩ silent⟩
  · exact ⟨fun _ => silent, fun _ => reads⟩

/-- **Headers are read exactly.** A term declares a field if and only if the language is SMT-LIB and
the term applies the field's keyword to one value of the right form; what is declared is the name of
that symbol, verbatim. A term that uses the keyword of a field in any other way is malformed: its
first argument is blamed if that has a place, and the whole term otherwise, and the fault is that of
the field, or that there is no value. Every other term is no header. -/
theorem headers_read_exactly (language : Option Language) (t : Pooled) :
    (∀ field value, ofTerm language t = .declares field value ↔
      language = some .smtlib ∧ t.Declares (some .smtlib) field value) ∧
    (∀ place fault, ofTerm language t = .malformed place fault ↔
      language = some .smtlib ∧ ∃ field keyword args,
        t.Misuses (some .smtlib) field keyword args ∧
          place = blamed t args ∧ Field.Flawed keyword field args fault) ∧
    (ofTerm language t = .other ↔
      ¬ (language = some .smtlib ∧
        ∃ field keyword args, t.Addresses (some .smtlib) field keyword args)) := by
  refine ⟨fun field value => ?_, fun place fault => ?_, ?_⟩
  · rw [ofTerm_eq_declares_iff]
    constructor
    · intro declares
      obtain ⟨_, _, addresses⟩ := declares.addresses
      obtain rfl := addresses.smtlib
      exact ⟨rfl, declares⟩
    · rintro ⟨rfl, declares⟩
      exact declares
  · rw [ofTerm_eq_malformed_iff]
    constructor
    · rintro ⟨field, keyword, args, misuses, placed, flawed⟩
      obtain rfl := misuses.smtlib
      exact ⟨rfl, field, keyword, args, misuses, placed, (eq_flaw_iff misuses.own).mp flawed⟩
    · rintro ⟨rfl, field, keyword, args, misuses, placed, flawed⟩
      exact ⟨field, keyword, args, misuses, placed, (eq_flaw_iff misuses.own).mpr flawed⟩
  · rw [ofTerm_eq_other_iff, not_iff_not]
    constructor
    · rintro ⟨field, keyword, args, addresses⟩
      obtain rfl := addresses.smtlib
      exact ⟨rfl, field, keyword, args, addresses⟩
    · rintro ⟨rfl, addressed⟩
      exact addressed

/-- A status is declared by a symbol of any namespace. A license alone has no value, and of two
sources the first is blamed. In another language than SMT-LIB all this is no header. -/
theorem status_declared_license_empty :
    let place (line column : Nat) : Option Span := some ⟨⟨line, column⟩, ⟨line, column⟩⟩
    let term (number : Nat) (loc : Option Span) (shape : Shape Pooled) : Pooled :=
      .mk ⟨number, loc⟩ shape
    let key (name : String) : Shape Pooled := .symbol (.attr name)
    let status := term 4 none (.app (term 2 none (key ":status"))
      [term 3 none (.symbol (.term "sat"))])
    let license := term 5 (place 2 11) (key ":license")
    let values := [term 7 (place 3 20) (.symbol (.term "a")), term 8 (place 3 22) (key "b")]
    let source := term 9 (place 3 11) (.app (term 6 none (key ":source")) values)
    ofTerm (some .smtlib) status = .declares .status "sat" ∧
    ofTerm (some .smtlib) license = .malformed (place 2 11) (.emptyValue ":license") ∧
    (Fault.emptyValue ":license").text = "empty value for :license" ∧
    ofTerm (some .smtlib) source = .malformed (place 3 20) .expectedSymbol ∧
    ofTerm (some .tptp) status = .other := by
  intro place term key status license values source
  have bare : license.Misuses (some .smtlib) .license ":license" [] := by
    refine ⟨⟨.license, .alone rfl⟩, ?_⟩
    rintro other value ⟨application⟩
    cases application
  have twice : source.Misuses (some .smtlib) .source ":source" values := by
    refine ⟨⟨.source, .applied rfl rfl⟩, ?_⟩
    intro other value declares
    obtain ⟨_, v, addresses⟩ := declares.addresses
    have single : [v] = values := (addresses.invokes.unique (.applied rfl rfl)).2
    simp [values] at single
  have takes : Field.status.Takes (.term "sat") := List.mem_cons_self
  refine ⟨?_, ?_, rfl, ?_, ?_⟩
  · exact ((headers_read_exactly _ status).1 _ _).mpr ⟨rfl, .intro rfl rfl .status rfl takes⟩
  · exact ((headers_read_exactly _ license).2.1 _ _).mpr
      ⟨rfl, _, _, _, bare, rfl, .empty nofun⟩
  · exact ((headers_read_exactly _ source).2.1 _ _).mpr ⟨rfl, _, _, _, twice, rfl, .source⟩
  · exact (headers_read_exactly _ status).2.2.mpr (by simp)

end Reading

end ProblemIntake
