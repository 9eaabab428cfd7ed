import ProblemIntake.Proofs.Canonical.Annotated

/-! Whatever the language, a canonical form has one of few outlines: nothing at all, a single step,
an attempt in a scope of its own, or a goal with the request to prove it. -/

namespace ProblemIntake

/-- Tells the solver something and asks it for nothing. -/
def Action.isContent {ρ : Type} : Action ρ → Bool
  | .goal _ | .assume _ | .includeFile _ | .define _ _ | .declare _ _ | .datatype _ => true
  | _ => false

namespace Item

/-- The roles of formulas that tell about the problem and state nothing. -/
def informationalRoles : List String :=
  ["plain", "unknown", "fi_domain", "fi_functors", "fi_predicates"]

/-- An item that states nothing: the line of sizes of a CNF file, or a formula in an informational
role. -/
def Idle (item : Item Pooled) (language : Language) : Prop :=
  ((language = .dimacs ∨ language = .icnf) ∧ item.keyword = "p") ∨
  (language = .tptp ∧ item.args.length = 1 ∧ item.keyword ∈ informationalRoles)

/-- A goal of Zf. -/
def IsGoal (item : Item Pooled) (language : Language) : Prop :=
  language = .zf ∧ item.keyword = "goal" ∧ item.args.length = 1

instance (item : Item Pooled) (language : Language) : Decidable (item.IsGoal language) :=
  inferInstanceAs (Decidable (_ ∧ _ ∧ _))

variable {item : Item Pooled}

theorem mem_informationalRoles_iff {role : Role} :
    spelling role ∈ informationalRoles ↔ role.use = .ignore := by
  cases role <;> decide

theorem not_idle_smtlib : ¬ item.Idle .smtlib := by
  simp [Idle]

theorem not_idle_zf : ¬ item.Idle .zf := by
  simp [Idle]

theorem idle_cnf_iff {language : Language} (cnf : language = .dimacs ∨ language = .icnf) :
    item.Idle language ↔ item.keyword = "p" := by
  rcases cnf with rfl | rfl <;> simp [Idle]

theorem idle_tptp_iff :
    item.Idle .tptp ↔ item.args.length = 1 ∧ item.keyword ∈ informationalRoles := by
  simp [Idle]

/-- A text that is no role is no informational one. -/
theorem not_mem_informationalRoles {keyword : String}
    (unknown : (Spelled.read? keyword : Option Role) = none) :
    keyword ∉ informationalRoles := by
  have read : ∀ text ∈ informationalRoles, (Spelled.read? text : Option Role) ≠ none := by decide
  exact fun mem => read keyword mem unknown

end Item

namespace Canonical

/-- What the canonical form of an item looks like. -/
inductive Outline (language : Language) (item : Item Pooled) : Canonical → Prop
  | refused {label : Label Pooled} (warning : Warning) (busy : ¬ item.Idle language)
      (placed : label.loc = item.loc) : Outline language item ⟨.pack [] label, some warning⟩
  | idle {label : Label Pooled} (idle : item.Idle language) (placed : label.loc = item.loc) :
      Outline language item ⟨.pack [] label, none⟩
  | single {s : Step Pooled} (busy : ¬ item.Idle language) (placed : s.label.loc = item.loc) :
      Outline language item ⟨.step s, none⟩
  | attempt {trial kept : Action Pooled} {label : Label Pooled} (busy : ¬ item.Idle language)
      (placed : label.loc = item.loc) :
      Outline language item
        ⟨(Statement.attempt item.loc trial kept).relabel fun _ => label, none⟩
  | goal {t : Pooled} {label : Label Pooled} (zf : item.IsGoal language)
      (placed : label.loc = item.loc) :
      Outline language item ⟨(Statement.goal t).relabel fun _ => label, none⟩

variable {language : Language} {item : Item Pooled} {pool : Pool}

theorem outline_settle_ok {s : Statement Pooled} (busy : ¬ item.Idle language)
    (step : ∃ t, s = .step t) : Outline language item (settle item.loc (.ok s)) := by
  obtain ⟨t, rfl⟩ := step
  exact .single busy rfl

theorem outline_settle_error (warning : Warning) (busy : ¬ item.Idle language) :
    Outline language item (settle item.loc (.error warning)) :=
  .refused warning busy rfl

/-- A keyword is refused, or settles what was made of its arguments. -/
theorem ofKeyword_cases {κ : Type} [Spelled κ] (item : Item Pooled)
    (statement? : κ → StateM Pool (Option (Statement Pooled))) (pool : Pool) :
    (∃ warning, (ofKeyword item statement? pool).1 = settle item.loc (.error warning)) ∨
    ∃ keyword s, spelling keyword = item.keyword ∧ (statement? keyword pool).1 = some s ∧
      (ofKeyword item statement? pool).1 = settle item.loc (.ok s) := by
  unfold ofKeyword
  cases known : (Spelled.read? item.keyword : Option κ) with
  | none => exact .inl ⟨_, rfl⟩
  | some keyword =>
    dsimp only
    rw [Pool.run_bind]
    cases made : (statement? keyword pool).1 with
    | none => exact .inl ⟨_, rfl⟩
    | some s => exact .inr ⟨keyword, s, Spelled.read?_eq_some_iff.mp known, made, rfl⟩

/-- A keyword that is known settles what was made of its arguments, or refuses them. -/
theorem ofKeyword_of_spelled {κ : Type} [Spelled κ] {item : Item Pooled} {keyword : κ}
    (spelled : spelling keyword = item.keyword)
    (statement? : κ → StateM Pool (Option (Statement Pooled))) (pool : Pool) :
    (ofKeyword item statement? pool).1 =
      settle item.loc ((statement? keyword pool).1.elim (.error (.wrongArguments item.keyword))
        .ok) := by
  unfold ofKeyword
  rw [Spelled.read?_eq_some_iff.mpr spelled]
  dsimp only
  rw [Pool.run_bind]
  cases (statement? keyword pool).1 <;> rfl

/-- What is made of something that was read, if it was read. -/
theorem settle_elim_eq_ok_iff {α : Type} {read? : Option α} {make : α → Statement Pooled}
    {warning : Warning} {loc : Option Span}
    (injective : ∀ x y, (make x).located loc = (make y).located loc → x = y) (x : α) :
    settle loc (read?.elim (.error warning) fun x => .ok (make x)) = ⟨(make x).located loc, none⟩ ↔
      read? = some x := by
  cases read? with
  | none => exact iff_of_false (fun same => nomatch congrArg Canonical.warning same) nofun
  | some y =>
    constructor
    · intro same
      exact congrArg some (injective y x (congrArg statement same))
    · rintro ⟨⟩
      rfl

theorem settle_elim_eq_error_iff {α : Type} {read? : Option α} {make : α → Statement Pooled}
    {warning : Warning} {loc : Option Span} :
    settle loc (read?.elim (.error warning) fun x => .ok (make x)) =
        ⟨Statement.empty.located loc, some warning⟩ ↔ read? = none := by
  cases read? with
  | none => exact iff_of_true rfl rfl
  | some y => exact iff_of_false (fun same => nomatch congrArg Canonical.warning same) nofun

theorem outline_ofKeyword {κ : Type} [Spelled κ] (busy : ¬ item.Idle language)
    (statement? : κ → StateM Pool (Option (Statement Pooled)))
    (accepted : ∀ keyword s, spelling keyword = item.keyword →
      (statement? keyword pool).1 = some s → Outline language item (settle item.loc (.ok s))) :
    Outline language item (ofKeyword item statement? pool).1 := by
  rcases ofKeyword_cases item statement? pool with
    ⟨warning, refused⟩ | ⟨keyword, s, known, made, ok⟩
  · exact refused ▸ outline_settle_error warning busy
  · exact ok ▸ accepted keyword s known made

theorem includeFile_eq_step (path : String) (restrictions : List Pooled) (pool : Pool) :
    ∃ t, (Statement.includeFile path restrictions pool).1 = .step t ∧ t.action.isContent := by
  cases restrictions with
  | nil => exact ⟨_, rfl, rfl⟩
  | cons r rs => exact ⟨_, rfl, rfl⟩

theorem outline_ofCommand (item : Item Pooled) (pool : Pool) :
    Outline .smtlib item (ofCommand item pool).1 := by
  refine outline_ofKeyword Item.not_idle_smtlib _ fun command s _ made => ?_
  refine outline_settle_ok Item.not_idle_smtlib ?_
  obtain ⟨action, _, rfl⟩ := Option.map_eq_some_iff.mp made
  exact ⟨_, rfl⟩

/-- A directive is a goal, or a single step that asks for nothing. -/
theorem statement?_cases {directive : Directive} {loc : Option Span} {args : List Pooled}
    {s : Statement Pooled} (made : (directive.statement? loc args pool).1 = some s) :
    (∃ t, directive = .goal ∧ args = [t] ∧ s = .goal t) ∨
      ∃ t, s = .step t ∧ t.action.isContent := by
  -- Named first: the choice of the statement is made before the pool is given.
  generalize request : directive.statement? loc args = answer at made
  unfold Directive.statement? at request
  split at request <;> subst request
  · rename_i t
    cases made
    exact .inl ⟨t, rfl, rfl, rfl⟩
  · cases made
    exact .inr ⟨_, rfl, rfl⟩
  · cases made
    exact .inr ⟨_, rfl, rfl⟩
  · obtain ⟨declaration, _, rfl⟩ := Option.map_eq_some_iff.mp made
    exact .inr ⟨_, rfl, rfl⟩
  · obtain ⟨id, _, rfl⟩ := Option.map_eq_some_iff.mp made
    exact .inr ⟨_, rfl, rfl⟩
  · obtain ⟨d, _, rfl⟩ := Option.map_eq_some_iff.mp made
    exact .inr ⟨_, rfl, rfl⟩
  · rename_i path
    cases text : path.literal? .string with
    | none =>
      rw [text] at made
      cases made
    | some file =>
      rw [text] at made
      cases made
      exact .inr (includeFile_eq_step file [] pool)
  · cases made

theorem outline_ofDirective (item : Item Pooled) (pool : Pool) :
    Outline .zf item (ofDirective item pool).1 := by
  refine outline_ofKeyword Item.not_idle_zf _ fun directive s keyword made => ?_
  rcases statement?_cases made with ⟨t, rfl, args, rfl⟩ | step
  · exact .goal ⟨rfl, keyword.symm, by rw [args]; rfl⟩ rfl
  · exact outline_settle_ok Item.not_idle_zf (step.imp fun _ content => content.1)

theorem outline_ofLine {incremental : Bool} (cnf : language = .dimacs ∨ language = .icnf)
    (item : Item Pooled) (pool : Pool) :
    Outline language item (ofLine incremental item pool).1 := by
  have idle : item.Idle language ↔ item.keyword = "p" := Item.idle_cnf_iff cnf
  unfold ofLine
  cases known : (Spelled.read? item.keyword : Option Line) with
  | none =>
    have busy : item.keyword ≠ "p" := by
      intro sizes
      rw [sizes] at known
      exact absurd known (by decide)
    exact outline_settle_error _ (mt idle.mp busy)
  | some line =>
    have spelled : spelling line = item.keyword := Spelled.read?_eq_some_iff.mp known
    cases line with
    | clause => exact outline_settle_ok (mt idle.mp (by rw [← spelled]; decide)) ⟨_, rfl⟩
    | sizes => exact .idle (idle.mpr spelled.symm) rfl
    | assumptions =>
      have busy : ¬ item.Idle language := mt idle.mp (by rw [← spelled]; decide)
      cases incremental with
      | true => exact outline_settle_ok busy ⟨_, rfl⟩
      | false => exact outline_settle_error _ busy

/-- The label does not change the outline of what is made of a formula. -/
theorem outline_labelled {label : Label Pooled} {formula : Pooled} (placed : label.loc = item.loc)
    (args : item.args = [formula]) :
    Outline .tptp item (labelled label (answer item formula pool).1) := by
  have idle : item.Idle .tptp ↔ item.keyword ∈ Item.informationalRoles := by
    rw [Item.idle_tptp_iff, args]
    exact and_iff_right rfl
  unfold answer
  cases known : (Spelled.read? item.keyword : Option Role) with
  | none => exact .refused _ (mt idle.mp (Item.not_mem_informationalRoles known)) placed
  | some role =>
    rw [← Spelled.read?_eq_some_iff.mp known, Item.mem_informationalRoles_iff] at idle
    dsimp only
    cases use : role.use with
    | assume => exact .single (mt idle.mp (by simp [use])) placed
    | prove => exact .attempt (mt idle.mp (by simp [use])) placed
    | refute => exact .attempt (mt idle.mp (by simp [use])) placed
    | declare =>
      have busy : ¬ item.Idle .tptp := mt idle.mp (by simp [use])
      unfold Statement.ofFormula
      cases formula.declaration? with
      | none => exact .refused _ busy placed
      | some declaration => exact .single busy placed
    | ignore => exact .idle (idle.mpr use) placed

theorem outline_ofAnnotated (item : Item Pooled) (pool : Pool) :
    Outline .tptp item (ofAnnotated item pool).1 := by
  have noRole : "include" ∉ Item.informationalRoles := by decide
  rcases ofAnnotated_cases item pool with
    ⟨warning, reason, refused⟩ | ⟨path, file, restrictions, keyword, args, included⟩ |
    ⟨formula, args, formed⟩
  · -- An informational role is heeded on a single formula only.
    have busy : ¬ item.Idle .tptp := by
      rw [Item.idle_tptp_iff, List.length_eq_one_iff]
      rintro ⟨⟨t, args⟩, idle⟩
      rcases reason with keyword | several
      · exact noRole (keyword ▸ idle)
      · exact several t args
    rw [refused]
    exact outline_settle_error warning busy
  · have busy : ¬ item.Idle .tptp := by
      rw [Item.idle_tptp_iff, keyword]
      exact fun idle => noRole idle.2
    obtain ⟨t, step, _⟩ := includeFile_eq_step file restrictions pool
    rw [included]
    exact outline_settle_ok busy ⟨t, step⟩
  · rw [formed, ofFormula_eq]
    exact outline_labelled rfl args

end Canonical

/-- Every item has a canonical form of one of the outlines. -/
theorem Item.outline_canonical (item : Item Pooled) (language : Language) (pool : Pool) :
    Canonical.Outline language item (item.canonical language pool).1 := by
  cases language with
  | smtlib => exact Canonical.outline_ofCommand item pool
  | tptp => exact Canonical.outline_ofAnnotated item pool
  | dimacs => exact Canonical.outline_ofLine (.inl rfl) item pool
  | icnf => exact Canonical.outline_ofLine (.inr rfl) item pool
  | zf => exact Canonical.outline_ofDirective item pool

end ProblemIntake
