import ProblemIntake.Proofs.Canonical.Outline
import ProblemIntake.Proofs.Header.Relevance

namespace ProblemIntake

namespace Item

/-- What the steps of an item may do. -/
inductive Performs (language : Language) (item : Item Pooled) : List (Action Pooled) → Prop
  | nothing : Performs language item []
  | command {command : Command} {a : Action Pooled} (smtlib : language = .smtlib)
      (keyword : spelling command = item.keyword)
      (read : command.action? item.loc item.args = some a) : Performs language item [a]
  | content {a : Action Pooled} (content : a.isContent) : Performs language item [a]
  | request (icnf : language = .icnf) : Performs language item [.prove item.args]
  | goal {t : Pooled} (zf : language = .zf) : Performs language item [.goal t, .prove []]
  | attempt {trial kept : Action Pooled} (tptp : language = .tptp) (tried : trial.isContent)
      (lasting : kept.isContent) :
      Performs language item [.push 1, trial, .prove [], .pop 1, kept]

variable {language : Language} {item : Item Pooled} {actions : List (Action Pooled)}

theorem performs_ofCommand (item : Item Pooled) (pool : Pool) :
    item.Performs .smtlib (Canonical.ofCommand item pool).1.statement.actions := by
  rcases Canonical.ofKeyword_cases item (fun command : Command =>
      return (command.action? item.loc item.args).map Statement.ofAction) pool with
    ⟨warning, refused⟩ | ⟨command, s, keyword, made, ok⟩
  · rw [Canonical.ofCommand, refused]
    exact .nothing
  · obtain ⟨a, read, rfl⟩ := Option.map_eq_some_iff.mp made
    rw [Canonical.ofCommand, ok]
    exact .command rfl keyword read

theorem Expands.performs (expands : item.Expands actions) : item.Performs .tptp actions := by
  cases expands with
  | assumed | declared | included => exact .content rfl
  | proved | refuted => exact .attempt rfl rfl rfl
  | nothing => exact .nothing

theorem performs_ofLine (incremental : Bool) (assuming : incremental = true → language = .icnf)
    (item : Item Pooled) (pool : Pool) :
    item.Performs language (Canonical.ofLine incremental item pool).1.statement.actions := by
  unfold Canonical.ofLine
  cases (Spelled.read? item.keyword : Option Line) with
  | none => exact .nothing
  | some line =>
    cases line with
    | clause => exact .content rfl
    | sizes => exact .nothing
    | assumptions =>
      cases incremental with
      | true => exact .request (assuming rfl)
      | false => exact .nothing

theorem performs_ofDirective (item : Item Pooled) (pool : Pool) :
    item.Performs .zf (Canonical.ofDirective item pool).1.statement.actions := by
  rcases Canonical.ofKeyword_cases item
      (fun directive : Directive => directive.statement? item.loc item.args) pool with
    ⟨warning, refused⟩ | ⟨directive, s, _, made, ok⟩
  · rw [Canonical.ofDirective, refused]
    exact .nothing
  · rw [Canonical.ofDirective, ok]
    rcases Canonical.statement?_cases made with ⟨t, _, _, rfl⟩ | ⟨t, rfl, content⟩
    · exact .goal rfl
    · exact .content content

/-- What an item of any language does. -/
theorem performs_canonical (item : Item Pooled) (language : Language) (pool : Pool) :
    item.Performs language (item.canonical language pool).1.statement.actions := by
  cases language with
  | smtlib => exact performs_ofCommand item pool
  | tptp => exact (expands_canonical item pool).performs
  | dimacs => exact performs_ofLine false nofun item pool
  | icnf => exact performs_ofLine true (fun _ => rfl) item pool
  | zf => exact performs_ofDirective item pool

theorem not_concernsHeaders_of_isContent {a : Action Pooled} (content : a.isContent) :
    ¬ a.concernsHeaders := by
  cases a <;> simp_all [Action.isContent, Action.concernsHeaders]

theorem Performs.countP_concernsHeaders_le (performs : item.Performs language actions) :
    actions.countP Action.concernsHeaders ≤ 1 := by
  cases performs with
  | nothing => exact Nat.zero_le 1
  | command | content | request => exact List.countP_le_length
  | goal => exact Nat.le_refl 1
  | attempt _ tried lasting =>
    have request : Action.concernsHeaders (.prove ([] : List Pooled)) = true := rfl
    have pushed : Action.concernsHeaders (.push 1 : Action Pooled) = false := rfl
    have popped : Action.concernsHeaders (.pop 1 : Action Pooled) = false := rfl
    simp [request, pushed, popped, not_concernsHeaders_of_isContent tried,
      not_concernsHeaders_of_isContent lasting]

/-- Header checks have at most one step of an item to look at. -/
theorem countP_flatten_le (item : Item Pooled) (language : Language) (pool : Pool) :
    (item.canonical language pool).1.statement.flatten.countP Step.concernsHeaders ≤ 1 := by
  have few := (performs_canonical item language pool).countP_concernsHeaders_le
  rwa [Statement.actions, List.countP_map] at few

/-- The action of a command is metadata only if the command sets it. -/
theorem action?_eq_setInfo {command : Command} {loc : Option Span} {args : List Pooled}
    {info : Pooled} (read : command.action? loc args = some (.setInfo info)) :
    command = .setInfo ∧ args = [info] ∧ info.attribute?.isSome := by
  unfold Command.action? at read
  split at read
  -- One row of the table answers with metadata.
  all_goals simp_all
  exact read.2 ▸ read.1

theorem Performs.setInfo {info : Pooled} (performs : item.Performs language actions)
    (mem : .setInfo info ∈ actions) :
    language = .smtlib ∧ item.keyword = spelling Command.setInfo ∧ item.args = [info] ∧
      info.attribute?.isSome := by
  have never {a : Action Pooled} (content : a.isContent) : Action.setInfo info ≠ a := by
    rintro rfl
    cases content
  cases performs with
  | nothing => cases mem
  | command smtlib keyword read =>
    rw [← List.mem_singleton.mp mem] at read
    obtain ⟨rfl, args, keyed⟩ := action?_eq_setInfo read
    exact ⟨smtlib, keyword.symm, args, keyed⟩
  | content content => exact absurd (List.mem_singleton.mp mem) (never content)
  | request => cases List.mem_singleton.mp mem
  | goal => simp at mem
  | attempt _ tried lasting => simp [never tried, never lasting] at mem

/-- Metadata comes from a command that sets it, and is the argument of that command. -/
theorem setInfo_of_mem_flatten {pool : Pool} {s : Step Pooled} {info : Pooled}
    (mem : s ∈ (item.canonical language pool).1.statement.flatten)
    (action : s.action = .setInfo info) :
    language = .smtlib ∧ item.keyword = spelling Command.setInfo ∧ item.args = [info] ∧
      info.attribute?.isSome :=
  (performs_canonical item language pool).setInfo (action ▸ List.mem_map_of_mem mem)

end Item

end ProblemIntake
