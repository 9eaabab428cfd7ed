import ProblemIntake.Proofs.Header.Trail

namespace ProblemIntake

/-- Metadata and solve requests. -/
def Action.concernsHeaders {ρ : Type} : Action ρ → Bool
  | .setInfo _ | .prove _ => true
  | _ => false

/-- The step is one that header checks look at. -/
def Step.concernsHeaders {ρ : Type} (s : Step ρ) : Bool := s.action.concernsHeaders

theorem Record.check_of_unrelated {s : Step Pooled} (unrelated : ¬ s.concernsHeaders)
    (config : Config) (r : Record) : r.check config s = (r, []) := by
  cases action : s.action with
  | setInfo | prove => exact absurd (by rw [Step.concernsHeaders, action]; rfl) unrelated
  | _ => simp only [check, action]

namespace Context

theorem check_of_unrelated {s : Step Pooled} (unrelated : ¬ s.concernsHeaders) (ctx : Context) :
    ctx.check s = ctx := by
  rw [check, Record.check_of_unrelated unrelated]
  exact tell_nil ctx

theorem checkSteps_filter (ctx : Context) (steps : List (Step Pooled)) :
    ctx.checkSteps (steps.filter Step.concernsHeaders) = ctx.checkSteps steps := by
  have skip : (fun (ctx : Context) (s : Step Pooled) =>
      if s.concernsHeaders then ctx.check s else ctx) = check := by
    funext ctx s
    split
    · rfl
    · rename_i unrelated
      exact (check_of_unrelated unrelated ctx).symm
  rw [checkSteps, List.foldl_filter, skip, checkSteps]

/-- Statements of one flat sequence of metadata and solve requests leave the same context. -/
theorem foldl_examine_eq_of_filter_eq (ctx : Context) {left right : List (Statement Pooled)}
    (alike : (left.flatMap Statement.flatten).filter Step.concernsHeaders =
      (right.flatMap Statement.flatten).filter Step.concernsHeaders) :
    left.foldl examine ctx = right.foldl examine ctx := by
  cases check : ctx.config.checkHeaders with
  | false => rw [foldl_examine_of_disabled check, foldl_examine_of_disabled check]
  | true =>
    calc left.foldl examine ctx
      _ = ctx.checkSteps (left.flatMap Statement.flatten) := foldl_examine check left
      _ = ctx.checkSteps ((left.flatMap Statement.flatten).filter Step.concernsHeaders) :=
        (checkSteps_filter ctx _).symm
      _ = ctx.checkSteps ((right.flatMap Statement.flatten).filter Step.concernsHeaders) := by
        rw [alike]
      _ = ctx.checkSteps (right.flatMap Statement.flatten) := checkSteps_filter ctx _
      _ = right.foldl examine ctx := (foldl_examine check right).symm

/-- **Header checks see only the flat sequence of metadata and solve requests.** If two lists of
statements, packed in whatever way, are the same sequence once everything else is left out, then
examining the one or the other leaves the same context: the same journal, and so the same
diagnostics and log lines, and the same headers in the same order. In particular a statement is
examined as its steps are, one by one, and a pack as its members are, whatever its label. -/
theorem examined_alike (ctx : Context) :
    (∀ left right : List (Statement Pooled),
      (left.flatMap Statement.flatten).filter Step.concernsHeaders =
        (right.flatMap Statement.flatten).filter Step.concernsHeaders →
      left.foldl examine ctx = right.foldl examine ctx) ∧
    (∀ s : Statement Pooled, ctx.examine s = (s.flatten.map Statement.step).foldl examine ctx) ∧
    ∀ items label, ctx.examine (.pack items label) = items.foldl examine ctx := by
  refine ⟨fun left right => foldl_examine_eq_of_filter_eq ctx, fun s => ?_, fun items label => ?_⟩
  · refine @foldl_examine_eq_of_filter_eq ctx [s] _ ?_
    rw [List.flatMap_singleton, List.flatMap_map]
    exact congrArg _ (List.flatMap_singleton' s.flatten).symm
  · refine @foldl_examine_eq_of_filter_eq ctx [.pack items label] _ ?_
    rw [List.flatMap_singleton, Statement.flatten_pack]

/-- Scopes, assumptions and packs around a status and a solve request make no difference. -/
theorem status_examined_without_scopes :
    let ctx := Context.new { language := some .smtlib, checkHeaders := true }
    let p : Pooled := .mk ⟨2, none⟩ (.symbol (.term "p"))
    let status : Statement Pooled := .ofAction (.setInfo (.mk ⟨3, none⟩
      (.app (.mk ⟨4, none⟩ (.symbol (.attr ":status"))) [.mk ⟨5, none⟩ (.symbol (.term "sat"))])))
    let request : Statement Pooled := .ofAction (.prove [])
    let wrapped := [.ofAction (.push 1),
      .pack [status, .pack [] {},
        .pack [.ofAction (.assume p), request] { name := some "trial" }] {},
      .ofAction (.pop 1), request]
    let flat := [status, request, request]
    (wrapped.flatMap Statement.flatten).filter Step.concernsHeaders =
      (flat.flatMap Statement.flatten).filter Step.concernsHeaders ∧
    wrapped.foldl examine ctx = flat.foldl examine ctx := by
  intro ctx p status request wrapped flat
  exact ⟨rfl, (examined_alike ctx).1 wrapped flat rfl⟩

end Context

end ProblemIntake
