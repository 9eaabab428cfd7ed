import Mathlib.Data.List.DropRight
import ProblemIntake.Proofs.Header.Trail

namespace ProblemIntake

namespace Step

/-- The steps after the last solve request. -/
def sinceProve (steps : List (Step Pooled)) : List (Step Pooled) :=
  steps.rtakeWhile (!·.isProve)

/-- A step of the sequence declares a status for the next solve request. -/
def Announced (language : Option Language) (steps : List (Step Pooled)) : Prop :=
  ∃ s ∈ sinceProve steps, ∃ status, s.reading language = .declares .status status

theorem sinceProve_concat_of_isProve (steps : List (Step Pooled)) {s : Step Pooled}
    (request : s.isProve) : sinceProve (steps ++ [s]) = [] :=
  List.rtakeWhile_concat_neg _ _ _ (by simp [request])

theorem sinceProve_concat (steps : List (Step Pooled)) {s : Step Pooled}
    (passive : ¬ s.isProve) : sinceProve (steps ++ [s]) = sinceProve steps ++ [s] :=
  List.rtakeWhile_concat_pos _ _ _ (by simp [passive])

theorem announced_iff_lastDeclared?_ne_none {language : Option Language}
    {steps : List (Step Pooled)} :
    Announced language steps ↔ lastDeclared? language .status (sinceProve steps) ≠ none := by
  rw [ne_eq, lastDeclared?_eq_none_iff]
  simp [Announced]

end Step

namespace Record

/-- The status in force is the one declared last since the last solve request. -/
theorem get?_status_after (config : Config) (steps : List (Step Pooled)) :
    (empty.after config steps).get? .status =
      Step.lastDeclared? config.language .status (Step.sinceProve steps) := by
  induction steps using List.reverseRecOn with
  | nil => rfl
  | append_singleton steps s ih =>
    rw [after_concat, get?_check, ih]
    by_cases request : s.isProve
    · simp [request, Step.sinceProve_concat_of_isProve steps request]
    · simp [request, Step.sinceProve_concat steps request, Step.lastDeclared?_concat]

theorem announced_iff_get?_status (config : Config) (steps : List (Step Pooled)) :
    Step.Announced config.language steps ↔
      (empty.after config steps).get? .status ≠ none := by
  rw [get?_status_after, Step.announced_iff_lastDeclared?_ne_none]

end Record

namespace Context

/-- The complaint about a solve request without a status. -/
def missingStatus (ctx : Context) (request : Step Pooled) : Diagnostic :=
  ⟨.error, ctx.locate request.label.loc,
    .header (.missingStatus (Field.status.name ctx.config.language))⟩

theorem diagnostics_check (ctx : Context) (s : Step Pooled) :
    (ctx.check s).diagnostics =
      ctx.diagnostics ++ diagnosticsOf (ctx.headers.check ctx.config s).2 :=
  diagnostics_tell ctx _

theorem headers_check (ctx : Context) (s : Step Pooled) :
    (ctx.check s).headers = (ctx.headers.check ctx.config s).1 := rfl

theorem missingStatus_checkSteps (ctx : Context) (steps : List (Step Pooled)) :
    (ctx.checkSteps steps).missingStatus = ctx.missingStatus := by
  funext request
  simp only [missingStatus, locate, config_checkSteps]

/-- A solve request is complained of exactly if no status is in force. -/
theorem diagnostics_request (ctx : Context) {request : Step Pooled} (prove : request.isProve) :
    (ctx.check request).diagnostics =
      ctx.diagnostics ++
        if ctx.headers.get? .status = none then [ctx.missingStatus request] else [] := by
  rw [diagnostics_check, Record.check_of_isProve prove, Record.consume]
  split
  · rename_i status held
    rw [if_neg (by simp [held])]
    rfl
  · rename_i absent
    rw [if_pos absent]
    rfl

/-- **Each status declaration discharges exactly one solve request.** Statements are examined as
the flat sequence of their steps. In it a solve request is complained of, once and at its own
place, exactly if no status was declared since the solve request before it; it leaves no status
behind, however often one was declared. A malformed header changes nothing. In the end the status
in force is the one declared last since the last solve request. -/
theorem status_discharges_one_request (ctx : Context)
    (enabled : ctx.config.checkHeaders = true) (fresh : ctx.headers = .empty)
    (statements : List (Statement Pooled)) :
    let language := ctx.config.language
    let steps := statements.flatMap Statement.flatten
    statements.foldl examine ctx = ctx.checkSteps steps ∧
    (∀ before request rest, steps = before ++ request :: rest → request.isProve →
      (Step.Announced language before →
        (ctx.checkSteps (before ++ [request])).diagnostics =
          (ctx.checkSteps before).diagnostics) ∧
      (¬ Step.Announced language before →
        (ctx.checkSteps (before ++ [request])).diagnostics =
          (ctx.checkSteps before).diagnostics ++ [ctx.missingStatus request]) ∧
      (ctx.checkSteps (before ++ [request])).headers.get? .status = none) ∧
    (∀ before s rest, steps = before ++ s :: rest →
      ∀ place fault, s.reading language = .malformed place fault →
        (ctx.checkSteps (before ++ [s])).headers = (ctx.checkSteps before).headers) ∧
    (ctx.checkSteps steps).headers.get? .status =
      Step.lastDeclared? language .status (Step.sinceProve steps) := by
  intro language steps
  have held (seen : List (Step Pooled)) :
      (ctx.checkSteps seen).headers = Record.empty.after ctx.config seen := by
    rw [headers_checkSteps, fresh]
  refine ⟨foldl_examine enabled statements, ?_, ?_, ?_⟩
  · intro before request rest _ prove
    have announced : Step.Announced language before ↔
        (ctx.checkSteps before).headers.get? .status ≠ none := by
      rw [held, Record.announced_iff_get?_status]
    have added := diagnostics_request (ctx.checkSteps before) prove
    rw [← checkSteps_concat, missingStatus_checkSteps] at added
    refine ⟨fun declared => ?_, fun undeclared => ?_, ?_⟩
    · rw [added, if_neg (announced.mp declared), List.append_nil]
    · rw [added, if_pos (not_not.mp (mt announced.mpr undeclared))]
    · rw [held, Record.get?_status_after, Step.sinceProve_concat_of_isProve before prove,
        Step.lastDeclared?_nil]
  · intro before s rest _ place fault malformed
    rw [checkSteps_concat, headers_check, Record.check_of_malformed]
    rwa [config_checkSteps]
  · rw [held, Record.get?_status_after]

/-- A status declared in a pack goes to the solve request packed with it, so the next request is
complained of. -/
theorem packed_status_discharges_one_request :
    let ctx := Context.new { language := some .smtlib, checkHeaders := true }
    let keyword : Pooled := .mk ⟨2, none⟩ (.symbol (.attr ":status"))
    let status : Pooled := .mk ⟨4, none⟩ (.app keyword [.mk ⟨3, none⟩ (.symbol (.term "unsat"))])
    let declaration : Step Pooled := ⟨.setInfo status, {}⟩
    let packed : Step Pooled := ⟨.prove [], {}⟩
    let request : Step Pooled := ⟨.prove [], { loc := some ⟨⟨6, 1⟩, ⟨6, 1⟩⟩ }⟩
    let statements := [.pack [.step declaration, .pack [.step packed] {}] {}, .step request]
    ctx.config.checkHeaders = true ∧ ctx.headers = .empty ∧
    (statements.foldl examine ctx).diagnostics = [ctx.missingStatus request] := by
  intro ctx keyword status declaration packed request statements
  obtain ⟨flat, requests, -, -⟩ := status_discharges_one_request ctx rfl rfl statements
  have first := (requests [declaration] packed [request] rfl rfl).1
    ⟨declaration, List.mem_singleton_self _, "unsat", by decide⟩
  have second := (requests [declaration, packed] request [] rfl rfl).2.1 (by
    rintro ⟨s, mem, -⟩
    exact List.not_mem_nil mem)
  refine ⟨rfl, rfl, ?_⟩
  rw [flat]
  calc (ctx.checkSteps [declaration, packed, request]).diagnostics
    _ = (ctx.checkSteps [declaration, packed]).diagnostics ++ [ctx.missingStatus request] := second
    _ = (ctx.checkSteps [declaration]).diagnostics ++ [ctx.missingStatus request] :=
      congrArg (· ++ _) first
    _ = [ctx.missingStatus request] := by decide

end Context

end ProblemIntake
