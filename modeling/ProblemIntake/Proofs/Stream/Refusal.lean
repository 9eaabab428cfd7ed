import ProblemIntake.Proofs.Canonical.Outline
import ProblemIntake.Proofs.Stream.Forms

namespace ProblemIntake

/-- A pack without members, which leaves nothing to do. -/
def Statement.isBlank {ρ : Type} : Statement ρ → Bool
  | .pack [] _ => true
  | _ => false

namespace Canonical.Outline

variable {language : Language} {item : Item Pooled} {form : Canonical}

/-- A canonical form stands where the item stands. -/
theorem loc_label (outline : Outline language item form) :
    form.statement.label.loc = item.loc := by
  cases outline with
  | refused _ _ placed | idle _ placed | single _ placed | attempt _ placed | goal _ placed =>
    exact placed

theorem isBlank_iff (outline : Outline language item form) :
    form.statement.isBlank ↔ form.warning.isSome ∨ item.Idle language := by
  cases outline with
  | refused => exact ⟨fun _ => .inl rfl, fun _ => rfl⟩
  | idle idle => exact ⟨fun _ => .inr idle, fun _ => rfl⟩
  | single busy | attempt busy =>
    exact ⟨nofun, fun refused => absurd (refused.resolve_left nofun) busy⟩
  | goal zf =>
    have busy : ¬ item.Idle language := zf.1 ▸ Item.not_idle_zf
    exact ⟨nofun, fun refused => absurd (refused.resolve_left nofun) busy⟩

/-- No item that states nothing is refused. -/
theorem not_idle_of_warning (outline : Outline language item form)
    (refused : form.warning.isSome) : ¬ item.Idle language := by
  cases outline with
  | refused _ busy => exact busy
  | idle | single | attempt | goal => cases refused

end Canonical.Outline

theorem Context.diagnostics_receive (ctx : Context) (loc : Option Span) (form : Canonical) :
    (ctx.receive loc form).diagnostics =
      ctx.diagnostics ++ form.warning.toList.map fun warning =>
        ⟨.warning, ctx.locate loc, .item warning⟩ := by
  rw [receive_eq, diagnostics_tell]
  cases form.warning <;> rfl

namespace Stream

/-- The warning about an item that is refused. -/
def refusals (s : Stream) (item : Item Pooled) : List Diagnostic :=
  (item.canonical s.language s.pool).1.warning.toList.map fun warning =>
    ⟨.warning, s.context.locate item.loc, .item warning⟩

/-- What the headers lack at the steps of an item, if they are checked. -/
def objections (s : Stream) (item : Item Pooled) : List Diagnostic :=
  if s.context.config.checkHeaders then
    diagnosticsOf (s.context.headers.told s.context.config
      (item.canonical s.language s.pool).1.statement.flatten)
  else []

/-- All that taking an item reports. -/
def reports (s : Stream) (item : Item Pooled) : List Diagnostic :=
  s.refusals item ++ s.objections item

theorem diagnostics_feed (s : Stream) (item : Item Pooled) :
    (s.feed item).2.context.diagnostics = s.context.diagnostics ++ s.reports item := by
  rw [reports, objections, ← List.append_assoc]
  cases check : s.context.config.checkHeaders with
  | false =>
    rw [context_feed_of_disabled check, Context.diagnostics_receive, if_neg Bool.false_ne_true,
      List.append_nil]
    rfl
  | true =>
    rw [context_feed_of_enabled check, Context.diagnostics_checkSteps, Context.diagnostics_receive,
      Context.headers_receive, Context.config_receive, if_pos rfl]
    rfl

end Stream

/-- **No item is dropped silently, and reading only warns.** Taking an item in any language leaves
the headers as they are and reports at most one warning, at the place of the item, where its
canonical form stands too. The warning is there exactly if the form is blank and the item is none
of those that state nothing by themselves; these have blank forms. -/
theorem Item.warned_iff_blank (item : Item Pooled) (language : Language) (pool : Pool)
    (ctx : Context) :
    let form := (item.canonical language pool).1
    let after := ctx.receive item.loc form
    after.headers = ctx.headers ∧
    form.statement.label.loc = item.loc ∧
    (∃ warnings : List Warning, warnings.length ≤ 1 ∧
      after.diagnostics = ctx.diagnostics ++ warnings.map (fun warning =>
        ⟨.warning, ctx.locate item.loc, .item warning⟩) ∧
      (warnings ≠ [] ↔ form.statement.isBlank ∧ ¬ item.Idle language)) ∧
    (item.Idle language → form.statement.isBlank) := by
  intro form after
  have outline : Canonical.Outline language item form := item.outline_canonical language pool
  refine ⟨Context.headers_receive ctx item.loc form, outline.loc_label,
    ⟨form.warning.toList, Option.length_toList_le, Context.diagnostics_receive ctx item.loc form,
      ?_⟩, fun idle => outline.isBlank_iff.mpr (.inr idle)⟩
  have warned : form.warning.toList ≠ [] ↔ form.warning.isSome := by
    cases form.warning <;> simp
  rw [warned, outline.isBlank_iff]
  constructor
  · intro refused
    exact ⟨.inl refused, outline.not_idle_of_warning refused⟩
  · rintro ⟨refused, busy⟩
    exact refused.resolve_right busy

end ProblemIntake
