import ProblemIntake.Proofs.Header.Relevance

namespace ProblemIntake

theorem diagnosticsOf_append (events more : List Event) :
    diagnosticsOf (events ++ more) = diagnosticsOf events ++ diagnosticsOf more :=
  List.filterMap_append

theorem mem_diagnosticsOf_iff {events : List Event} {d : Diagnostic} :
    d ∈ diagnosticsOf events ↔ .diagnosed d ∈ events := by
  simp only [diagnosticsOf, List.mem_filterMap]
  constructor
  · rintro ⟨e, mem, same⟩
    cases e with
    | diagnosed => cases same; exact mem
    | started | declared | consumed | finished => cases same
  · intro mem
    exact ⟨_, mem, rfl⟩

namespace Record

variable {config : Config} {r : Record} {d : Diagnostic}

/-- A check complains once at most, and then of an error. -/
theorem complaints_check_cases (config : Config) (r : Record) (s : Step Pooled) :
    diagnosticsOf (r.check config s).2 = [] ∨
      s.concernsHeaders ∧ ∃ d, d.isError ∧ diagnosticsOf (r.check config s).2 = [d] := by
  by_cases related : s.concernsHeaders
  · refine or_iff_not_imp_left.mpr fun complained => ⟨related, ?_⟩
    rcases check_cases config s with
      ⟨f, value, declares, _⟩ | ⟨place, fault, malformed, _⟩ | request | ⟨other, passive⟩
    · rw [check_of_declares declares] at complained ⊢
      cases refused : config.disallowed? f value with
      | none => exact absurd (by rw [refused]; rfl) complained
      | some problem => exact ⟨_, rfl, rfl⟩
    · rw [check_of_malformed malformed]
      exact ⟨_, rfl, rfl⟩
    · rw [check_of_isProve request, consume] at complained ⊢
      cases held : r.get? .status with
      | none => exact ⟨_, rfl, rfl⟩
      | some status => exact absurd (by rw [held]; rfl) complained
    · exact absurd (by rw [check_of_other other passive]; rfl) complained
  · rw [check_of_unrelated related]
    exact .inl rfl

theorem isError_of_mem_check {s : Step Pooled} (mem : d ∈ diagnosticsOf (r.check config s).2) :
    d.isError := by
  rcases complaints_check_cases config r s with silent | ⟨_, only, error, complained⟩
  · rw [silent] at mem
    cases mem
  · rw [complained] at mem
    exact List.mem_singleton.mp mem ▸ error

theorem isError_of_mem_told {steps : List (Step Pooled)}
    (mem : d ∈ diagnosticsOf (r.told config steps)) : d.isError := by
  obtain ⟨before, s, rest, _, told⟩ := mem_told_iff.mp (mem_diagnosticsOf_iff.mp mem)
  exact isError_of_mem_check (mem_diagnosticsOf_iff.mpr told)

/-- There is one complaint at most for each step that header checks look at. -/
theorem length_complaints_told_le (config : Config) (r : Record) (steps : List (Step Pooled)) :
    (diagnosticsOf (r.told config steps)).length ≤ steps.countP Step.concernsHeaders := by
  induction steps generalizing r with
  | nil => exact Nat.le_refl 0
  | cons s steps ih =>
    have later := ih (r.check config s).1
    rw [told, diagnosticsOf_append, List.length_append, List.countP_cons]
    rcases complaints_check_cases config r s with silent | ⟨related, only, _, complained⟩
    · rw [silent, List.length_nil]
      omega
    · rw [complained, List.length_singleton, if_pos related]
      omega

end Record

end ProblemIntake
