import RestModule.Proofs.Run.Course
import RestModule.Proofs.Run.Sheets
import RestModule.Proofs.Spec.Failure

/-!
# Runs that fail

A run can fail in three ways, which exclude each other: its input is refused before anything is
called, a template cannot be read, or a call fails. Input is refused only for the configuration and
the description; everything that generating files relies on has been resolved by then. -/

namespace RestModule

/-- The errors that refuse the input of a run. -/
inductive Error.OfInput : Error → Prop where
  | config (key : Config.Key) (flaw : Config.Flaw) : OfInput (.invalidConfig key flaw)
  | description {error : Error} (h : error.OfImport) : OfInput error

/-- The errors that making files may end with. -/
inductive Error.OfOutput : Error → Prop where
  | output (path : FilePath) (fault : Fault) : OfOutput (.output path fault)
  | template (file : FilePath) (fault : Fault) : OfOutput (.templateUnreadable file fault)

theorem Error.OfInput.not_ofOutput {error : Error} (h : error.OfInput) : ¬ error.OfOutput := by
  intro houtput
  cases houtput <;>
  · cases h with
    | description h => cases h

namespace Launch

variable {σ : Type} {launch : Launch} {fs : FileSystem σ}

theorem definition_error {error : Error} (h : launch.definition = .error error) :
    error.OfInput := by
  rcases Except.bind_error h with h | ⟨-, -, h⟩
  · unfold Config.validate at h
    split at h
    · cases h
      exact .config _ _
    · cases h
  · exact .description (Definition.ofText_fails _ _ h)

theorem doing_error {s : σ} {step : Step} {error : Error}
    (h : (launch.doing fs s step).result = .error error) :
    ∃ sheet, step.sheet? = some sheet ∧ launch.rendered sheet = .error error := by
  cases step with
  | enter stage => cases h
  | announce component => cases h
  | directory path =>
    rw [doing] at h
    split at h <;> cases h
  | file sheet =>
    refine ⟨sheet, rfl, ?_⟩
    rcases Intent.bind_error h with h | ⟨file, -, h⟩
    · exact h
    · unfold placing at h
      split at h <;> cases h

/-- Only a sheet that cannot be rendered stops the steps of a plan. -/
theorem course_error {s : σ} {plan : List Step} {error : Error}
    (h : (launch.course fs s plan).result = .error error) :
    ∃ sheet ∈ plan.filterMap Step.sheet?, launch.rendered sheet = .error error := by
  induction plan generalizing s with
  | nil => cases h
  | cons step rest ih =>
    rcases Intent.bind_error h with h | ⟨⟨⟩, -, h⟩
    · obtain ⟨sheet, hsheet, h⟩ := doing_error h
      exact ⟨sheet, List.mem_filterMap.mpr ⟨step, List.mem_cons_self, hsheet⟩, h⟩
    · obtain ⟨sheet, hmem, h⟩ := ih h
      obtain ⟨other, hother, hsheet⟩ := List.mem_filterMap.mp hmem
      exact ⟨sheet, List.mem_filterMap.mpr ⟨other, List.mem_cons_of_mem _ hother, hsheet⟩, h⟩

/-- A run intends to stop at its input, then without a call, or at an unreadable template. -/
theorem intent_error {s : σ} {error : Error} (h : (launch.intent fs s).result = .error error) :
    (error.OfInput ∧ (launch.intent fs s).calls = []) ∨
      ∃ file fault, error = .templateUnreadable file fault := by
  unfold intent at h ⊢
  cases hdefinition : launch.definition with
  | error refusal =>
    rw [hdefinition] at h
    cases h
    exact .inl ⟨definition_error hdefinition, rfl⟩
  | ok definition =>
    right
    rw [hdefinition, Intent.ending_bind] at h
    rcases Intent.bind_error h with h | ⟨⟨⟩, -, h⟩
    · obtain ⟨sheet, hsheet, h⟩ := course_error h
      rw [Definition.filterMap_plan] at hsheet
      obtain ⟨name, hname, h⟩ := rendered_error h
      exact Template.Library.answer_error (Definition.builtin_of_mem_sheets hsheet hname) h
    · cases h

variable (launch fs)

/-- Input is refused before anything is called, and a run that has called something can only fail
for a call or a template that cannot be read. Templates are never missing. -/
theorem refused_input_calls_nothing (s : σ) {error : Error}
    (h : (launch.run fs s).1.result = .error error) :
    (error.OfInput →
        Entry.calls (launch.run fs s).1.progress.journal = [] ∧ (launch.run fs s).2 = s) ∧
      (Entry.calls (launch.run fs s).1.progress.journal ≠ [] → error.OfOutput) ∧
      ∀ name, error ≠ .templateMissing name := by
  obtain ⟨hcalls, hstate, hresult⟩ := launch.run_follows fs s
  rw [hresult] at h
  cases hfailed : (launch.attempt fs s).failed with
  | some failed =>
    rw [hfailed] at h
    cases h
    exact ⟨fun hinput => absurd (.output _ _) hinput.not_ofOutput, fun _ => .output _ _, by simp⟩
  | none =>
    rw [hfailed] at h
    rcases intent_error (Except.map_error h) with ⟨hinput, hempty⟩ | ⟨file, fault, rfl⟩
    · have hattempt : launch.attempt fs s = ⟨[], none⟩ := by
        rw [attempt, hempty]
        rfl
      rw [hattempt] at hcalls hstate
      refine ⟨fun _ => ⟨hcalls, hstate⟩, fun hne => absurd hcalls hne, ?_⟩
      rintro name rfl
      cases hinput with
      | description h => cases h
    · exact ⟨fun hinput => absurd (.template _ _) hinput.not_ofOutput, fun _ => .template _ _,
        by simp⟩

theorem refused_input_calls_nothing_shop :
    let refused := { shop with text := "components: none" }
    let stopped := { shop with faults := fun n _ => if n = 0 then some .readOnly else none }
    Entry.calls (refused.run Memory.fileSystem Memory.empty).1.progress.journal = [] ∧
      Entry.calls (stopped.run Memory.fileSystem Memory.empty).1.progress.journal ≠ [] ∧
      Error.OfOutput (.output ⟨"shop-rest"⟩ .readOnly) := by
  intro refused stopped
  have hrefused : (refused.run Memory.fileSystem Memory.empty).1.result =
      .error (.malformed "components" .notMapping) := by decide +kernel
  have hstopped : (stopped.run Memory.fileSystem Memory.empty).1.result =
      .error (.output ⟨"shop-rest"⟩ .readOnly) := by decide +kernel
  have hcalls :
      Entry.calls (stopped.run Memory.fileSystem Memory.empty).1.progress.journal ≠ [] := by
    decide +kernel
  exact ⟨((refused.refused_input_calls_nothing _ _ hrefused).1 (.description (.malformed _ _))).1,
    hcalls, (stopped.refused_input_calls_nothing _ _ hstopped).2.1 hcalls⟩

end Launch

end RestModule
