import RestModule.Proofs.Run.Execution
import RestModule.Proofs.Run.Interruption

/-!
# The decisions of a run

A run without faults decides on one file after another whether to write it, also if it is refused or
comes upon a template that it cannot read: the files are then those before that sheet
(`Launch.decides_of_no_fault`). -/

namespace RestModule

theorem Intent.outcomes_bind_of_ok {α β : Type} {intent : Intent α} {next : α → Intent β} {a : α}
    (h : intent.result = .ok a) :
    (intent.bind next).outcomes = intent.outcomes ++ (next a).outcomes := by
  rw [bind, h]

theorem Intent.outcomes_bind_ending {α β : Type} (intent : Intent α)
    (result : α → Except Error β) :
    (intent.bind fun a => .ending (result a)).outcomes = intent.outcomes := by
  unfold bind
  cases intent.result with
  | ok a => exact List.append_nil _
  | error error => rfl

/-- What is rendered of sheets, up to the first that cannot be. -/
def Sheet.begun (render : Sheet → Except Error Rendered) : List Sheet → List Rendered
  | [] => []
  | sheet :: rest =>
    match render sheet with
    | .ok file => file :: begun render rest
    | .error _ => []

theorem Sheet.exists_of_mem_begun {render : Sheet → Except Error Rendered} {sheets : List Sheet}
    {file : Rendered} (h : file ∈ begun render sheets) :
    ∃ sheet ∈ sheets, render sheet = .ok file := by
  induction sheets with
  | nil => cases h
  | cons sheet rest ih =>
    rw [begun] at h
    split at h
    · next first hfirst =>
      rcases List.mem_cons.mp h with rfl | h
      · exact ⟨sheet, List.mem_cons_self, hfirst⟩
      · obtain ⟨other, hother, hrender⟩ := ih h
        exact ⟨other, List.mem_cons_of_mem _ hother, hrender⟩
    · cases h

namespace Launch

variable {σ : Type} (launch : Launch) (fs : FileSystem σ)

/-- The files that a run decides on. -/
def files : List Rendered :=
  match launch.definition with
  | .ok definition => Sheet.begun launch.rendered (definition.sheets launch.config)
  | .error _ => []

theorem exists_sheet_of_mem_files {launch : Launch} {file : Rendered} (h : file ∈ launch.files) :
    ∃ definition sheet, launch.definition = .ok definition ∧
      sheet ∈ definition.sheets launch.config ∧ launch.rendered sheet = .ok file := by
  unfold files at h
  split at h
  · next definition hdefinition =>
    obtain ⟨sheet, hsheet, hrendered⟩ := Sheet.exists_of_mem_begun h
    exact ⟨definition, sheet, hdefinition, hsheet, hrendered⟩
  · cases h

/-- The calls of a run before its first decision. -/
def preparing (s : σ) : List Call :=
  match launch.definition with
  | .ok _ => launch.opening fs s
  | .error _ => []

/-- A run has taken decisions on its files one after another and done nothing else. -/
structure Decides (s : σ) (decisions : List Decision) (ran : Finished × σ) : Prop where
  files : decisions.map (·.file) = launch.files
  /-- A file is kept if and only if its protection is not lifted and it exists at its turn. -/
  kept : ∀ earlier decision later, decisions = earlier ++ decision :: later →
    (decision.kept = true ↔ decision.file.protection.isLifted launch.config = false ∧
      fs.has (fs.afterAll s (launch.preparing fs s ++ earlier.flatMap (·.calls)))
        decision.file.path = true)
  calls : Entry.calls ran.1.progress.journal =
    launch.preparing fs s ++ decisions.flatMap (·.calls)
  written : ran.1.progress.written = (Decision.writtenFiles decisions).map (·.path)
  skipped : ran.1.progress.skipped = (Decision.keptFiles decisions).map (·.kept)
  state : ran.2 = fs.afterAll s (launch.preparing fs s ++ decisions.flatMap (·.calls))

/-- The work of a plan is to decide on the files of its sheets. -/
theorem course_begun {s : σ} {work : List Step} (h : ∀ step ∈ work, step.isDirectory = false) :
    let decisions :=
      launch.decisions fs s (Sheet.begun launch.rendered (work.filterMap Step.sheet?))
    (launch.course fs s work).calls = decisions.flatMap (·.calls) ∧
      (launch.course fs s work).outcomes = decisions.map (·.outcome) := by
  induction work generalizing s with
  | nil => exact ⟨rfl, rfl⟩
  | cons step rest ih =>
    have hrest : ∀ step ∈ rest, step.isDirectory = false :=
      fun step hstep => h step (List.mem_cons_of_mem _ hstep)
    cases step with
    | directory path => cases h _ List.mem_cons_self
    | enter stage => exact ih hrest
    | announce component => exact ih hrest
    | file sheet =>
      have hsheet : Step.sheet? (.file sheet) = some sheet := rfl
      rw [List.filterMap_cons_some hsheet, course, doing, Sheet.begun]
      cases hrendered : launch.rendered sheet with
      | error error =>
        have hmaking : launch.making fs s sheet = .ending (.error error) := by
          rw [making, hrendered]
          rfl
        rw [hmaking]
        exact ⟨rfl, rfl⟩
      | ok file =>
        rw [launch.making_eq fs hrendered]
        obtain ⟨hcalls, houtcomes⟩ := ih hrest
        exact ⟨congrArg (_ ++ ·) hcalls, congrArg (_ :: ·) houtcomes⟩

theorem intent_begun (s : σ) :
    let decisions :=
      launch.decisions fs (fs.afterAll s (launch.preparing fs s)) launch.files
    (launch.intent fs s).calls = launch.preparing fs s ++ decisions.flatMap (·.calls) ∧
      (launch.intent fs s).outcomes = decisions.map (·.outcome) := by
  unfold intent preparing files
  cases launch.definition with
  | error error => exact ⟨rfl, rfl⟩
  | ok definition =>
    have hwork : ∀ step ∈ definition.work launch.config, step.isDirectory = false :=
      fun _ => Definition.isDirectory_of_mem_work
    obtain ⟨hcalls, houtcomes⟩ :=
      launch.course_begun fs (s := fs.afterAll s (launch.opening fs s)) hwork
    rw [Definition.filterMap_work] at hcalls houtcomes
    simp only [Intent.ending_bind, Intent.calls_bind_ending, Intent.outcomes_bind_ending,
      course_plan]
    rw [Intent.calls_bind_of_ok rfl, Intent.outcomes_bind_of_ok rfl]
    exact ⟨congrArg (_ ++ ·) hcalls, houtcomes⟩

/-- A run without faults decides on its files, whatever it is launched with. -/
theorem decides_of_no_fault (s : σ) (h : ∀ n call, launch.faults n call = none) :
    launch.Decides fs s
      (launch.decisions fs (fs.afterAll s (launch.preparing fs s)) launch.files)
      (launch.run fs s) := by
  obtain ⟨hcalls, houtcomes⟩ := launch.intent_begun fs s
  obtain ⟨hjournal, hstate, -⟩ := launch.run_of_no_fault fs s h
  have hattempt : (launch.attempt fs s).failed = none := by
    rw [attempt, Attempt.ofCalls_of_no_fault h]
  obtain ⟨hwritten, hskipped⟩ := launch.outcomes_of_not_failed fs hattempt
  constructor
  case files => exact launch.map_file_decisions fs _ _
  case kept =>
    intro earlier decision later heq
    rw [launch.kept_of_decisions fs heq, FileSystem.keeps, fs.afterAll_append]
    simp
  case calls => rw [hjournal, hcalls]
  case written => rw [hwritten, houtcomes, Decision.filterMap_written]
  case skipped => rw [hskipped, houtcomes, Decision.filterMap_skipped]
  case state => rw [hstate, hcalls]

end Launch

end RestModule
