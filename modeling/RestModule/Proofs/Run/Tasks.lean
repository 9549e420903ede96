import RestModule.Proofs.Run.Execution
import RestModule.Proofs.Store.Task

/-!
# The tasks of a run

The calls of a run are those of tasks that do not depend on the file system
(`Launch.calls_intent`): the directories of the module, and a file for every sheet up to one that
cannot be rendered. -/

namespace RestModule

namespace Launch

variable {σ : Type} (launch : Launch) (fs : FileSystem σ)

/-- The task of a file: it is replaced unless a protection keeps it. -/
def taskOf (file : Rendered) : Task :=
  if file.protection.isLifted launch.config then .replace file else .create file

/-- The tasks of the steps of a plan, up to a sheet that cannot be rendered. -/
def tasksOf : List Step → List Task
  | [] => []
  | .enter _ :: rest | .announce _ :: rest => tasksOf rest
  | .directory path :: rest => .directory path :: tasksOf rest
  | .file sheet :: rest =>
    match launch.rendered sheet with
    | .ok file => launch.taskOf file :: tasksOf rest
    | .error _ => []

/-- The tasks of a run. -/
def tasks : List Task :=
  match launch.definition with
  | .ok definition => launch.tasksOf (definition.plan launch.config)
  | .error _ => []

theorem pending_taskOf (s : σ) (file : Rendered) :
    fs.pending s (launch.taskOf file) =
      if fs.keeps launch.config s file then [] else file.calls := by
  unfold taskOf FileSystem.keeps
  cases file.protection.isLifted launch.config <;> rfl

theorem calls_making (s : σ) {sheet : Sheet} {file : Rendered}
    (h : launch.rendered sheet = .ok file) :
    (launch.making fs s sheet).calls = fs.pending s (launch.taskOf file) := by
  rw [launch.making_eq fs h, pending_taskOf]
  rfl

theorem calls_course (s : σ) (plan : List Step) :
    (launch.course fs s plan).calls = fs.work s (launch.tasksOf plan) := by
  induction plan generalizing s with
  | nil => rfl
  | cons step rest ih =>
    cases step with
    | enter stage => exact ih s
    | announce component => exact ih s
    | directory path =>
      rw [course, tasksOf, FileSystem.work]
      cases hhas : fs.has s path with
      | true =>
        have hdoing : launch.doing fs s (.directory path) = .ending (.ok ()) := if_pos hhas
        have hpending : fs.pending s (.directory path) = [] := if_pos hhas
        rw [hdoing, hpending]
        exact ih s
      | false =>
        have hdoing : launch.doing fs s (.directory path) =
            ⟨[.createDirectory path], [], .ok ()⟩ := if_neg (Bool.eq_false_iff.mp hhas)
        have hpending : fs.pending s (.directory path) = [.createDirectory path] :=
          if_neg (Bool.eq_false_iff.mp hhas)
        rw [hdoing, hpending]
        exact congrArg _ (ih _)
    | file sheet =>
      rw [course, doing, tasksOf]
      cases hrendered : launch.rendered sheet with
      | error error =>
        have hmaking : launch.making fs s sheet = .ending (.error error) := by
          rw [making, hrendered]
          rfl
        rw [hmaking]
        rfl
      | ok file =>
        have hcalls := launch.calls_making fs s hrendered
        have hresult : (launch.making fs s sheet).result = .ok () := by
          rw [launch.making_eq fs hrendered]
        rw [Intent.calls_bind_of_ok hresult, hcalls, ih]
        rfl

/-- The calls of a run are those of its tasks. -/
theorem calls_intent (s : σ) : (launch.intent fs s).calls = fs.work s launch.tasks := by
  unfold intent tasks
  cases launch.definition with
  | error error => rfl
  | ok definition =>
    rw [Intent.ending_bind]
    exact (Intent.calls_bind_ending _ _).trans (launch.calls_course fs s _)

/-! ## Runs that succeed -/

theorem course_ok {s : σ} {plan : List Step} (h : (launch.course fs s plan).result = .ok ()) :
    ∃ files, (plan.filterMap Step.sheet?).mapM launch.rendered = .ok files := by
  induction plan generalizing s with
  | nil => exact ⟨[], rfl⟩
  | cons step rest ih =>
    obtain ⟨_, hstep, hrest⟩ := Intent.bind_ok h
    obtain ⟨files, hfiles⟩ := ih hrest
    cases step with
    | enter stage => exact ⟨files, hfiles⟩
    | announce component => exact ⟨files, hfiles⟩
    | directory path => exact ⟨files, hfiles⟩
    | file sheet =>
      obtain ⟨file, hfile, -⟩ := Intent.bind_ok hstep
      have hsheet : Step.sheet? (.file sheet) = some sheet := rfl
      refine ⟨file :: files, ?_⟩
      rw [List.filterMap_cons_some hsheet, List.mapM_cons, hfiles,
        show launch.rendered sheet = .ok file from hfile]
      rfl

/-- A run that is to succeed can render all sheets of its definition. -/
theorem intent_ok {s : σ} {definition : Definition}
    (h : (launch.intent fs s).result = .ok definition) :
    launch.definition = .ok definition ∧
      ∃ files, (definition.sheets launch.config).mapM launch.rendered = .ok files := by
  obtain ⟨other, hdefinition, hwork⟩ := Intent.bind_ok h
  obtain ⟨_, hcourse, hending⟩ := Intent.bind_ok hwork
  cases hending
  obtain ⟨files, hfiles⟩ := launch.course_ok fs hcourse
  rw [Definition.filterMap_plan] at hfiles
  exact ⟨hdefinition, files, hfiles⟩

/-- A run that succeeds has done what it was to do. -/
theorem run_ok {s : σ} {report : Report} (h : (launch.run fs s).1.result = .ok report) :
    Entry.calls (launch.run fs s).1.progress.journal = (launch.intent fs s).calls ∧
      (launch.run fs s).2 = fs.afterAll s (launch.intent fs s).calls ∧
      ∃ definition, (launch.intent fs s).result = .ok definition ∧
        report = .ofOutcomes (launch.intent fs s).outcomes definition := by
  obtain ⟨hcalls, hstate, hresult⟩ := launch.run_follows fs s
  rw [h] at hresult
  cases hfailed : (launch.attempt fs s).failed with
  | some failed =>
    rw [hfailed] at hresult
    cases hresult
  | none =>
    rw [hfailed] at hresult
    obtain ⟨definition, hdefinition, hreport⟩ := Except.map_ok hresult.symm
    refine ⟨?_, ?_, definition, hdefinition, hreport.symm⟩
    · rw [hcalls]
      exact Attempt.ofCalls_made_of_failed_eq_none hfailed
    · rw [hstate]
      exact congrArg _ (Attempt.ofCalls_done_of_failed_eq_none hfailed)

/-- What a run that succeeds reports about models is what its definition says of them. -/
theorem report_models {s : σ} {report : Report} {definition : Definition}
    (h : (launch.run fs s).1.result = .ok report) (hdefinition : launch.definition = .ok definition) :
    report.usedModels = definition.usedModels ∧
      report.unreachable = definition.unreachableModels.map (·.name) := by
  obtain ⟨-, -, other, hresult, rfl⟩ := launch.run_ok fs h
  obtain rfl := Except.ok.inj (hdefinition.symm.trans (launch.intent_ok fs hresult).1)
  exact ⟨rfl, rfl⟩

/-- A run without faults over a definition succeeds if the templates can be read. -/
theorem exists_report (s : σ) {definition : Definition}
    (hdefinition : launch.definition = .ok definition)
    (htemplates : ∀ name, (Template.builtin? name).isSome = true →
      ∃ text, launch.lookUp name = .ok text)
    (hfaults : ∀ n call, launch.faults n call = none) :
    ∃ report, (launch.run fs s).1.result = .ok report := by
  obtain ⟨files, hfiles⟩ := launch.exists_files definition htemplates
  obtain ⟨-, -, hresult⟩ := launch.run_follows fs s
  rw [attempt, Attempt.ofCalls_of_no_fault hfaults, launch.intent_eq fs hdefinition hfiles]
    at hresult
  exact ⟨_, hresult⟩

private theorem tasksOf_directories (directories : List FilePath) (rest : List Step) :
    launch.tasksOf (directories.map .directory ++ rest) =
      directories.map .directory ++ launch.tasksOf rest := by
  induction directories with
  | nil => rfl
  | cons directory more ih => exact congrArg (Task.directory directory :: ·) ih

private theorem tasksOf_work {work : List Step} {files : List Rendered}
    (hwork : ∀ step ∈ work, step.isDirectory = false)
    (hfiles : (work.filterMap Step.sheet?).mapM launch.rendered = .ok files) :
    launch.tasksOf work = files.map launch.taskOf := by
  induction work generalizing files with
  | nil =>
    cases hfiles
    rfl
  | cons step rest ih =>
    have hrest : ∀ step ∈ rest, step.isDirectory = false :=
      fun step hstep => hwork step (List.mem_cons_of_mem _ hstep)
    cases step with
    | directory path => cases hwork _ List.mem_cons_self
    | enter stage => exact ih hrest hfiles
    | announce component => exact ih hrest hfiles
    | file sheet =>
      have hsheet : Step.sheet? (.file sheet) = some sheet := rfl
      rw [List.filterMap_cons_some hsheet, List.mapM_cons] at hfiles
      obtain ⟨file, hfile, hfiles⟩ := Except.bind_ok hfiles
      obtain ⟨more, hmore, hfiles⟩ := Except.bind_ok hfiles
      cases hfiles
      rw [tasksOf, hfile, List.map_cons, ← ih hrest hmore]

/-- The tasks of a run whose sheets can be rendered. -/
theorem tasks_eq {definition : Definition} {files : List Rendered}
    (hdefinition : launch.definition = .ok definition)
    (hfiles : (definition.sheets launch.config).mapM launch.rendered = .ok files) :
    launch.tasks =
      launch.config.roots.map .directory ++ files.map launch.taskOf := by
  rw [← Definition.filterMap_work] at hfiles
  have hwork := launch.tasksOf_work (fun _ => Definition.isDirectory_of_mem_work) hfiles
  unfold tasks
  rw [hdefinition]
  simp only [Definition.plan_eq, Config.planDirectories_eq, List.cons_append, tasksOf,
    tasksOf_directories, hwork]

end Launch

end RestModule
