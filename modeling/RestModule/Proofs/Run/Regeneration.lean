import RestModule.Proofs.Run.Interruption
import RestModule.Proofs.Run.Tasks

/-!
# Running again

The state that a run leaves shows that its tasks have been done. So the same run from there succeeds
too, and changes nothing (`Launch.rerun_idempotent`); and a run that was stopped at any of its calls
is made up for by the same run from where it stopped (`Launch.rerun_recovers`). -/

namespace RestModule

/-! ## Protected and unprotected files -/

/-- What is said of the file of a sheet that is kept. -/
def Sheet.kept (sheet : Sheet) : Kept := ⟨sheet.path, sheet.protection⟩

namespace Definition

variable (definition : Definition) (config : Config)

/-- The sheets whose files nothing protects, in the order of a plan. -/
def unprotectedSheets : List Sheet :=
  .build config :: definition.resources.map (.interface config definition.version)
    ++ definition.models.map (.model config) ++ [.application config definition.resources]

/-- The sheets whose files are protected, in the order of a plan. -/
def protectedSheets : List Sheet :=
  .bundle config :: definition.resources.map (.implementation config definition.version)

private theorem filter_flatMap {α β : Type} {p : β → Bool} {f g : α → β} (hf : ∀ a, p (f a) = true)
    (hg : ∀ a, p (g a) = false) (as : List α) :
    (as.flatMap fun a => [f a, g a]).filter p = as.map f ∧
      (as.flatMap fun a => [f a, g a]).filter (!p ·) = as.map g := by
  induction as with
  | nil => exact ⟨rfl, rfl⟩
  | cons a rest ih => simp [List.flatMap_cons, hf, hg, ih]

variable {config}

/-- With no protection lifted, the sheets of a definition are divided into the unprotected and the
protected ones. -/
theorem filter_sheets (himplementation : config.overwriteImplementation = false)
    (hmetadata : config.overwriteMetadata = false) :
    (definition.sheets config).filter (·.protection.isLifted config) =
        definition.unprotectedSheets config ∧
      (definition.sheets config).filter (!·.protection.isLifted config) =
        definition.protectedSheets config := by
  have hlifted : ∀ sheet : Sheet, sheet.protection = .unprotected →
      sheet.protection.isLifted config = true := by
    intro sheet h
    rw [h]
    rfl
  obtain ⟨hresources, hkept⟩ := filter_flatMap (p := fun sheet => sheet.protection.isLifted config)
    (f := Sheet.interface config definition.version)
    (g := Sheet.implementation config definition.version) (fun _ => hlifted _ rfl)
    (fun _ => himplementation) definition.resources
  have hmodels : ∀ sheet ∈ definition.models.map (Sheet.model config),
      sheet.protection.isLifted config = true := by
    intro sheet hsheet
    obtain ⟨component, -, rfl⟩ := List.mem_map.mp hsheet
    rfl
  have hbundle : (Sheet.bundle config).protection.isLifted config = false := hmetadata
  have hbuild := hlifted (.build config) rfl
  have happlication := hlifted (.application config definition.resources) rfl
  constructor
  · simp only [sheets, List.filter_append, hresources, List.filter_eq_self.mpr hmodels,
      List.filter_cons, hbundle, hbuild, happlication, List.filter_nil]
    rfl
  · have hnone : (definition.models.map (Sheet.model config)).filter
        (!·.protection.isLifted config) = [] :=
      List.filter_eq_nil_iff.mpr fun sheet hsheet => by simp [hmodels sheet hsheet]
    simp only [sheets, List.filter_append, hkept, hnone, List.filter_cons, hbundle, hbuild,
      happlication, List.filter_nil, List.append_nil]
    simp [protectedSheets]

end Definition

/-! ## Decisions where everything exists -/

theorem FileSystem.missing_eq_nil {σ : Type} {fs : FileSystem σ} {s : σ}
    {directories : List FilePath} (h : ∀ directory ∈ directories, fs.has s directory = true) :
    fs.missing s directories = [] := by
  induction directories with
  | nil => rfl
  | cons directory rest ih =>
    rw [missing, if_pos (h directory List.mem_cons_self)]
    exact ih fun other hother => h other (List.mem_cons_of_mem _ hother)

namespace Decision

variable {config : Config}

theorem writtenFiles_of_kept (files : List Rendered) (kept : Rendered → Bool) :
    writtenFiles (files.map fun file => ⟨file, kept file⟩) = files.filter (!kept ·) := by
  simp [writtenFiles, List.filter_map, Function.comp_def]

theorem keptFiles_of_kept (files : List Rendered) (kept : Rendered → Bool) :
    keptFiles (files.map fun file => ⟨file, kept file⟩) = files.filter (kept ·) := by
  simp [keptFiles, List.filter_map, Function.comp_def]

end Decision

namespace Launch

variable {σ : Type} (launch : Launch) (fs : FileSystem σ)

/-- Where all files exist, those are kept whose protection is not lifted. -/
theorem decisions_of_has {s : σ} {files : List Rendered}
    (h : ∀ file ∈ files, fs.has s file.path = true) :
    launch.decisions fs s files =
      files.map fun file => ⟨file, !file.protection.isLifted launch.config⟩ := by
  induction files generalizing s with
  | nil => rfl
  | cons file rest ih =>
    have hkeeps : fs.keeps launch.config s file = !file.protection.isLifted launch.config := by
      rw [FileSystem.keeps, h file List.mem_cons_self, Bool.and_true]
    rw [decisions, hkeeps, List.map_cons, ih fun other hother =>
      FileSystem.has_afterAll (h other (List.mem_cons_of_mem _ hother)) _]

theorem has_of_made {s : σ} {file : Rendered} (h : fs.Made s (launch.taskOf file)) :
    fs.has s file.path = true := by
  unfold taskOf at h
  split at h
  · exact h.1
  · exact h

/-- What a run is to do where its tasks have been done: to write the files whose protection is
lifted. -/
theorem intent_of_made {s : σ} {definition : Definition} {files : List Rendered}
    (hdefinition : launch.definition = .ok definition)
    (hfiles : (definition.sheets launch.config).mapM launch.rendered = .ok files)
    (h : ∀ task ∈ launch.tasks, fs.Made s task) :
    (launch.intent fs s).result = .ok definition ∧
      (launch.intent fs s).outcomes.filterMap (·.written?) =
        ((definition.sheets launch.config).filter (·.protection.isLifted launch.config)).map
          (·.path) ∧
      (launch.intent fs s).outcomes.filterMap (·.skipped?) =
        ((definition.sheets launch.config).filter (!·.protection.isLifted launch.config)).map
          (·.kept) := by
  rw [launch.tasks_eq hdefinition hfiles] at h
  have hopening : launch.opening fs s = [] := by
    rw [opening, FileSystem.missing_eq_nil, List.map_nil]
    intro directory hdirectory
    exact h (.directory directory) (List.mem_append_left _ (List.mem_map_of_mem hdirectory))
  have hdecisions : launch.decisions fs s files =
      files.map fun file => ⟨file, !file.protection.isLifted launch.config⟩ := by
    refine launch.decisions_of_has fs fun file hfile => launch.has_of_made fs ?_
    exact h (launch.taskOf file) (List.mem_append_right _ (List.mem_map_of_mem hfile))
  have hsheets : files.map (·.kept) = (definition.sheets launch.config).map (·.kept) :=
    map_of_rendered Kept.mk hfiles
  -- a choice by protections is the same among the files and among the sheets
  have hchoice : ∀ p : Protection → Bool, (files.filter (p ·.protection)).map (·.kept) =
      ((definition.sheets launch.config).filter (p ·.protection)).map (·.kept) := by
    intro p
    have h := congrArg (List.filter (p ·.protection)) hsheets
    rwa [List.filter_map, List.filter_map] at h
  rw [launch.intent_eq fs hdefinition hfiles, hopening, fs.afterAll_nil, hdecisions]
  refine ⟨rfl, ?_, ?_⟩
  · have hpaths := congrArg (List.map (·.path)) (hchoice (·.isLifted launch.config))
    rw [List.map_map, List.map_map] at hpaths
    simp only [Decision.filterMap_written, Decision.writtenFiles_of_kept, Bool.not_not]
    exact hpaths
  · simpa only [Decision.filterMap_skipped, Decision.keptFiles_of_kept] using
      hchoice (!·.isLifted launch.config)

/-! ## Running again -/

/-- After a run that succeeds, with no protection lifted, the same run succeeds again and changes
nothing. It keeps the protected files and writes the others. -/
theorem rerun_idempotent (s : σ) {report : Report}
    (himplementation : launch.config.overwriteImplementation = false)
    (hmetadata : launch.config.overwriteMetadata = false)
    (hfaults : ∀ n call, launch.faults n call = none)
    (hrun : (launch.run fs s).1.result = .ok report) :
    ∃ definition, launch.definition = .ok definition ∧
      fs.Alike (launch.run fs (launch.run fs s).2).2 (launch.run fs s).2 ∧
        (launch.run fs (launch.run fs s).2).1.result = .ok
          { report with
            written := (definition.unprotectedSheets launch.config).map (·.path)
            skipped := (definition.protectedSheets launch.config).map (·.kept) } := by
  obtain ⟨-, hstate, definition, hintent, rfl⟩ := launch.run_ok fs hrun
  obtain ⟨hdefinition, files, hfiles⟩ := launch.intent_ok fs hintent
  have hsettled : fs.Settled (launch.run fs s).2 launch.tasks := by
    rw [hstate, calls_intent]
    exact FileSystem.settled_worked s launch.tasks
  generalize (launch.run fs s).2 = later at hsettled
  obtain ⟨-, hstate, hresult⟩ := launch.run_of_no_fault fs later hfaults
  obtain ⟨hagain, hwritten, hskipped⟩ :=
    launch.intent_of_made fs hdefinition hfiles hsettled.made
  obtain ⟨hunprotected, hprotected⟩ := definition.filter_sheets himplementation hmetadata
  refine ⟨definition, hdefinition, ?_, ?_⟩
  · rw [hstate, calls_intent]
    exact hsettled.alike
  · rw [hresult, hagain]
    simp only [Except.map, Report.ofOutcomes, hwritten, hskipped, hunprotected, hprotected]

theorem rerun_idempotent_shop :
    ∃ report definition, (shop.run Memory.fileSystem .empty).1.result = .ok report ∧
      shop.definition = .ok definition ∧
      Memory.fileSystem.Alike
        (shop.run Memory.fileSystem (shop.run Memory.fileSystem .empty).2).2
        (shop.run Memory.fileSystem .empty).2 ∧
        (shop.run Memory.fileSystem (shop.run Memory.fileSystem .empty).2).1.result = .ok
          { report with
            written := (definition.unprotectedSheets shop.config).map (·.path)
            skipped := (definition.protectedSheets shop.config).map (·.kept) } := by
  have hread : shop.definition.toOption.isSome = true := by decide +kernel
  obtain ⟨definition, hdefinition⟩ := Except.exists_ok_of_isSome hread
  have hbuiltins : shop.UsesBuiltins := .of_no_directory rfl
  obtain ⟨report, hrun⟩ := shop.exists_report Memory.fileSystem .empty hdefinition
    (fun _ => hbuiltins.exists_text) (fun _ _ => rfl)
  obtain ⟨definition, hdefinition, hagain⟩ :=
    shop.rerun_idempotent Memory.fileSystem .empty rfl rfl (fun _ _ => rfl) hrun
  exact ⟨report, definition, hrun, hdefinition, hagain⟩

/-- A run that was stopped by a fault is made up for by the same run from where it stopped. -/
theorem rerun_recovers (hmakes : fs.MakesAbove) (s : σ) :
    fs.Alike (launch.faultless.run fs (launch.run fs s).2).2 (launch.faultless.run fs s).2 := by
  obtain ⟨-, hstate, -⟩ := launch.run_follows fs s
  obtain ⟨-, hwhole, -⟩ := launch.run_faultless fs s
  obtain ⟨-, hagain, -⟩ := launch.run_faultless fs (launch.run fs s).2
  have hdone : (launch.attempt fs s).done <+: fs.work s launch.tasks := by
    rw [← calls_intent]
    exact Attempt.ofCalls_done_initial 0 _
  rw [hagain, hwhole, hstate, calls_intent, calls_intent]
  exact FileSystem.alike_worked_of_initial hmakes hdone

end Launch

namespace Memory

/-- The directories of a memory. -/
def directoryView : fileSystem.Directories where
  isDirectory memory path := decide (path.normal.text ∈ memory.directories)
  isDirectory_createDirectory memory directory path := by
    rw [Bool.eq_iff_iff, Bool.or_eq_true, decide_eq_true_iff, decide_eq_true_iff]
    exact mem_addName.trans (or_congr_right FilePath.same_iff_normal.symm)
  isDirectory_write _ _ _ _ := rfl

theorem makesAbove : fileSystem.MakesAbove := by
  intro directory path h
  exact ⟨[], by rw [List.append_nil, FilePath.same_iff_components.mp h]⟩

end Memory

namespace Launch

theorem rerun_recovers_shop :
    (Entry.calls
        ((shopFailingAt 6).run Memory.fileSystem .empty).1.progress.journal).length = 7 ∧
      Memory.fileSystem.MakesAbove ∧
      Memory.fileSystem.Alike
        ((shopFailingAt 6).faultless.run Memory.fileSystem
          ((shopFailingAt 6).run Memory.fileSystem .empty).2).2
        ((shopFailingAt 6).faultless.run Memory.fileSystem .empty).2 := by
  have hlength : (Entry.calls
      ((shopFailingAt 6).run Memory.fileSystem .empty).1.progress.journal).length = 7 := by
    decide +kernel
  exact ⟨hlength, Memory.makesAbove,
    (shopFailingAt 6).rerun_recovers Memory.fileSystem Memory.makesAbove .empty⟩

end Launch

end RestModule
