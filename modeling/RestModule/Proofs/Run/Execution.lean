import RestModule.Proofs.Run.Course
import RestModule.Proofs.Sheet.Place

/-!
# Runs that reach their end

A run without faults and with templates that can be read executes its plan (`Launch.run_executes`):
it creates the directories that are missing and then, place by place, keeps the file or writes it.
The places and the files that the sheets are rendered to do not depend on the file system. -/

namespace RestModule

theorem Rendered.eq_of_write_mem_calls {file : Rendered} {path : FilePath} {contents : String}
    (h : .write path contents ∈ file.calls) : path = file.path ∧ contents = file.contents := by
  rcases List.mem_append.mp h with h | h
  · obtain ⟨directory, -, heq⟩ := Option.map_eq_some_iff.mp (Option.mem_toList.mp h)
    cases heq
  · cases List.mem_singleton.mp h
    exact ⟨rfl, rfl⟩

/-- A file and whether it is left as it is. -/
structure Decision where
  file : Rendered
  kept : Bool

namespace Decision

/-- The calls that follow from a decision. -/
def calls (decision : Decision) : List Call :=
  if decision.kept then [] else decision.file.calls

/-- What becomes of the file of a decision. -/
def outcome (decision : Decision) : Outcome :=
  if decision.kept then .skipped decision.file.kept else .written decision.file.path

/-- The files that are written. -/
def writtenFiles (decisions : List Decision) : List Rendered :=
  (decisions.filter (!·.kept)).map (·.file)

/-- The files that are left as they are. -/
def keptFiles (decisions : List Decision) : List Rendered :=
  (decisions.filter (·.kept)).map (·.file)

theorem filterMap_written (decisions : List Decision) :
    (decisions.map outcome).filterMap (·.written?) = (writtenFiles decisions).map (·.path) := by
  induction decisions with
  | nil => rfl
  | cons decision rest ih =>
    obtain ⟨file, kept⟩ := decision
    cases kept <;> simp_all [outcome, writtenFiles, Outcome.written?]

theorem filterMap_skipped (decisions : List Decision) :
    (decisions.map outcome).filterMap (·.skipped?) = (keptFiles decisions).map (·.kept) := by
  induction decisions with
  | nil => rfl
  | cons decision rest ih =>
    obtain ⟨file, kept⟩ := decision
    cases kept <;> simp_all [outcome, keptFiles, Outcome.skipped?]

theorem mem_writtenFiles {decisions : List Decision} {file : Rendered} :
    file ∈ writtenFiles decisions ↔
      ∃ decision ∈ decisions, decision.kept = false ∧ decision.file = file := by
  simp [writtenFiles, and_assoc]

/-- A decision writes its own file at most. -/
theorem of_write_mem_calls {decision : Decision} {path : FilePath} {contents : String}
    (h : .write path contents ∈ decision.calls) :
    decision.kept = false ∧ path = decision.file.path := by
  unfold calls at h
  split at h
  · cases h
  · next hkept =>
    exact ⟨Bool.eq_false_iff.mpr hkept, (Rendered.eq_of_write_mem_calls h).1⟩

end Decision

/-- A configuration protects the files of a kind if it does not ask to overwrite them. -/
inductive Config.Protects (config : Config) : Protection → Prop where
  | implementation (h : config.overwriteImplementation = false) :
    Protects config .implementation
  | metadata (h : config.overwriteMetadata = false) : Protects config .metadata

theorem Config.protects_iff {config : Config} {protection : Protection} :
    config.Protects protection ↔ protection.isLifted config = false := by
  constructor
  · rintro (h | h)
    · exact h
    · exact h
  · intro h
    cases protection with
    | unprotected => cases h
    | implementation => exact .implementation h
    | metadata => exact .metadata h

/-- The directories among some that do not exist when it is their turn to be created. -/
def FileSystem.missing {σ : Type} (fs : FileSystem σ) (s : σ) : List FilePath → List FilePath
  | [] => []
  | directory :: rest =>
    if fs.has s directory then missing fs s rest
    else directory :: missing fs (fs.after s (.createDirectory directory)) rest

namespace Launch

variable {σ : Type} (launch : Launch) (fs : FileSystem σ)

/-- The calls that create the missing directories of the module. -/
def opening (s : σ) : List Call :=
  (fs.missing s launch.config.roots).map .createDirectory

/-- The decisions on files, each taken after the files before it have been made. -/
def decisions (s : σ) : List Rendered → List Decision
  | [] => []
  | file :: rest =>
    let decision := ⟨file, fs.keeps launch.config s file⟩
    decision :: decisions (fs.afterAll s decision.calls) rest

theorem map_file_decisions (s : σ) (files : List Rendered) :
    (launch.decisions fs s files).map (·.file) = files := by
  induction files generalizing s with
  | nil => rfl
  | cons file rest ih => exact congrArg _ (ih _)

/-- Every decision is taken in the state that the ones before it led to. -/
theorem kept_of_decisions {s : σ} {files : List Rendered} {earlier later : List Decision}
    {decision : Decision} (h : launch.decisions fs s files = earlier ++ decision :: later) :
    decision.kept =
      fs.keeps launch.config (fs.afterAll s (earlier.flatMap (·.calls))) decision.file := by
  induction earlier generalizing s files with
  | nil =>
    cases files with
    | nil => cases h
    | cons file rest =>
      cases (List.cons.inj h).1
      rfl
  | cons first more ih =>
    cases files with
    | nil => cases h
    | cons file rest =>
      obtain ⟨hfirst, hrest⟩ := List.cons.inj h
      rw [ih hrest, List.flatMap_cons, fs.afterAll_append, ← hfirst]

/-- The directories of a plan come to be in order. -/
theorem course_directories (s : σ) (directories : List FilePath) (rest : List Step) :
    launch.course fs s (directories.map .directory ++ rest) =
      (⟨(fs.missing s directories).map .createDirectory, [], .ok ()⟩ : Intent Unit).bind fun () =>
        launch.course fs
          (fs.afterAll s ((fs.missing s directories).map .createDirectory)) rest := by
  induction directories generalizing s with
  | nil => rfl
  | cons directory more ih =>
    rw [List.map_cons, List.cons_append, course, doing, FileSystem.missing]
    split
    · exact ih s
    · exact congrArg (Intent.bind ⟨[.createDirectory directory], [], .ok ()⟩)
        (funext fun _ => ih (fs.after s (.createDirectory directory)))

/-- A plan comes to the missing directories of the module and then its work. -/
theorem course_plan (s : σ) (definition : Definition) :
    launch.course fs s (definition.plan launch.config) =
      (⟨launch.opening fs s, [], .ok ()⟩ : Intent Unit).bind fun () =>
        launch.course fs (fs.afterAll s (launch.opening fs s)) (definition.work launch.config) := by
  rw [Definition.plan_eq, Config.planDirectories_eq]
  exact launch.course_directories fs s launch.config.roots (definition.work launch.config)

/-- The intent for a sheet that can be rendered is what follows from the decision on its file. -/
theorem making_eq {s : σ} {sheet : Sheet} {file : Rendered} (h : launch.rendered sheet = .ok file) :
    launch.making fs s sheet =
      let decision : Decision := ⟨file, fs.keeps launch.config s file⟩
      ⟨decision.calls, [decision.outcome], .ok ()⟩ := by
  unfold making placing Decision.calls Decision.outcome
  rw [h]
  cases hkeeps : fs.keeps launch.config s file with
  | true => simp [hkeeps, Intent.bind, Intent.ending]
  | false => simp [hkeeps, Intent.bind, Intent.ending]

/-- The work of a plan whose sheets can be rendered makes their files. -/
theorem course_work {s : σ} {work : List Step} {files : List Rendered}
    (hwork : ∀ step ∈ work, step.isDirectory = false)
    (hfiles : (work.filterMap Step.sheet?).mapM launch.rendered = .ok files) :
    launch.course fs s work =
      let decisions := launch.decisions fs s files
      ⟨decisions.flatMap (·.calls), decisions.map (·.outcome), .ok ()⟩ := by
  induction work generalizing s files with
  | nil =>
    cases hfiles
    rfl
  | cons step rest ih =>
    have hrest : ∀ step ∈ rest, step.isDirectory = false :=
      fun step hstep => hwork step (List.mem_cons_of_mem _ hstep)
    cases step with
    | directory path => cases hwork _ List.mem_cons_self
    | enter stage => exact ih hrest hfiles
    | announce component => exact ih hrest hfiles
    | file sheet =>
      have hsheet : Step.sheet? (.file sheet) = some sheet := rfl
      rw [List.filterMap_cons_some hsheet, List.mapM_cons] at hfiles
      obtain ⟨file, hfile, hfiles⟩ := Except.bind_ok hfiles
      obtain ⟨more, hmore, hfiles⟩ := Except.bind_ok hfiles
      cases hfiles
      rw [course, doing, launch.making_eq fs hfile]
      simp only [Intent.bind, ih hrest hmore, decisions, List.flatMap_cons, List.map_cons,
        List.singleton_append]

/-- The intent of a run whose sheets can be rendered. -/
theorem intent_eq {s : σ} {definition : Definition} {files : List Rendered}
    (hdefinition : launch.definition = .ok definition)
    (hfiles : (definition.sheets launch.config).mapM launch.rendered = .ok files) :
    launch.intent fs s =
      let decisions := launch.decisions fs (fs.afterAll s (launch.opening fs s)) files
      ⟨launch.opening fs s ++ decisions.flatMap (·.calls), decisions.map (·.outcome),
        .ok definition⟩ := by
  rw [← Definition.filterMap_work] at hfiles
  unfold intent
  rw [hdefinition, Intent.ending_bind]
  simp only [course_plan,
    launch.course_work fs (fun _ => Definition.isDirectory_of_mem_work) hfiles]
  simp [Intent.bind, Intent.ending]

/-- What a run over a definition has done in the end. -/
structure Executes (s : σ) (definition : Definition) (decisions : List Decision) (report : Report)
    (ran : Finished × σ) : Prop where
  result : ran.1.result = .ok report
  /-- The files are those of the sheets, in order and whatever the file system holds. -/
  files : (definition.sheets launch.config).mapM launch.rendered = .ok (decisions.map (·.file))
  places : decisions.map (fun decision => (decision.file.path, decision.file.protection)) =
    definition.places launch.config
  /-- A file is kept if and only if it is protected and exists at its turn. -/
  kept : ∀ earlier decision later, decisions = earlier ++ decision :: later →
    (decision.kept = true ↔ launch.config.Protects decision.file.protection ∧
      fs.has (fs.afterAll s (launch.opening fs s ++ earlier.flatMap (·.calls)))
        decision.file.path = true)
  /-- A file that is not kept is written, after its directory has been created. -/
  writes : ∀ decision ∈ decisions, ∃ directory name,
    decision.file.path.parent? = some directory ∧
      decision.file.path.components = directory.components ++ [name] ∧
      decision.calls = if decision.kept then []
        else [.createDirectory directory, .write decision.file.path decision.file.contents]
  calls : Entry.calls ran.1.progress.journal =
    launch.opening fs s ++ decisions.flatMap (·.calls)
  written : report.written = (Decision.writtenFiles decisions).map (·.path)
  skipped : report.skipped = (Decision.keptFiles decisions).map (·.kept)
  state : ran.2 = fs.afterAll s (launch.opening fs s ++ decisions.flatMap (·.calls))
  untouched : ∀ path, (∀ file ∈ report.written, path.same file = false) →
    fs.read? ran.2 path = fs.read? s path

/-- Templates that can be read render every sheet. -/
theorem exists_files (definition : Definition)
    (htemplates : ∀ name, (Template.builtin? name).isSome = true →
      ∃ text, launch.lookUp name = .ok text) :
    ∃ files, (definition.sheets launch.config).mapM launch.rendered = .ok files := by
  refine Except.exists_mapM_ok fun sheet hsheet => ?_
  cases hrendered : launch.rendered sheet with
  | ok file => exact ⟨file, rfl⟩
  | error error =>
    obtain ⟨name, hname, herror⟩ := rendered_error hrendered
    obtain ⟨text, htext⟩ := htemplates name (Definition.builtin_of_mem_sheets hsheet hname)
    cases herror.symm.trans htext

/-- A run without faults whose templates can be read executes the plan of its definition. -/
theorem run_executes (s : σ) {definition : Definition}
    (hconfig : launch.config.validate = .ok ())
    (htext : Definition.ofText launch.text = .ok definition)
    (htemplates : ∀ name, (Template.builtin? name).isSome = true →
      ∃ text, launch.lookUp name = .ok text)
    (hfaults : ∀ n call, launch.faults n call = none) :
    ∃ decisions report, launch.Executes fs s definition decisions report (launch.run fs s) := by
  obtain ⟨files, hfiles⟩ := launch.exists_files definition htemplates
  have hdefinition : launch.definition = .ok definition := by
    rw [Launch.definition, hconfig]
    exact htext
  have hintent := launch.intent_eq fs hdefinition hfiles (s := s)
  obtain ⟨hcalls, hstate, hresult⟩ := launch.run_follows fs s
  rw [attempt, Attempt.ofCalls_of_no_fault hfaults, hintent] at hcalls hstate hresult
  generalize hdecisions :
    launch.decisions fs (fs.afterAll s (launch.opening fs s)) files = decisions
    at hcalls hstate hresult
  have hmap : decisions.map (·.file) = files := by rw [← hdecisions, map_file_decisions]
  refine ⟨decisions, _,
    { result := hresult
      files := by rw [hmap]; exact hfiles
      places := ?_
      kept := ?_
      writes := ?_
      calls := by rw [hcalls]; simp [Attempt.made]
      written := Decision.filterMap_written decisions
      skipped := Decision.filterMap_skipped decisions
      state := hstate
      untouched := ?_ }⟩
  · have hplaces := map_of_rendered Prod.mk hfiles
    rw [Definition.map_sheets_eq_places, ← hmap, List.map_map] at hplaces
    exact hplaces
  · intro earlier decision later heq
    rw [launch.kept_of_decisions fs (hdecisions.trans heq), FileSystem.keeps, fs.afterAll_append,
      Config.protects_iff]
    simp
  · intro decision hdecision
    have hfile : decision.file ∈ files := hmap ▸ List.mem_map_of_mem hdecision
    obtain ⟨sheet, hsheet, hrendered⟩ := Except.exists_of_mem_mapM hfiles hfile
    obtain ⟨directory, hdirectory⟩ := Definition.exists_parent_of_mem_sheets hsheet
    rw [← (rendered_ok hrendered).1] at hdirectory
    obtain ⟨name, hname⟩ := FilePath.components_parent hdirectory
    refine ⟨directory, name, hdirectory, hname, ?_⟩
    rw [Decision.calls, Rendered.calls, hdirectory]
    rfl
  · intro path hpath
    rw [hstate]
    refine fs.read?_afterAll (fun file contents hmem => ?_) s
    rcases List.mem_append.mp hmem with hmem | hmem
    · obtain ⟨directory, -, heq⟩ := List.mem_map.mp hmem
      cases heq
    · obtain ⟨decision, hdecision, hmem⟩ := List.mem_flatMap.mp hmem
      obtain ⟨hkept, rfl⟩ := Decision.of_write_mem_calls hmem
      refine hpath _ ?_
      simp only [Report.ofOutcomes, Decision.filterMap_written]
      exact List.mem_map_of_mem (Decision.mem_writtenFiles.mpr ⟨decision, hdecision, hkept, rfl⟩)

theorem run_executes_shop :
    let s := Memory.empty.withFile ⟨"shop-rest/bnd.bnd"⟩ "edited"
    ∃ definition decisions report, Definition.ofText shop.text = .ok definition ∧
      shop.config.roots =
        [⟨"shop-rest"⟩, ⟨"shop-rest/src/main/java"⟩, ⟨"shop-rest/src/main/resources"⟩] ∧
      definition.places shop.config =
        [(⟨"shop-rest/bnd.bnd"⟩, .metadata), (⟨"shop-rest/build.gradle"⟩, .unprotected),
          (⟨"shop-rest/src/main/java/org/shop/rest/resource/ProductsResource.java"⟩, .unprotected),
          (⟨"shop-rest/src/main/java/org/shop/rest/internal/resource/ProductsResourceImpl.java"⟩,
            .implementation),
          (⟨"shop-rest/src/main/java/org/shop/rest/dto/ProductDTO.java"⟩, .unprotected),
          (⟨"shop-rest/src/main/java/org/shop/rest/ShopApplication.java"⟩, .unprotected)] ∧
      shop.Executes Memory.fileSystem s definition decisions report
        (shop.run Memory.fileSystem s) := by
  intro s
  have hread : (Definition.ofText shop.text).toOption.map (·.places shop.config) = some
      [(⟨"shop-rest/bnd.bnd"⟩, .metadata), (⟨"shop-rest/build.gradle"⟩, .unprotected),
        (⟨"shop-rest/src/main/java/org/shop/rest/resource/ProductsResource.java"⟩, .unprotected),
        (⟨"shop-rest/src/main/java/org/shop/rest/internal/resource/ProductsResourceImpl.java"⟩,
          .implementation),
        (⟨"shop-rest/src/main/java/org/shop/rest/dto/ProductDTO.java"⟩, .unprotected),
        (⟨"shop-rest/src/main/java/org/shop/rest/ShopApplication.java"⟩, .unprotected)] := by
    decide +kernel
  obtain ⟨definition, htext, hplaces⟩ := Except.exists_ok_of_map hread
  have hbuiltins : shop.UsesBuiltins := .of_no_directory rfl
  obtain ⟨decisions, report, h⟩ := shop.run_executes Memory.fileSystem s validate_shop htext
    (fun _ => hbuiltins.exists_text) (fun _ _ => rfl)
  exact ⟨definition, decisions, report, htext, by decide +kernel, hplaces, h⟩

end Launch

end RestModule
