import RestModule.Proofs.Except
import RestModule.Proofs.Run.Launch

/-!
# The sheets of a definition

The sheets that a plan goes through (`Definition.filterMap_plan`), where their files go, and what
rendering them can lead to. All of their templates are built in, so none of them is ever missing. -/

namespace RestModule

/-- The sheets of a definition, in the order in which a run makes them. -/
def Definition.sheets (definition : Definition) (config : Config) : List Sheet :=
  [.bundle config, .build config]
    ++ definition.resources.flatMap (fun resource =>
      [.interface config definition.version resource,
        .implementation config definition.version resource])
    ++ definition.models.map (.model config)
    ++ [.application config definition.resources]

namespace Sheet

/-- What the file of a sheet may be called, by what protects it. -/
inductive Named (config : Config) : Protection → String → Prop where
  | bundle : Named config .metadata "bnd.bnd"
  | build : Named config .unprotected "build.gradle"
  | interface (resource : String) :
    Named config .unprotected (Naming.interfaceClass resource ++ ".java")
  | implementation (resource : String) :
    Named config .implementation (Naming.implementationClass resource ++ ".java")
  | model (component : String) : Named config .unprotected (Naming.modelClass component ++ ".java")
  | application : Named config .unprotected (config.applicationClass ++ ".java")

/-- No file of a sheet is named like a directory. -/
theorem Named.ends {config : Config} {protection : Protection} {part : String}
    (h : Named config protection part) :
    ∃ t c, part.toList = t ++ [c] ∧ c ≠ '/' ∧ c ≠ '.' := by
  have hclass : ∀ name : String, ∃ t c, (name ++ ".java").toList = t ++ [c] ∧ c ≠ '/' ∧ c ≠ '.' :=
    fun name => ⟨name.toList ++ ".jav".toList, 'a', by simp [String.toList_append], by decide,
      by decide⟩
  cases h with
  | bundle => exact ⟨"bnd.bn".toList, 'd', by decide, by decide, by decide⟩
  | build => exact ⟨"build.gradl".toList, 'e', by decide, by decide, by decide⟩
  | interface resource => exact hclass _
  | implementation resource => exact hclass _
  | model component => exact hclass _
  | application => exact hclass _

/-- A file in a directory is named like the end of what it is called there. -/
theorem Named.name_suffix {config : Config} {protection : Protection} {part : String}
    (h : Named config protection part) (base : FilePath) :
    (base.join part).name.toList <:+ part.toList := by
  obtain ⟨t, c, hpart, hslash, hdot⟩ := h.ends
  exact FilePath.name_join_suffix hpart hslash hdot

end Sheet

namespace Template

private theorem isSome_builtin : ∀ name ∈ [applicationFile, basicAuthenticationFile, bundleFile,
    buildFile, modelFile, implementationFile, interfaceFile], (builtin? name).isSome = true := by
  decide

end Template

/-! ## Plans -/

namespace Step

/-- The sheet of a step that makes a file. -/
def sheet? : Step → Option Sheet
  | file sheet => some sheet
  | _ => none

/-- Whether a step creates a directory. -/
def isDirectory : Step → Bool
  | directory _ => true
  | _ => false

end Step

namespace Definition

/-- The steps of a plan after the directories of the module. -/
def work (definition : Definition) (config : Config) : List Step :=
  [.enter .metadata, .file (.bundle config), .file (.build config)]
    ++ .enter .resources :: definition.resources.flatMap (Plan.ofResource config definition.version)
    ++ .enter .models :: definition.models.flatMap
      (Plan.ofModel config (definition.reachable definition.usedModels))
    ++ [.enter .application, .file (.application config definition.resources)]

theorem plan_eq (definition : Definition) (config : Config) :
    definition.plan config =
      .enter .directories :: (Plan.directories config).map .directory
        ++ definition.work config := by
  simp only [plan, work, List.append_assoc]

variable {definition : Definition} {config : Config}

private theorem filterMap_ofResource (version : String) (resources : List Resource) :
    (resources.flatMap (Plan.ofResource config version)).filterMap Step.sheet? =
      resources.flatMap fun resource =>
        [.interface config version resource, .implementation config version resource] := by
  induction resources with
  | nil => rfl
  | cons resource rest ih =>
    rw [List.flatMap_cons, List.filterMap_append, ih]
    rfl

private theorem filterMap_ofModel (reachable : List String) (models : List Component) :
    (models.flatMap (Plan.ofModel config reachable)).filterMap Step.sheet? =
      models.map (.model config) := by
  induction models with
  | nil => rfl
  | cons component rest ih =>
    rw [List.flatMap_cons, List.filterMap_append, ih]
    unfold Plan.ofModel
    split <;> rfl

/-- The work of a plan is to make the files of the sheets. -/
theorem filterMap_work :
    (definition.work config).filterMap Step.sheet? = definition.sheets config := by
  simp only [work, List.filterMap_append, List.filterMap_cons, filterMap_ofResource,
    filterMap_ofModel, Step.sheet?, List.filterMap_nil, sheets]

theorem filterMap_plan :
    (definition.plan config).filterMap Step.sheet? = definition.sheets config := by
  rw [plan_eq, List.filterMap_append, filterMap_work]
  rfl

theorem isDirectory_of_mem_work {step : Step} (h : step ∈ definition.work config) :
    step.isDirectory = false := by
  simp only [work, List.mem_append, List.mem_cons, List.mem_flatMap, List.not_mem_nil,
    or_false] at h
  rcases h with (((rfl | rfl | rfl) | rfl | ⟨resource, -, h⟩) | rfl | ⟨component, -, h⟩) | rfl | rfl
  case inl.inl.inr.inr =>
    simp only [Plan.ofResource, List.mem_cons, List.not_mem_nil, or_false] at h
    rcases h with rfl | rfl <;> rfl
  case inl.inr.inr =>
    unfold Plan.ofModel at h
    split at h <;> simp at h <;> rcases h with rfl | rfl <;> rfl
  all_goals rfl

theorem mem_sheets {sheet : Sheet} :
    sheet ∈ definition.sheets config ↔
      sheet = .bundle config ∨ sheet = .build config ∨
        (∃ resource ∈ definition.resources,
          sheet = .interface config definition.version resource ∨
            sheet = .implementation config definition.version resource) ∨
        (∃ component ∈ definition.models, sheet = .model config component) ∨
        sheet = .application config definition.resources := by
  simp only [sheets, List.mem_append, List.mem_cons, List.mem_flatMap, List.mem_map,
    List.not_mem_nil, or_false, or_assoc, eq_comm]

/-- Every sheet's file stands in a directory under a name that goes with its protection. -/
theorem named_of_mem_sheets {sheet : Sheet} (h : sheet ∈ definition.sheets config) :
    ∃ (base : FilePath) (part : String), sheet.path = base.join part ∧
      Sheet.Named config sheet.protection part := by
  rcases mem_sheets.mp h with rfl | rfl | ⟨resource, -, rfl | rfl⟩ | ⟨component, -, rfl⟩ | rfl <;>
    simp only [Sheet.bundle, Sheet.build, Sheet.interface, Sheet.implementation, Sheet.model,
      Sheet.application, Sheet.classFile]
  · exact ⟨_, _, rfl, .bundle⟩
  · exact ⟨_, _, rfl, .build⟩
  · exact ⟨_, _, rfl, .interface resource.name⟩
  · exact ⟨_, _, rfl, .implementation resource.name⟩
  · exact ⟨_, _, rfl, .model component.name⟩
  · exact ⟨_, _, rfl, .application⟩

/-- The directory of every sheet's file is known. -/
theorem exists_parent_of_mem_sheets {sheet : Sheet} (h : sheet ∈ definition.sheets config) :
    ∃ directory, sheet.path.parent? = some directory := by
  obtain ⟨base, part, hpath, hnamed⟩ := named_of_mem_sheets h
  obtain ⟨t, c, hpart, hslash, hdot⟩ := hnamed.ends
  rw [hpath]
  exact FilePath.exists_parent_join base hpart hslash hdot

/-- Every template of a sheet is built in. -/
theorem builtin_of_mem_sheets {sheet : Sheet} {name : String} (h : sheet ∈ definition.sheets config)
    (hname : name ∈ sheet.templates) : (Template.builtin? name).isSome = true := by
  refine Template.isSome_builtin name ?_
  rcases mem_sheets.mp h with rfl | rfl | ⟨resource, -, rfl | rfl⟩ | ⟨component, -, rfl⟩ | rfl
  case inr.inr.inr.inr =>
    simp only [Sheet.templates, Sheet.application] at hname
    split at hname <;> simp only [List.map_cons, List.map_nil, List.mem_append, List.mem_cons,
      List.not_mem_nil, or_false, false_or] at hname
    · rcases hname with rfl | rfl <;> simp
    · simp [hname]
  all_goals
    rw [List.mem_singleton.mp hname]
    simp [Sheet.bundle, Sheet.build, Sheet.interface, Sheet.implementation, Sheet.model]

end Definition

/-! ## Rendering -/

namespace Template.Library

/-- A built-in template is never missing. -/
theorem answer_error {look : FilePath → Override} {library : Library} {name : String}
    {error : Error} (hname : (builtin? name).isSome = true)
    (h : library.answer look name = .error error) :
    ∃ file fault, error = .templateUnreadable file fault := by
  obtain ⟨text, htext⟩ := Option.isSome_iff_exists.mp hname
  unfold answer freshAnswer builtinAnswer at h
  rw [htext] at h
  split at h
  · cases h
  · split at h
    · cases h
    · split at h
      · cases h
      · cases h
        exact ⟨_, _, rfl⟩
      · cases h

end Template.Library

namespace Launch

variable {launch : Launch} {sheet : Sheet}

/-- A file is the template of its sheet, filled in with a text for every insertion. -/
theorem exists_filled {file : Rendered} (h : launch.rendered sheet = .ok file) :
    ∃ inserted text, inserted.map (·.1) = sheet.insertions.map (·.1) ∧
      launch.lookUp sheet.template = .ok text ∧ file = sheet.filled inserted text := by
  obtain ⟨inserted, hinserted, h⟩ := Except.bind_ok h
  obtain ⟨text, htext, h⟩ := Except.bind_ok h
  cases h
  refine ⟨inserted, text, Except.map_of_mapM hinserted fun insertion entry hentry => ?_, htext, rfl⟩
  obtain ⟨inner, -, hentry⟩ := Except.bind_ok hentry
  cases hentry
  rfl

theorem rendered_ok {file : Rendered} (h : launch.rendered sheet = .ok file) :
    file.path = sheet.path ∧ file.protection = sheet.protection := by
  obtain ⟨inserted, text, -, -, rfl⟩ := exists_filled h
  exact ⟨rfl, rfl⟩

/-- What the paths and the protections of files say, those of their sheets say. -/
theorem map_of_rendered {α : Type} (f : FilePath → Protection → α) {sheets : List Sheet}
    {files : List Rendered} (h : sheets.mapM launch.rendered = .ok files) :
    files.map (fun file => f file.path file.protection) =
      sheets.map (fun sheet => f sheet.path sheet.protection) := by
  refine Except.map_of_mapM h fun sheet file hfile => ?_
  obtain ⟨hpath, hprotection⟩ := rendered_ok hfile
  rw [hpath, hprotection]

theorem rendered_error {error : Error} (h : launch.rendered sheet = .error error) :
    ∃ name ∈ sheet.templates, launch.lookUp name = .error error := by
  rcases Except.bind_error h with h | ⟨inserted, -, h⟩
  · obtain ⟨insertion, hmem, h⟩ := Except.mapM_error h
    have hname : insertion.2 ∈ sheet.templates :=
      List.mem_append_left _ (List.mem_map.mpr ⟨insertion, hmem, rfl⟩)
    rcases Except.bind_error h with h | ⟨text, -, h⟩
    · exact ⟨insertion.2, hname, h⟩
    · cases h
  · rcases Except.bind_error h with h | ⟨text, -, h⟩
    · exact ⟨sheet.template, List.mem_append_right _ List.mem_cons_self, h⟩
    · cases h

/-- Every built-in template is used as it is. -/
def UsesBuiltins (launch : Launch) : Prop :=
  ∀ name text, Template.builtin? name = some text → launch.lookUp name = .ok text

theorem UsesBuiltins.of_no_directory (h : launch.library = .ofDirectory none) :
    launch.UsesBuiltins := by
  intro name text htext
  rw [lookUp, h]
  simp only [Template.Library.answer, Template.Library.ofDirectory, List.lookup_nil,
    Template.Library.freshAnswer, Template.Library.builtinAnswer, htext]

theorem UsesBuiltins.exists_text (h : launch.UsesBuiltins) {name : String}
    (hname : (Template.builtin? name).isSome = true) : ∃ text, launch.lookUp name = .ok text := by
  obtain ⟨text, htext⟩ := Option.isSome_iff_exists.mp hname
  exact ⟨text, h name text htext⟩

theorem rendered_of_builtin (hbuiltins : launch.UsesBuiltins) {text : String}
    (hinsertions : sheet.insertions = []) (htext : Template.builtin? sheet.template = some text) :
    launch.rendered sheet = .ok (sheet.filled [] text) := by
  rw [rendered, Sheet.render, hinsertions, hbuiltins _ _ htext]
  rfl

end Launch

end RestModule
