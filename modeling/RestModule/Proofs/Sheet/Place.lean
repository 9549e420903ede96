import RestModule.Proofs.Sheet.Class
import RestModule.Proofs.Spec.Names

/-!
# Where the files of a module lie

The files of a module and what protects them (`Definition.places`): the sheets of its definition make
them in this order (`Definition.map_sheets_eq_places`).

Every file lies in directories below the output path whose names are identifiers, and its own name
has a dot in it, which theirs have not (`Definition.exists_lies`). So nothing that the description
calls things leads out of the output path, and no file of a module stands where a directory of it or
a template would. -/

namespace RestModule

namespace FilePath

/-- A part that leads from a directory to something in it. -/
def IsInner (part : String) : Prop :=
  IsOrdinary part ∧ part ≠ ".."

/-- A path whose components are those of a directory and then parts that lead further into it. -/
def IsWithin (path directory : FilePath) : Prop :=
  ∃ parts, path.components = directory.components ++ parts ∧ ∀ part ∈ parts, IsInner part

end FilePath

open FilePath (IsInner IsOrdinary IsWithin)

theorem Naming.IsName.isInner {name : String} (h : Naming.IsName name) (hne : name ≠ "") :
    IsInner name := by
  refine ⟨h.isOrdinary hne, ?_⟩
  rintro rfl
  exact absurd (h '.' (by decide)) (by decide)

/-- The classes of a module whose configuration and description are accepted. -/
theorem Sheet.Declares.isClass {config : Config} {definition : Definition} {sheet : Sheet}
    {i : Import} (hconfig : config.validate = .ok ())
    (hresources : ∀ resource ∈ definition.resources, Naming.IsName resource.name)
    (h : Sheet.Declares config definition sheet i) : i.IsClass := by
  obtain ⟨hpackages, happlication⟩ := Config.valid_of_validate hconfig
  simp only [Config.packages, List.forall_mem_cons] at hpackages
  obtain ⟨happlicationPackage, -, hmodels, hinterfaces, himplementations, -⟩ := hpackages
  cases h with
  | interface hresource =>
    exact ⟨hinterfaces, Naming.interfaceClass_isName (hresources _ hresource)⟩
  | implementation hresource =>
    exact ⟨himplementations, Naming.implementationClass_isName (hresources _ hresource)⟩
  | model hcomponent => exact ⟨hmodels, Naming.modelClass_isName _⟩
  | application => exact ⟨happlicationPackage, (Naming.IsName.of_isIdentifier happlication).1⟩

/-- The directories of a module, each below the output path. -/
def Config.directory (config : Config) (names : List String) : FilePath :=
  names.foldl FilePath.join config.outputPath

/-- The directories that every module has. -/
def Config.roots (config : Config) : List FilePath :=
  [config.outputPath, config.directory ["src", "main", "java"],
    config.directory ["src", "main", "resources"]]

/-- The file of a class, below the sources where its package leads to. -/
def Config.sourceFile (config : Config) (package name : String) : FilePath :=
  config.directory (["src", "main", "java"] ++ Text.splitAt '.' package ++ [name ++ ".java"])

/-- A list of names of directories in a module. -/
def IsDirectories (names : List String) : Prop :=
  ∀ name ∈ names, Naming.IsName name ∧ name ≠ ""

namespace Config

variable {config : Config} {names : List String}

theorem components_directory (h : ∀ name ∈ names, IsOrdinary name) :
    (config.directory names).components = config.outputPath.components ++ names :=
  FilePath.components_foldl_join h config.outputPath

theorem directory_append (names more : List String) :
    config.directory (names ++ more) = more.foldl FilePath.join (config.directory names) :=
  List.foldl_append

theorem sourceRoot_eq : config.sourceRoot = config.directory ["src", "main", "java"] := by
  simp only [sourceRoot, directory, List.foldl_cons, List.foldl_nil]

theorem resourceRoot_eq : config.resourceRoot = config.directory ["src", "main", "resources"] := by
  simp only [resourceRoot, directory, List.foldl_cons, List.foldl_nil]

/-- The directories that a plan starts with. -/
theorem planDirectories_eq : Plan.directories config = config.roots := by
  rw [Plan.directories, sourceRoot_eq, resourceRoot_eq, roots]

theorem roots_eq : config.roots =
    [[], ["src", "main", "java"], ["src", "main", "resources"]].map config.directory := rfl

theorem classFile_eq (package name : String) :
    Sheet.classFile config package name = config.sourceFile package name := by
  rw [Sheet.classFile, packageDir, sourceRoot_eq, sourceFile, directory_append, directory_append]
  rfl

end Config

namespace Definition

/-- The files of a module in the order in which they are made, each with what protects it. -/
def places (definition : Definition) (config : Config) : List (FilePath × Protection) :=
  [(config.directory ["bnd.bnd"], .metadata), (config.directory ["build.gradle"], .unprotected)]
    ++ definition.resources.flatMap (fun resource =>
      [(config.sourceFile config.interfacePackage (Naming.interfaceClass resource.name),
          .unprotected),
        (config.sourceFile config.implementationPackage
          (Naming.implementationClass resource.name), .implementation)])
    ++ (definition.components.filter (!·.isParameter)).map (fun component =>
      (config.sourceFile config.modelPackage (Naming.modelClass component.name), .unprotected))
    ++ [(config.sourceFile config.apiPackage config.applicationClass, .unprotected)]

/-- The sheets make the files of the module. -/
theorem map_sheets_eq_places (definition : Definition) (config : Config) :
    (definition.sheets config).map (fun sheet => (sheet.path, sheet.protection)) =
      definition.places config := by
  have hdescriptor : ∀ file : String, config.outputPath.join file = config.directory [file] :=
    fun _ => rfl
  simp only [sheets, models, List.map_append, List.map_flatMap, List.map_map, List.map_cons,
    List.map_nil, Function.comp_def, Sheet.bundle, Sheet.build, Sheet.interface,
    Sheet.implementation, Sheet.model, Sheet.application, Config.classFile_eq, hdescriptor, places]

end Definition

namespace Sheet

/-- The file of a sheet lies in directories of the module and has a name with a dot in it, which
does not end as those of templates do. -/
structure Lies (config : Config) (sheet : Sheet) (names : List String) (file : String) : Prop where
  path : sheet.path = config.directory (names ++ [file])
  named : IsDirectories names
  inner : IsInner file
  dot : '.' ∈ file.toList
  ending : file.toList.getLast? ≠ some 'l'

namespace Lies

variable {config : Config} {sheet : Sheet} {names : List String} {file : String}

theorem isInner (h : sheet.Lies config names file) :
    ∀ part ∈ names ++ [file], IsInner part := by
  intro part hpart
  rcases List.mem_append.mp hpart with hpart | hpart
  · exact (h.named part hpart).1.isInner (h.named part hpart).2
  · rw [List.mem_singleton.mp hpart]
    exact h.inner

theorem components (h : sheet.Lies config names file) :
    sheet.path.components = config.outputPath.components ++ (names ++ [file]) := by
  rw [h.path]
  exact Config.components_directory fun part hpart => (h.isInner part hpart).1

/-- The directory that the file is in. -/
theorem components_parent (h : sheet.Lies config names file) {directory : FilePath}
    (hparent : sheet.path.parent? = some directory) :
    directory.components = config.outputPath.components ++ names := by
  obtain ⟨last, hlast⟩ := FilePath.components_parent hparent
  rw [h.components, ← List.append_assoc] at hlast
  exact ((List.append_inj' hlast rfl).1).symm

/-- A file does not stand where a directory of the module is, nor above one. -/
theorem not_above (h : sheet.Lies config names file) {others : List String}
    (hothers : IsDirectories others) : ¬ names ++ [file] <+: others := by
  intro habove
  have hmem := habove.subset (List.mem_append_right _ List.mem_cons_self)
  exact (hothers file hmem).1.not_mem (by decide) h.dot

end Lies

private theorem toList_sourceFile (name : String) :
    (name ++ ".java").toList = (name.toList ++ ".jav".toList) ++ ['a'] := by
  simp [String.toList_append]

/-- The file of a class lies below the source root. -/
theorem Declares.lies {config : Config} {definition : Definition} {sheet : Sheet} {i : Import}
    (h : Declares config definition sheet i) (hclass : i.IsClass) :
    sheet.Lies config (["src", "main", "java"] ++ Text.splitAt '.' i.package)
      (i.name ++ ".java") where
  path := by
    rw [h.path_eq, Config.classFile_eq, Config.sourceFile]
  named := by
    intro name hname
    rcases List.mem_append.mp hname with hname | hname
    · have hsource : ∀ name ∈ ["src", "main", "java"], Naming.IsName name ∧ name ≠ "" := by decide
      exact hsource name hname
    · exact Naming.IsName.of_isIdentifier (List.all_eq_true.mp hclass.package name hname)
  inner := by
    refine ⟨⟨?_, FilePath.isIdle_of_concat (toList_sourceFile i.name) (by decide)⟩, fun heq => ?_⟩
    · rw [String.toList_append, List.mem_append, not_or]
      exact ⟨hclass.name.not_mem (by decide), by decide⟩
    · have hlast :=
        congrArg List.getLast? ((toList_sourceFile i.name).symm.trans (congrArg String.toList heq))
      rw [List.getLast?_concat] at hlast
      exact absurd hlast (by decide)
  dot := by
    rw [String.toList_append]
    exact List.mem_append_right _ (by decide)
  ending := by
    rw [toList_sourceFile, List.getLast?_concat]
    decide

end Sheet

/-- The file of every sheet lies in the module. -/
theorem Definition.exists_lies {config : Config} {text : String} {definition : Definition}
    {sheet : Sheet} (hconfig : config.validate = .ok ())
    (htext : Definition.ofText text = .ok definition)
    (h : sheet ∈ definition.sheets config) :
    ∃ names file, sheet.Lies config names file := by
  have hdescriptor : ∀ file : String, IsInner file → '.' ∈ file.toList →
      file.toList.getLast? ≠ some 'l' → sheet.path = config.outputPath.join file →
        sheet.Lies config [] file :=
    fun file hfile hdot hending hpath =>
      ⟨hpath, fun _ hname => (List.not_mem_nil hname).elim, hfile, hdot, hending⟩
  rcases Sheet.declares_of_mem_sheets h with rfl | rfl | ⟨i, hdeclares⟩
  · exact ⟨[], _, hdescriptor "bnd.bnd" ⟨by decide, by decide⟩ (by decide) (by decide) rfl⟩
  · exact ⟨[], _, hdescriptor "build.gradle" ⟨by decide, by decide⟩ (by decide) (by decide) rfl⟩
  · exact ⟨_, _, hdeclares.lies (hdeclares.isClass hconfig (isName_of_ofText htext))⟩

end RestModule
