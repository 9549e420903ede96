import RestModule.Proofs.Run.Tasks
import RestModule.Proofs.Sheet.Imports

/-!
# Sources that point at sources

What a generated source takes from the module, a run with the built-in templates has generated too:
there is a file where the package says, and it holds the source of the class
(`Launch.sources_point_at_sources`). What a source of a resource imports is read off its text: lines
for the models of the resource, in an implementation a line for the interface, and otherwise classes
from outside of the module only (`Sheet.interface_imports`, `Sheet.implementation_imports`). -/

namespace RestModule

open Source (importLines)

/-! ## Imports of sources -/

namespace Source

/-- The line that imports a class by its full name. -/
def importOf (name : String) : String :=
  "import " ++ name ++ ";"

theorem importOf_qualified (i : Import) : importOf i.qualified = i.line := rfl

/-- The classes of the core package that the sources of resources import. -/
def coreClasses : List String :=
  [".context.Language", ".context.Pagination", ".model.CollectionDTO"]

/-- The classes of libraries that the sources of resources import. -/
def libraryClasses : List String :=
  ["javax.annotation.Generated", "javax.ws.rs.Consumes", "javax.ws.rs.DELETE", "javax.ws.rs.GET",
    "javax.ws.rs.HEAD", "javax.ws.rs.OPTIONS", "javax.ws.rs.PATCH", "javax.ws.rs.POST",
    "javax.ws.rs.PUT", "javax.ws.rs.Path", "javax.ws.rs.PathParam", "javax.ws.rs.Produces",
    "javax.ws.rs.QueryParam", "javax.ws.rs.core.Context", "javax.ws.rs.core.Response",
    "org.osgi.service.component.annotations.Component"]

end Source

namespace Config

/-- The lines that import the models of a resource, in order. -/
def modelLines (config : Config) (resource : Resource) : List String :=
  resource.models.map fun model =>
    Source.importOf (config.modelPackage ++ "." ++ Naming.modelClass model)

/-- The line that imports the interface of a resource. -/
def interfaceLine (config : Config) (resource : Resource) : String :=
  Source.importOf (config.interfacePackage ++ "." ++ Naming.interfaceClass resource.name)

/-- The lines with which the sources of resources import classes from outside of the module. -/
def outsideLines (config : Config) : List String :=
  (Source.coreClasses.map (config.corePackage ++ ·) ++ Source.libraryClasses).map Source.importOf

variable (config : Config) (resource : Resource)

theorem map_line_modelImports :
    (resource.modelImports config.modelPackage).map Import.line = config.modelLines resource := by
  rw [Resource.modelImports, List.map_map]
  rfl

theorem outside_of_mem_coreImports :
    ∀ i ∈ resource.coreImports config.corePackage, i.line ∈ config.outsideLines := by
  have hcore : ∀ part name : String, part ++ "." ++ name ∈ Source.coreClasses →
      Import.line ⟨config.corePackage ++ part, name⟩ ∈ config.outsideLines := by
    intro part name hmem
    refine List.mem_map.mpr ⟨_, List.mem_append_left _ (List.mem_map_of_mem hmem), ?_⟩
    simp only [← Source.importOf_qualified, Import.qualified, String.append_assoc]
  intro i hi
  rcases List.mem_cons.mp hi with rfl | hi
  · exact hcore ".context" "Language" (by decide)
  · split at hi
    · simp only [List.mem_cons, List.not_mem_nil, or_false] at hi
      rcases hi with rfl | rfl
      · exact hcore ".context" "Pagination" (by decide)
      · exact hcore ".model" "CollectionDTO" (by decide)
    · cases hi

theorem outside_of_mem_libraries :
    ∀ i ∈ Import.generated :: Import.component :: Import.web, i.line ∈ config.outsideLines := by
  have hlibraries : ∀ i ∈ Import.generated :: Import.component :: Import.web,
      i.qualified ∈ Source.libraryClasses := by decide
  exact fun i hi => List.mem_map_of_mem (List.mem_append_right _ (hlibraries i hi))

end Config

namespace Sheet

variable {config : Config} (version : String) {resource : Resource}

/-- What an interface imports besides the models of its resource is outside of the module. -/
theorem interface_imports (hconfig : config.validate = .ok ()) :
    ∃ outside, importLines (interfaceSource config version resource) =
        config.modelLines resource ++ outside ∧
      outside ⊆ config.outsideLines := by
  refine ⟨(resource.coreImports config.corePackage ++ [Import.generated] ++
    resource.webImports).map Import.line, ?_, ?_⟩
  · rw [importLines_interface version hconfig, interfaceClasses]
    simp only [List.map_append, List.append_assoc, config.map_line_modelImports]
  · intro line hline
    obtain ⟨i, hi, rfl⟩ := List.mem_map.mp hline
    rcases List.mem_append.mp hi with hi | hi
    · rcases List.mem_append.mp hi with hi | hi
      · exact config.outside_of_mem_coreImports resource i hi
      · refine config.outside_of_mem_libraries i ?_
        rw [List.mem_singleton.mp hi]
        exact List.mem_cons_self
    · refine config.outside_of_mem_libraries i ?_
      exact List.mem_cons_of_mem _ (List.mem_cons_of_mem _ (resource.webImports_subset i hi))

/-- What an implementation imports besides the models and the interface of its resource is outside
of the module. -/
theorem implementation_imports (hconfig : config.validate = .ok ())
    (hresource : Naming.IsName resource.name) :
    ∃ core others, importLines (implementationSource config version resource) =
        config.modelLines resource ++ core ++ [config.interfaceLine resource] ++ others ∧
      core ⊆ config.outsideLines ∧ others ⊆ config.outsideLines := by
  refine ⟨(resource.coreImports config.corePackage).map Import.line,
    ((if resource.methods.any (·.response.isNone) then [Import.response] else []) ++
      [Import.component]).map Import.line, ?_, ?_, ?_⟩
  · rw [importLines_implementation version hconfig hresource, implementationClasses,
      implementationImports]
    simp only [List.map_append, List.append_assoc, config.map_line_modelImports]
    rfl
  · intro line hline
    obtain ⟨i, hi, rfl⟩ := List.mem_map.mp hline
    exact config.outside_of_mem_coreImports resource i hi
  · intro line hline
    obtain ⟨i, hi, rfl⟩ := List.mem_map.mp hline
    refine config.outside_of_mem_libraries i ?_
    rcases List.mem_append.mp hi with hi | hi
    · split at hi
      · rw [List.mem_singleton.mp hi]
        decide
      · cases hi
    · rw [List.mem_singleton.mp hi]
      exact List.mem_cons_of_mem _ List.mem_cons_self

end Sheet

/-! ## Runs that succeed -/

namespace Launch

variable {σ : Type} (launch : Launch) (fs : FileSystem σ)

/-- What a run that succeeds writes: files of its sheets, among them all that are not protected. -/
structure Writes (s : σ) (files : List Rendered) (report : Report) (ran : Finished × σ) : Prop where
  state : ran.2 = fs.afterAll s (Entry.calls ran.1.progress.journal)
  sound : ∀ path contents, .write path contents ∈ Entry.calls ran.1.progress.journal →
    ∃ file ∈ files, path = file.path ∧ contents = file.contents
  complete : ∀ file ∈ files, file.protection.isLifted launch.config = true →
    file.path ∈ report.written ∧
      .write file.path file.contents ∈ Entry.calls ran.1.progress.journal
  /-- A file that is not written is reported as left. -/
  settled : ∀ file ∈ files,
    .write file.path file.contents ∈ Entry.calls ran.1.progress.journal ∨
      file.kept ∈ report.skipped

theorem run_writes {s : σ} {report : Report} (h : (launch.run fs s).1.result = .ok report) :
    ∃ definition files, launch.definition = .ok definition ∧
      (definition.sheets launch.config).mapM launch.rendered = .ok files ∧
      launch.Writes fs s files report (launch.run fs s) := by
  obtain ⟨hcalls, hstate, definition, hresult, rfl⟩ := launch.run_ok fs h
  obtain ⟨hdefinition, files, hfiles⟩ := launch.intent_ok fs hresult
  refine ⟨definition, files, hdefinition, hfiles, ?_⟩
  have hintent := launch.intent_eq fs hdefinition hfiles (s := s)
  generalize hdecisions :
    launch.decisions fs (fs.afterAll s (launch.opening fs s)) files = decisions at hintent
  have hmap : decisions.map (·.file) = files := by rw [← hdecisions, map_file_decisions]
  rw [hintent] at hcalls hstate ⊢
  have hwritten : ∀ decision ∈ decisions, decision.kept = false →
      .write decision.file.path decision.file.contents ∈
        Entry.calls (launch.run fs s).1.progress.journal := by
    intro decision hdecision hkept
    rw [hcalls]
    refine List.mem_append_right _ (List.mem_flatMap.mpr ⟨decision, hdecision, ?_⟩)
    rw [Decision.calls, hkept]
    exact List.mem_append_right _ List.mem_cons_self
  constructor
  case state => rw [hstate, hcalls]
  case sound =>
    intro path contents hmem
    rw [hcalls] at hmem
    rcases List.mem_append.mp hmem with hmem | hmem
    · obtain ⟨directory, -, heq⟩ := List.mem_map.mp hmem
      cases heq
    · obtain ⟨decision, hdecision, hmem⟩ := List.mem_flatMap.mp hmem
      have hfile : decision.file ∈ files := hmap ▸ List.mem_map_of_mem hdecision
      refine ⟨decision.file, hfile, ?_⟩
      unfold Decision.calls at hmem
      split at hmem
      · cases hmem
      · exact Rendered.eq_of_write_mem_calls hmem
  case complete =>
    intro file hfile hlifted
    rw [← hmap] at hfile
    obtain ⟨decision, hdecision, rfl⟩ := List.mem_map.mp hfile
    have hkept : decision.kept = false := by
      obtain ⟨earlier, later, heq⟩ := List.append_of_mem hdecision
      rw [launch.kept_of_decisions fs (hdecisions.trans heq), FileSystem.keeps, hlifted]
      rfl
    refine ⟨?_, hwritten decision hdecision hkept⟩
    simp only [Report.ofOutcomes, Decision.filterMap_written]
    exact List.mem_map_of_mem (Decision.mem_writtenFiles.mpr ⟨decision, hdecision, hkept, rfl⟩)
  case settled =>
    intro file hfile
    rw [← hmap] at hfile
    obtain ⟨decision, hdecision, rfl⟩ := List.mem_map.mp hfile
    cases hkept : decision.kept with
    | false => exact .inl (hwritten decision hdecision hkept)
    | true =>
      right
      simp only [Report.ofOutcomes, Decision.filterMap_skipped]
      exact List.mem_map_of_mem (List.mem_map_of_mem (List.mem_filter.mpr ⟨hdecision, hkept⟩))

variable {launch} {definition : Definition} {sheet : Sheet} {i : Import}

/-- The file of an unprotected sheet is written. -/
theorem Writes.exists_written {s : σ} {report : Report} {files : List Rendered}
    {ran : Finished × σ} (h : launch.Writes fs s files report ran)
    (hfiles : (definition.sheets launch.config).mapM launch.rendered = .ok files)
    (hsheet : sheet ∈ definition.sheets launch.config)
    (hprotection : sheet.protection = .unprotected) :
    ∃ file, launch.rendered sheet = .ok file ∧ file.path = sheet.path ∧
      file.path ∈ report.written ∧
        .write file.path file.contents ∈ Entry.calls ran.1.progress.journal := by
  obtain ⟨file, hfile, hrendered⟩ := Except.exists_mem_of_mapM hfiles hsheet
  obtain ⟨hpath, hfileProtection⟩ := rendered_ok hrendered
  have hlifted : file.protection.isLifted launch.config = true := by
    rw [hfileProtection, hprotection]
    rfl
  exact ⟨file, hrendered, hpath, h.complete file hfile hlifted⟩

/-! ## Sources of classes -/

theorem rendered_interface (hbuiltins : launch.UsesBuiltins) (version : String)
    (resource : Resource) : launch.rendered (.interface launch.config version resource) = .ok
      { path := launch.config.sourceFile launch.config.interfacePackage
          (Naming.interfaceClass resource.name)
        contents := Sheet.interfaceSource launch.config version resource
        protection := .unprotected } := by
  have htext : Template.builtin? Template.interfaceFile = some Template.interfaceText := rfl
  rw [rendered_of_builtin hbuiltins rfl htext, ← Config.classFile_eq, Sheet.interfaceSource,
    Sheet.filled, Sheet.interface]

theorem rendered_implementation (hbuiltins : launch.UsesBuiltins) (version : String)
    (resource : Resource) : launch.rendered (.implementation launch.config version resource) = .ok
      { path := launch.config.sourceFile launch.config.implementationPackage
          (Naming.implementationClass resource.name)
        contents := Sheet.implementationSource launch.config version resource
        protection := .implementation } := by
  have htext : Template.builtin? Template.implementationFile = some Template.implementationText :=
    rfl
  rw [rendered_of_builtin hbuiltins rfl htext, ← Config.classFile_eq, Sheet.implementationSource,
    Sheet.filled, Sheet.implementation]

theorem isSource_of_rendered (hbuiltins : launch.UsesBuiltins)
    (h : Sheet.Declares launch.config definition sheet i) (hname : Naming.IsName i.name)
    {file : Rendered} (hfile : launch.rendered sheet = .ok file) : i.IsSource file.contents := by
  obtain ⟨inserted, text, hnames, htext, rfl⟩ := exists_filled hfile
  obtain ⟨builtin, hbuiltin⟩ : ∃ builtin, Template.builtin? sheet.template = some builtin := by
    refine Option.isSome_iff_exists.mp (Definition.builtin_of_mem_sheets h.mem_sheets ?_)
    exact List.mem_append_right _ List.mem_cons_self
  cases htext.symm.trans (hbuiltins _ _ hbuiltin)
  exact h.isSource hname hnames hbuiltin

theorem isClass_of_declares (hdefinition : launch.definition = .ok definition)
    (h : Sheet.Declares launch.config definition sheet i) : i.IsClass := by
  obtain ⟨_, hconfig, htext⟩ := Except.bind_ok hdefinition
  exact h.isClass hconfig (Definition.isName_of_ofText htext)

/-- What a run that succeeds writes to the file of a class, a sheet of the same class has made. -/
theorem exists_declares_of_write {s : σ} {report : Report} {files : List Rendered}
    (hdefinition : launch.definition = .ok definition)
    (hfiles : (definition.sheets launch.config).mapM launch.rendered = .ok files)
    (hwrites : launch.Writes fs s files report (launch.run fs s)) (hclass : i.IsClass)
    {path : FilePath} {contents : String}
    (hwrite : .write path contents ∈ Entry.calls (launch.run fs s).1.progress.journal)
    (hsame : (Sheet.classFile launch.config i.package i.name).same path = true) :
    ∃ sheet file, Sheet.Declares launch.config definition sheet i ∧
      launch.rendered sheet = .ok file ∧ contents = file.contents := by
  obtain ⟨file, hfile, rfl, rfl⟩ := hwrites.sound path contents hwrite
  obtain ⟨sheet, hsheet, hrendered⟩ := Except.exists_of_mem_mapM hfiles hfile
  rw [(rendered_ok hrendered).1] at hsame
  rcases Sheet.declares_of_mem_sheets hsheet with rfl | rfl | ⟨j, hdeclares⟩
  · exact absurd hsame (Bool.eq_false_iff.mp (hclass.not_same_descriptor (by decide)))
  · exact absurd hsame (Bool.eq_false_iff.mp (hclass.not_same_descriptor (by decide)))
  · -- classes with one file are one
    rw [hdeclares.path_eq] at hsame
    obtain rfl := hclass.eq_of_same (isClass_of_declares hdefinition hdeclares) hsame
    exact ⟨sheet, file, hdeclares, hrendered, rfl⟩

variable (launch) in
/-- A run provides a class: its file is among those reported as written, and whatever the run wrote
there is its source. -/
structure Provides (s : σ) (report : Report) (i : Import) : Prop where
  reported : launch.config.sourceFile i.package i.name ∈ report.written
  written : ∃ contents, .write (launch.config.sourceFile i.package i.name) contents ∈
    Entry.calls (launch.run fs s).1.progress.journal
  source : ∀ path contents,
    .write path contents ∈ Entry.calls (launch.run fs s).1.progress.journal →
      (launch.config.sourceFile i.package i.name).same path = true → i.IsSource contents
  left : ∃ contents,
    fs.read? (launch.run fs s).2 (launch.config.sourceFile i.package i.name) = some contents ∧
      i.IsSource contents

/-- A run that succeeds provides the classes of its unprotected sheets. -/
theorem provides_of_declares {s : σ} {report : Report} {files : List Rendered}
    (hbuiltins : launch.UsesBuiltins) (hdefinition : launch.definition = .ok definition)
    (hfiles : (definition.sheets launch.config).mapM launch.rendered = .ok files)
    (hwrites : launch.Writes fs s files report (launch.run fs s))
    (h : Sheet.Declares launch.config definition sheet i)
    (hprotection : sheet.protection = .unprotected) : launch.Provides fs s report i := by
  have hclass := isClass_of_declares hdefinition h
  have hplace := launch.config.classFile_eq i.package i.name
  obtain ⟨file, -, hpath, hreported, hwritten⟩ :=
    hwrites.exists_written fs hfiles h.mem_sheets hprotection
  rw [hpath, h.path_eq, hplace] at hreported hwritten
  have hsource : ∀ path contents,
      .write path contents ∈ Entry.calls (launch.run fs s).1.progress.journal →
        (launch.config.sourceFile i.package i.name).same path = true →
          i.IsSource contents := by
    intro path contents hmem hsame
    rw [← hplace] at hsame
    obtain ⟨other, file, hdeclares, hrendered, rfl⟩ :=
      exists_declares_of_write fs hdefinition hfiles hwrites hclass hmem hsame
    exact isSource_of_rendered hbuiltins hdeclares hclass.name hrendered
  refine ⟨hreported, ⟨file.contents, hwritten⟩, hsource, ?_⟩
  obtain ⟨path, contents, hmem, hsame, hread⟩ := fs.exists_read?_afterAll
    ⟨_, _, hwritten, FilePath.same_self _⟩ s
  rw [hwrites.state]
  exact ⟨contents, hread, hsource path contents hmem hsame⟩

variable (launch) in
/-- The sources of a resource, as a run makes them, import classes that the run provides: the models
of the resource, and in the implementation the interface. What else they import is from outside of
the module. -/
structure ImportsSources (s : σ) (version : String) (report : Report) (resource : Resource) :
    Prop where
  interfaceWritten :
    .write (launch.config.sourceFile launch.config.interfacePackage
        (Naming.interfaceClass resource.name))
      (Sheet.interfaceSource launch.config version resource) ∈
        Entry.calls (launch.run fs s).1.progress.journal
  implementationSettled :
    let path := launch.config.sourceFile launch.config.implementationPackage
      (Naming.implementationClass resource.name)
    .write path (Sheet.implementationSource launch.config version resource) ∈
        Entry.calls (launch.run fs s).1.progress.journal ∨
      ⟨path, .implementation⟩ ∈ report.skipped
  interfaceImports : ∃ outside,
    importLines (Sheet.interfaceSource launch.config version resource) =
        launch.config.modelLines resource ++ outside ∧
      outside ⊆ launch.config.outsideLines
  implementationImports : ∃ core others,
    importLines (Sheet.implementationSource launch.config version resource) =
        launch.config.modelLines resource ++ core ++ [launch.config.interfaceLine resource]
          ++ others ∧
      core ⊆ launch.config.outsideLines ∧ others ⊆ launch.config.outsideLines
  models : ∀ model ∈ resource.models,
    launch.Provides fs s report ⟨launch.config.modelPackage, Naming.modelClass model⟩
  interface : launch.Provides fs s report
    ⟨launch.config.interfacePackage, Naming.interfaceClass resource.name⟩

variable (launch) in
/-- The sources of a run over a definition point at classes that the run provides. -/
structure PointsAtSources (s : σ) (definition : Definition) (report : Report) : Prop where
  resources : ∀ resource ∈ definition.resources,
    launch.ImportsSources fs s definition.version report resource
  properties : ∀ component ∈ definition.models, ∀ property ∈ component.properties,
    "DTO".toList <:+ (elementType property.javaType).toList →
      launch.Provides fs s report ⟨launch.config.modelPackage, elementType property.javaType⟩

theorem importsSources_of_mem {s : σ} {report : Report} {files : List Rendered}
    (hbuiltins : launch.UsesBuiltins) (hdefinition : launch.definition = .ok definition)
    (hfiles : (definition.sheets launch.config).mapM launch.rendered = .ok files)
    (hwrites : launch.Writes fs s files report (launch.run fs s)) {resource : Resource}
    (hresource : resource ∈ definition.resources) :
    launch.ImportsSources fs s definition.version report resource := by
  obtain ⟨_, hconfig, htext⟩ := Except.bind_ok hdefinition
  have hprovides : ∀ {sheet i}, Sheet.Declares launch.config definition sheet i →
      sheet.protection = .unprotected → launch.Provides fs s report i :=
    provides_of_declares fs hbuiltins hdefinition hfiles hwrites
  constructor
  case interfaceWritten =>
    obtain ⟨file, hrendered, -, -, hwrite⟩ :=
      hwrites.exists_written fs hfiles (Sheet.Declares.interface hresource).mem_sheets rfl
    obtain rfl := Except.ok.inj (hrendered.symm.trans (rendered_interface hbuiltins _ resource))
    -- the fields of the file are read off first, or the templates would be unfolded
    dsimp only at hwrite
    exact hwrite
  case implementationSettled =>
    obtain ⟨file, hfile, hrendered⟩ :=
      Except.exists_mem_of_mapM hfiles (Sheet.Declares.implementation hresource).mem_sheets
    obtain rfl :=
      Except.ok.inj (hrendered.symm.trans (rendered_implementation hbuiltins _ resource))
    have hsettled := hwrites.settled _ hfile
    dsimp only [Rendered.kept] at hsettled
    exact hsettled
  case interfaceImports => exact Sheet.interface_imports definition.version hconfig
  case implementationImports =>
    exact Sheet.implementation_imports definition.version hconfig
      (Definition.isName_of_ofText htext resource hresource)
  case models =>
    intro model hmodel
    obtain ⟨component, hcomponent, rfl⟩ :=
      (Definition.closed_of_ofText htext).models resource hresource model hmodel
    exact hprovides (.model hcomponent) rfl
  case interface => exact hprovides (.interface hresource) rfl

variable (launch) in
/-- A run with the built-in templates that succeeds provides every class of the module that its
sources point at. -/
theorem sources_point_at_sources (s : σ) {report : Report} (hbuiltins : launch.UsesBuiltins)
    (hrun : (launch.run fs s).1.result = .ok report) :
    ∃ definition, launch.definition = .ok definition ∧
      launch.PointsAtSources fs s definition report := by
  obtain ⟨definition, files, hdefinition, hfiles, hwrites⟩ := launch.run_writes fs hrun
  obtain ⟨_, -, htext⟩ := Except.bind_ok hdefinition
  refine ⟨definition, hdefinition, ?_, ?_⟩
  · exact fun resource hresource =>
      importsSources_of_mem fs hbuiltins hdefinition hfiles hwrites hresource
  · intro component hcomponent property hproperty hmodel
    have htypes := (Definition.closed_of_ofText htext).properties component
      (List.mem_filter.mp hcomponent).1 property hproperty
    obtain ⟨name, hname, heq⟩ := TypeMap.exists_model_of_types htypes hmodel
    obtain ⟨model, hmem, rfl⟩ := List.mem_map.mp hname
    rw [heq]
    exact provides_of_declares fs hbuiltins hdefinition hfiles hwrites (.model hmem) rfl

/-- A launch for a description whose resource takes a model with a property of the same model. -/
def orders : Launch :=
  { shop with
    text :=
      "\x7b\"components\":\x7b\"schemas\":\x7b\"Order\":\x7b\"properties\":\x7b\"next\":"
        ++ "\x7b\"$ref\":\"#/components/schemas/Order\"\x7d\x7d\x7d\x7d\x7d,"
        ++ "\"paths\":\x7b\"/orders\":\x7b\"post\":\x7b\"requestBody\":\x7b\"content\":"
        ++ "\x7b\"json\":\x7b\"schema\":\x7b\"$ref\":\"#/components/schemas/Order\""
        ++ "\x7d\x7d\x7d\x7d\x7d\x7d\x7d\x7d" }

theorem sources_point_at_sources_orders :
    ∃ report definition, orders.UsesBuiltins ∧
      (orders.run Memory.fileSystem .empty).1.result = .ok report ∧
      orders.definition = .ok definition ∧
      (definition.resources.map fun resource =>
        (orders.config.modelLines resource, orders.config.interfaceLine resource)) =
          [(["import org.shop.rest.dto.OrderDTO;"],
            "import org.shop.rest.resource.OrdersResource;")] ∧
      definition.models.flatMap (·.properties.map (elementType ·.javaType)) = ["OrderDTO"] ∧
      orders.PointsAtSources Memory.fileSystem .empty definition report := by
  have hbuiltins : orders.UsesBuiltins := .of_no_directory rfl
  have hread : orders.definition.toOption.map (fun definition =>
      (definition.resources.map fun resource =>
        (orders.config.modelLines resource, orders.config.interfaceLine resource),
        definition.models.flatMap (·.properties.map (elementType ·.javaType)))) =
      some ([(["import org.shop.rest.dto.OrderDTO;"],
        "import org.shop.rest.resource.OrdersResource;")], ["OrderDTO"]) := by
    decide +kernel
  obtain ⟨definition, hdefinition, hparts⟩ := Except.exists_ok_of_map hread
  obtain ⟨hlines, htypes⟩ := Prod.mk.inj hparts
  obtain ⟨report, hrun⟩ := orders.exists_report Memory.fileSystem .empty hdefinition
    (fun _ => hbuiltins.exists_text) (fun _ _ => rfl)
  obtain ⟨found, hfound, hpoints⟩ :=
    orders.sources_point_at_sources Memory.fileSystem .empty hbuiltins hrun
  cases hdefinition.symm.trans hfound
  exact ⟨report, definition, hbuiltins, hrun, hdefinition, hlines, htypes, hpoints⟩

end Launch

end RestModule
