import RestModule.Proofs.Run.Sources
import RestModule.Proofs.Sheet.Clash

/-!
# The files of models

A run writes the models of a definition one after another, and the application class last. Each
component is left with a file of its own that holds its model if the models have different classes,
none of which is the application class, and only then (`Launch.models_kept`): the names of components
are made into names of classes without a look at each other. -/

namespace RestModule

/-! ## Classes of models -/

namespace Config

def modelOf (config : Config) (component : Component) : Import :=
  ⟨config.modelPackage, Naming.modelClass component.name⟩

def application (config : Config) : Import :=
  ⟨config.apiPackage, config.applicationClass⟩

theorem path_model (config : Config) (component : Component) :
    (Sheet.model config component).path =
      Sheet.classFile config (config.modelOf component).package (config.modelOf component).name := by
  simp only [Sheet.model, modelOf]

theorem path_application (config : Config) (resources : List Resource) :
    (Sheet.application config resources).path =
      Sheet.classFile config config.application.package config.application.name := by
  simp only [Sheet.application, application]

end Config

/-- The models of a definition have different classes, and the application class is none of them. -/
structure Definition.ModelsApart (definition : Definition) (config : Config) : Prop where
  classes : (definition.models.map config.modelOf).Nodup
  application : config.application ∉ definition.models.map config.modelOf

namespace Sheet

variable {config : Config} {definition : Definition} {sheet : Sheet}

/-- If models are apart, only its own sheet makes the class of a model. -/
theorem Declares.eq_model {component : Component} {i : Import}
    (h : Declares config definition sheet i) (hi : config.modelOf component = i)
    (hapart : definition.ModelsApart config) (hcomponent : component ∈ definition.models) :
    sheet = .model config component := by
  have hmodel : "DTO".toList <:+ i.name.toList := hi ▸ Naming.suffix_modelClass component.name
  -- the names of interfaces and implementations end otherwise than those of models
  cases h with
  | interface hresource =>
    exact absurd hmodel (Naming.not_model_of_suffix (Naming.suffix_interfaceClass _))
  | implementation hresource =>
    exact absurd hmodel (Naming.not_model_of_suffix (Naming.suffix_implementationClass _))
  | model hother => rw [List.inj_on_of_nodup_map hapart.classes hcomponent hother hi]
  | application =>
    have hmem : config.application ∈ definition.models.map config.modelOf :=
      List.mem_map.mpr ⟨component, hcomponent, hi⟩
    exact absurd hmem hapart.application

/-- The source of an application class is that of no model, as the one imports what the other does
not. -/
theorem application_ne_model (hconfig : config.validate = .ok ()) (resources : List Resource)
    {inserted : List (String × String)} (component : Component)
    (hinserted : inserted.map (·.1) = (application config resources).insertions.map (·.1)) :
    ((application config resources).filled inserted Template.applicationText).contents ≠
      modelSource config component := by
  intro heq
  have hlines := congrArg Source.importLines heq
  rw [importLines_application hconfig resources hinserted, importLines_model hconfig component]
    at hlines
  have hother : ∀ date ∈ [[], [Import.date]],
      applicationClasses.map Import.line ≠
        (date ++ [Import.generated] ++ [Import.root]).map Import.line := by decide
  unfold modelClasses at hlines
  split at hlines
  · exact hother [Import.date] (by simp) hlines
  · exact hother [] (by simp) hlines

end Sheet

/-! ## What a run leaves -/

namespace Launch

variable {σ : Type} {launch : Launch} (fs : FileSystem σ) {definition : Definition}

theorem rendered_model (hbuiltins : launch.UsesBuiltins) (component : Component) :
    launch.rendered (.model launch.config component) =
      .ok ((Sheet.model launch.config component).filled [] Template.modelText) :=
  rendered_of_builtin hbuiltins rfl rfl

theorem exists_rendered_application (hbuiltins : launch.UsesBuiltins) {resources : List Resource}
    {file : Rendered}
    (h : launch.rendered (.application launch.config resources) = .ok file) :
    ∃ inserted, inserted.map (·.1) =
        (Sheet.application launch.config resources).insertions.map (·.1) ∧
      file = (Sheet.application launch.config resources).filled inserted
        Template.applicationText := by
  obtain ⟨inserted, text, hnames, htext, rfl⟩ := exists_filled h
  obtain rfl := Except.ok.inj
    (htext.symm.trans (hbuiltins Template.applicationFile Template.applicationText rfl))
  exact ⟨inserted, hnames, rfl⟩

/-- The application class is written last, so that its file holds it in the end. -/
theorem read?_application {s : σ} {report : Report}
    (hrun : (launch.run fs s).1.result = .ok report)
    (hdefinition : launch.definition = .ok definition) {path : FilePath}
    (hpath : path.same (Sheet.application launch.config definition.resources).path = true) :
    ∃ file, launch.rendered (.application launch.config definition.resources) = .ok file ∧
      fs.read? (launch.run fs s).2 path = some file.contents := by
  obtain ⟨-, hstate, other, hresult, -⟩ := launch.run_ok fs hrun
  obtain ⟨hother, files, hfiles⟩ := launch.intent_ok fs hresult
  obtain rfl := Except.ok.inj (hdefinition.symm.trans hother)
  have htasks := launch.tasks_eq hdefinition hfiles
  -- the sheet of the application class is the last one, so its task is the last one too
  rw [Definition.sheets, List.mapM_append] at hfiles
  obtain ⟨earlier, -, hfiles⟩ := Except.bind_ok hfiles
  obtain ⟨last, hlast, hfiles⟩ := Except.bind_ok hfiles
  cases hfiles
  rw [List.mapM_cons, List.mapM_nil] at hlast
  obtain ⟨file, hfile, hlast⟩ := Except.bind_ok hlast
  cases hlast
  have hreplaced : launch.taskOf file = .replace file := by
    rw [taskOf, (rendered_ok hfile).2]
    rfl
  have hsame : path.same file.path = true := (rendered_ok hfile).1 ▸ hpath
  refine ⟨file, hfile, ?_⟩
  rw [hstate, calls_intent]
  refine (fs.settled_worked s launch.tasks).latest path file.contents ?_
  rw [htasks, List.map_append, ← List.append_assoc, List.map_singleton, hreplaced]
  exact FileSystem.Task.latest?_concat hsame _

variable (launch) in
/-- A state in which every component of a definition has a file of its own, which holds its model. -/
structure KeepsModels (definition : Definition) (s : σ) : Prop where
  apart : (definition.models.map fun component => (Sheet.model launch.config component).path).Pairwise
    fun first second => first.same second = false
  own : ∀ component ∈ definition.models, ∃ file,
    launch.rendered (.model launch.config component) = .ok file ∧
      fs.read? s (Sheet.model launch.config component).path = some file.contents

variable {fs}

theorem nodup_of_apart {s : σ} (h : launch.KeepsModels fs definition s) :
    (definition.models.map launch.config.modelOf).Nodup := by
  have hpaths := List.pairwise_map.mp h.apart
  refine List.pairwise_map.mpr (hpaths.imp fun {first second} hother heq => ?_)
  rw [Config.path_model, Config.path_model, heq, FilePath.same_self] at hother
  cases hother

theorem keepsModels_of_apart {s : σ} {report : Report}
    (hrun : (launch.run fs s).1.result = .ok report)
    (hdefinition : launch.definition = .ok definition)
    (hapart : definition.ModelsApart launch.config) :
    launch.KeepsModels fs definition (launch.run fs s).2 := by
  obtain ⟨other, files, hother, hfiles, hwrites⟩ := launch.run_writes fs hrun
  obtain rfl := Except.ok.inj (hdefinition.symm.trans hother)
  have hclass : ∀ component ∈ definition.models, (launch.config.modelOf component).IsClass :=
    fun component hcomponent => isClass_of_declares hdefinition (.model hcomponent)
  constructor
  case apart =>
    refine List.pairwise_map.mpr ((List.pairwise_map.mp hapart.classes).imp_of_mem ?_)
    intro first second hfirst hsecond hne
    refine Bool.eq_false_iff.mpr fun hsame => hne ?_
    rw [Config.path_model, Config.path_model] at hsame
    exact (hclass first hfirst).eq_of_same (hclass second hsecond) hsame
  case own =>
    intro component hcomponent
    obtain ⟨file, hrendered, hpath, -, hwritten⟩ := hwrites.exists_written fs hfiles
      (Sheet.Declares.model hcomponent).mem_sheets rfl
    refine ⟨file, hrendered, ?_⟩
    -- its sheet writes the file, and no other sheet does
    obtain ⟨path, contents, hwrite, hsame, hread⟩ := fs.exists_read?_afterAll
      ⟨_, _, hwritten, FilePath.same_self _⟩ s
    rw [hpath] at hsame hread
    rw [Config.path_model] at hsame
    obtain ⟨sheet, other, hdeclares, hother, rfl⟩ := exists_declares_of_write fs hdefinition hfiles
      hwrites (hclass component hcomponent) hwrite hsame
    obtain rfl := hdeclares.eq_model rfl hapart hcomponent
    obtain rfl := Except.ok.inj (hrendered.symm.trans hother)
    rw [hwrites.state]
    exact hread

/-- With the built-in templates, an application class that is the class of a model leaves no file to
the model. -/
theorem application_apart {s : σ} {report : Report} (hbuiltins : launch.UsesBuiltins)
    (hrun : (launch.run fs s).1.result = .ok report)
    (hdefinition : launch.definition = .ok definition)
    (hkeeps : launch.KeepsModels fs definition (launch.run fs s).2) :
    launch.config.application ∉ definition.models.map launch.config.modelOf := by
  intro hmem
  obtain ⟨component, hcomponent, hclass⟩ := List.mem_map.mp hmem
  have hpath : (Sheet.model launch.config component).path =
      (Sheet.application launch.config definition.resources).path := by
    rw [Config.path_model, Config.path_application, hclass]
  obtain ⟨file, hfile, hread⟩ := read?_application fs hrun hdefinition (FilePath.same_self _)
  obtain ⟨inserted, hinserted, rfl⟩ := exists_rendered_application hbuiltins hfile
  obtain ⟨own, hrendered, hown⟩ := hkeeps.own component hcomponent
  obtain rfl := Except.ok.inj (hrendered.symm.trans (rendered_model hbuiltins component))
  rw [hpath, hread] at hown
  obtain ⟨_, hconfig, -⟩ := Except.bind_ok hdefinition
  exact Sheet.application_ne_model hconfig _ component hinserted (Option.some.inj hown)

/-- After a run that succeeds, every component has a file of its own with its model if the models have
different classes, none of which is the application class. It has one only if so: models of one class
share a file, whatever the templates, and with the built-in ones the application class is no model. -/
theorem models_kept {s : σ} {report : Report} (hrun : (launch.run fs s).1.result = .ok report) :
    ∃ definition, launch.definition = .ok definition ∧
      (definition.ModelsApart launch.config →
        launch.KeepsModels fs definition (launch.run fs s).2) ∧
      (launch.KeepsModels fs definition (launch.run fs s).2 →
        (definition.models.map launch.config.modelOf).Nodup ∧
          (launch.UsesBuiltins → definition.ModelsApart launch.config)) := by
  obtain ⟨-, -, definition, hresult, -⟩ := launch.run_ok fs hrun
  obtain ⟨hdefinition, -⟩ := launch.intent_ok fs hresult
  refine ⟨definition, hdefinition, keepsModels_of_apart hrun hdefinition, fun hkeeps => ?_⟩
  refine ⟨nodup_of_apart hkeeps, fun hbuiltins => ⟨nodup_of_apart hkeeps, ?_⟩⟩
  exact application_apart hbuiltins hrun hdefinition hkeeps

/-- A launch for a description of two schemas, of which the first has a property that is a date and
the second has none. -/
def datedAndEmpty (dated empty : String) : Launch :=
  { shop with
    text :=
      "\x7b\"components\": \x7b\"schemas\": \x7b\"" ++ dated ++ "\": \x7b\"properties\": "
        ++ "\x7b\"created\": \x7b\"type\": \"string\", \"format\": \"date\"\x7d\x7d\x7d,"
        ++ "\"" ++ empty ++ "\": \x7b\x7d\x7d\x7d\x7d" }

theorem models_kept_order :
    ∃ report definition,
      ((datedAndEmpty "product" "order").run Memory.fileSystem .empty).1.result = .ok report ∧
      (datedAndEmpty "product" "order").definition = .ok definition ∧
      definition.models.map (·.name) = ["product", "order"] ∧
      (datedAndEmpty "product" "order").KeepsModels Memory.fileSystem definition
        ((datedAndEmpty "product" "order").run Memory.fileSystem .empty).2 := by
  have hread : (datedAndEmpty "product" "order").definition.toOption.map (fun definition =>
      (definition.models.map (·.name), definition.models.map shop.config.modelOf)) =
      some (["product", "order"],
        [⟨"org.shop.rest.dto", "ProductDTO"⟩, ⟨"org.shop.rest.dto", "OrderDTO"⟩]) := by
    decide +kernel
  have hbuiltins : (datedAndEmpty "product" "order").UsesBuiltins := .of_no_directory rfl
  obtain ⟨definition, hdefinition, hmodels⟩ := Except.exists_ok_of_map hread
  obtain ⟨hnames, hclasses⟩ := Prod.mk.inj hmodels
  have hapart : definition.ModelsApart shop.config := by
    constructor
    case classes => rw [hclasses]; decide
    case application => rw [hclasses]; decide
  obtain ⟨report, hrun⟩ := exists_report _ Memory.fileSystem .empty hdefinition
    (fun _ => hbuiltins.exists_text) (fun _ _ => rfl)
  obtain ⟨found, hfound, hkept, -⟩ := models_kept hrun
  obtain rfl := Except.ok.inj (hdefinition.symm.trans hfound)
  exact ⟨report, definition, hrun, hdefinition, hnames, hkept hapart⟩

/-- Two schemas whose names differ in case only have one class, and so one file. It does not hold the
models of both. -/
theorem model_lost_product :
    ∃ report definition,
      ((datedAndEmpty "product" "Product").run Memory.fileSystem .empty).1.result = .ok report ∧
      (datedAndEmpty "product" "Product").definition = .ok definition ∧
      definition.models.map (fun component => (component.name, Naming.modelClass component.name)) =
        [("product", "ProductDTO"), ("Product", "ProductDTO")] ∧
      ¬ ∀ component ∈ definition.models, ∃ file,
        (datedAndEmpty "product" "Product").rendered (.model shop.config component) = .ok file ∧
          Memory.fileSystem.read?
            ((datedAndEmpty "product" "Product").run Memory.fileSystem .empty).2
              (Sheet.model shop.config component).path = some file.contents := by
  have hread : (datedAndEmpty "product" "Product").definition.toOption.map (fun definition =>
      definition.models.map fun component => ((component.name, Naming.modelClass component.name),
        component.properties.any (needsDate ·.javaType))) =
      some [(("product", "ProductDTO"), true), (("Product", "ProductDTO"), false)] := by
    decide +kernel
  have hbuiltins : (datedAndEmpty "product" "Product").UsesBuiltins := .of_no_directory rfl
  obtain ⟨definition, hdefinition, hmodels⟩ := Except.exists_ok_of_map hread
  obtain ⟨report, hrun⟩ := exists_report _ Memory.fileSystem .empty hdefinition
    (fun _ => hbuiltins.exists_text) (fun _ _ => rfl)
  obtain ⟨dated, rest, hmodels, hdated, hrest⟩ := List.map_eq_cons_iff.mp hmodels
  obtain ⟨empty, rfl, hempty⟩ := List.map_eq_singleton_iff.mp hrest
  obtain ⟨hdated, hdate⟩ := Prod.mk.inj hdated
  obtain ⟨hempty, hnone⟩ := Prod.mk.inj hempty
  refine ⟨report, definition, hrun, hdefinition, ?_, fun hown => ?_⟩
  · rw [hmodels, List.map_cons, List.map_singleton, hdated, hempty]
  · have hclass : shop.config.modelOf dated = shop.config.modelOf empty :=
      congrArg (Import.mk _) ((Prod.mk.inj hdated).2.trans (Prod.mk.inj hempty).2.symm)
    obtain ⟨first, hfirst, hfirstRead⟩ := hown dated (by simp [hmodels])
    obtain ⟨second, hsecond, hsecondRead⟩ := hown empty (by simp [hmodels])
    obtain rfl := Except.ok.inj (hfirst.symm.trans (rendered_model hbuiltins dated))
    obtain rfl := Except.ok.inj (hsecond.symm.trans (rendered_model hbuiltins empty))
    rw [Config.path_model, hclass, ← Config.path_model, hsecondRead] at hfirstRead
    -- what the one source imports tells it from the other
    have hlines : Source.importLines (Sheet.modelSource shop.config empty) =
        Source.importLines (Sheet.modelSource shop.config dated) :=
      congrArg Source.importLines (Option.some.inj hfirstRead)
    rw [Sheet.importLines_model validate_shop, Sheet.importLines_model validate_shop,
      Sheet.modelClasses, Sheet.modelClasses, hdate, hnone] at hlines
    exact absurd hlines (by decide)

end Launch

end RestModule
