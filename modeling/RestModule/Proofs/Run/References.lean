import RestModule.Proofs.Run.Sources
import RestModule.Proofs.Spec.Reachable
import RestModule.Proofs.Spec.Uses

/-!
# What a report says about references

A report lists the models that the resources use, and the models that nothing leads to from there
(`Launch.references_reported`). To be unreachable does not keep a model from being made. -/

namespace RestModule

namespace Definition

variable {document : Document} {definition : Definition} {name : String}

theorem usedModels_eq (definition : Definition) :
    definition.usedModels = addNames [] (definition.resources.flatMap (·.models)) := by
  unfold usedModels addNames
  rw [List.foldl_flatMap]

theorem mem_usedModels_iff :
    name ∈ definition.usedModels ↔ ∃ resource ∈ definition.resources, name ∈ resource.models := by
  rw [usedModels_eq]
  simp

theorem mem_models_iff (h : ofDocument document = .ok definition) {resource : Resource}
    (hresource : resource ∈ definition.resources) :
    name ∈ resource.models ↔ ∃ method ∈ resource.methods, method.Uses name := by
  obtain ⟨all, -, hmethods, hholds, hmodels⟩ := exists_declared h hresource
  rw [hmodels, mem_addNames, ← hmethods]
  simp only [List.not_mem_nil, false_or, List.mem_flatMap, List.mem_map, exists_exists_and_eq_and]
  exact exists_congr fun declared => and_congr_right fun hdeclared =>
    (hholds declared hdeclared).mem_mentions_iff

/-- A method uses a model that leads to the name, in no step or more. -/
def Needs (definition : Definition) (name : String) : Prop :=
  ∃ resource ∈ definition.resources, ∃ method ∈ resource.methods, ∃ used, method.Uses used ∧
    Relation.ReflTransGen definition.Leads used name

theorem mem_reachable_usedModels_iff (h : ofDocument document = .ok definition) :
    name ∈ definition.reachable definition.usedModels ↔ definition.Needs name := by
  rw [mem_reachable_iff]
  constructor
  · rintro ⟨used, hused, hleads⟩
    obtain ⟨resource, hresource, hmodel⟩ := mem_usedModels_iff.mp hused
    obtain ⟨method, hmethod, huses⟩ := (mem_models_iff h hresource).mp hmodel
    exact ⟨resource, hresource, method, hmethod, used, huses, hleads⟩
  · rintro ⟨resource, hresource, method, hmethod, used, huses, hleads⟩
    have hmodel := (mem_models_iff h hresource).mpr ⟨method, hmethod, huses⟩
    exact ⟨used, mem_usedModels_iff.mpr ⟨resource, hresource, hmodel⟩, hleads⟩

theorem mem_unreachableModels_iff (h : ofDocument document = .ok definition)
    {component : Component} :
    component ∈ definition.unreachableModels ↔
      component ∈ definition.models ∧ ¬ definition.Needs component.name := by
  rw [← mem_reachable_usedModels_iff h, unreachableModels, List.mem_filter, decide_eq_true_iff]

end Definition

/-- What a report says about the models of a definition is true. -/
structure Report.TellsReferences (report : Report) (config : Config) (definition : Definition) :
    Prop where
  usedOnce : report.usedModels.Nodup
  used : ∀ name, name ∈ report.usedModels ↔
    ∃ resource ∈ definition.resources, name ∈ resource.models
  usedOrder : report.usedModels.Pairwise fun a b =>
    (definition.resources.flatMap (·.models)).idxOf a <
      (definition.resources.flatMap (·.models)).idxOf b
  unreachableOnce : report.unreachable.Nodup
  unreachable : ∀ name, name ∈ report.unreachable ↔
    (∃ component ∈ definition.models, component.name = name) ∧ ¬ definition.Needs name
  unreachableOrder : report.unreachable.Sublist (definition.models.map (·.name))
  /-- A model is made even if it is unreachable. -/
  made : ∀ component ∈ definition.models, component.name ∈ report.unreachable →
    (Sheet.model config component).path ∈ report.written

namespace Launch

variable {σ : Type} {launch : Launch} {fs : FileSystem σ}

/-- The report of a run that succeeds tells the truth about references. -/
theorem references_reported {s : σ} {report : Report}
    (hrun : (launch.run fs s).1.result = .ok report) :
    ∃ definition, launch.definition = .ok definition ∧
      report.TellsReferences launch.config definition := by
  obtain ⟨definition, files, hdefinition, hfiles, hwrites⟩ := launch.run_writes fs hrun
  obtain ⟨hused, hunreachable⟩ := launch.report_models fs hrun hdefinition
  obtain ⟨_, -, htext⟩ := Except.bind_ok hdefinition
  obtain ⟨document, hparsed, hdocument⟩ := Except.bind_ok htext
  have horder : definition.unreachableModels.Sublist definition.models := List.filter_sublist
  refine ⟨definition, hdefinition, ?_⟩
  constructor
  case usedOnce =>
    rw [hused, Definition.usedModels_eq]
    exact nodup_addNames .nil _
  case used =>
    intro name
    rw [hused, Definition.mem_usedModels_iff]
  case usedOrder =>
    rw [hused, Definition.usedModels_eq]
    exact pairwise_idxOf_addNames _
  case unreachableOnce =>
    have hnames := Definition.nodup_names (Document.parse_distinct hparsed) hdocument
    rw [hunreachable]
    exact hnames.sublist ((horder.trans List.filter_sublist).map _)
  case unreachable =>
    intro name
    rw [hunreachable, List.mem_map]
    simp only [Definition.mem_unreachableModels_iff hdocument]
    constructor
    · rintro ⟨component, ⟨hcomponent, hneeds⟩, rfl⟩
      exact ⟨⟨component, hcomponent, rfl⟩, hneeds⟩
    · rintro ⟨⟨component, hcomponent, rfl⟩, hneeds⟩
      exact ⟨component, ⟨hcomponent, hneeds⟩, rfl⟩
  case unreachableOrder =>
    rw [hunreachable]
    exact horder.map _
  case made =>
    intro component hcomponent _
    obtain ⟨file, -, hpath, hwritten, -⟩ := hwrites.exists_written fs hfiles
      (Sheet.Declares.model hcomponent).mem_sheets rfl
    rw [← hpath]
    exact hwritten

/-- A launch for orders of lines, with drafts that nothing uses. -/
def drafts : Launch :=
  { shop with
    text :=
      "\x7b\"components\":\x7b\"schemas\":\x7b\"Draft\":\x7b\x7d,\"Line\":\x7b\x7d,"
        ++ "\"Order\":\x7b\"properties\":\x7b\"line\":"
        ++ "\x7b\"$ref\":\"#/components/schemas/Line\"\x7d\x7d\x7d\x7d\x7d,"
        ++ "\"paths\":\x7b\"/orders\":\x7b\"post\":\x7b\"requestBody\":\x7b\"content\":"
        ++ "\x7b\"json\":\x7b\"schema\":\x7b\"$ref\":\"#/components/schemas/Order\""
        ++ "\x7d\x7d\x7d\x7d\x7d\x7d\x7d\x7d" }

theorem references_reported_drafts :
    ∃ report definition, (drafts.run Memory.fileSystem .empty).1.result = .ok report ∧
      drafts.definition = .ok definition ∧
      definition.models.map (·.name) = ["Draft", "Line", "Order"] ∧
      report.usedModels = ["Order"] ∧ report.unreachable = ["Draft"] ∧
      report.TellsReferences drafts.config definition := by
  have hbuiltins : drafts.UsesBuiltins := .of_no_directory rfl
  have hread : drafts.definition.toOption.map (fun definition =>
      (definition.models.map (·.name), definition.usedModels,
        definition.unreachableModels.map (·.name))) =
      some (["Draft", "Line", "Order"], ["Order"], ["Draft"]) := by
    decide +kernel
  obtain ⟨definition, hdefinition, hmodels⟩ := Except.exists_ok_of_map hread
  obtain ⟨hnames, hmodels⟩ := Prod.mk.inj hmodels
  obtain ⟨hused, hunreachable⟩ := Prod.mk.inj hmodels
  obtain ⟨report, hrun⟩ := drafts.exists_report Memory.fileSystem .empty hdefinition
    (fun _ => hbuiltins.exists_text) (fun _ _ => rfl)
  obtain ⟨hreported, hlisted⟩ := drafts.report_models Memory.fileSystem hrun hdefinition
  obtain ⟨found, hfound, htells⟩ := references_reported hrun
  obtain rfl := Except.ok.inj (hdefinition.symm.trans hfound)
  exact ⟨report, definition, hrun, hdefinition, hnames, hreported.trans hused,
    hlisted.trans hunreachable, htells⟩

end Launch

end RestModule
