import Mathlib.Data.List.Nodup
import RestModule.Proofs.Sheet.Imports

/-!
# Clashes among imports

A source of a resource imports the models that the resource uses, classes of the core package, JAX-RS
classes and annotations, and their names are never compared. They are apart from each other exactly if
the classes of the models are, and none of these is the core's class of collections where the resource
needs that one (`Sheet.imports_apart_iff`). The class of dates is imported by models, but by no source
of a resource, whatever the parameters of its methods (`Sheet.date_imported_by_models`). -/

namespace RestModule

open Source (importLines simpleName)

/-! ## The simple names of imports -/

/-- No import line of a source stands in it twice, and no two of them name classes alike. -/
structure Source.ImportsApart (text : String) : Prop where
  lines : (importLines text).Nodup
  names : ((importLines text).map simpleName).Nodup

theorem Source.importsApart_iff {text : String} {imports : List Import}
    (hlines : importLines text = imports.map Import.line) (hplain : ∀ i ∈ imports, i.IsPlain) :
    ImportsApart text ↔ (imports.map (·.name)).Nodup := by
  have hnames : (importLines text).map simpleName = imports.map (·.name) := by
    rw [hlines, Import.map_simpleName_lines hplain]
  constructor
  · intro h
    exact hnames ▸ h.names
  · intro h
    rw [← hnames] at h
    exact ⟨List.Nodup.of_map _ h, h⟩

theorem Import.exists_name_of_line {imports : List Import} {i : Import} (hi : i.IsPlain)
    (hplain : ∀ j ∈ imports, j.IsPlain) (h : i.line ∈ imports.map line) :
    i.name ∈ imports.map (·.name) := by
  rw [← map_simpleName_lines hplain, ← hi.simpleName_line]
  exact List.mem_map_of_mem h

/-! ## The endings of class names -/

namespace Naming

theorem not_model_of_suffix {ending name : String} (h : ending.toList <:+ name.toList)
    (hlength : "DTO".toList.length ≤ ending.toList.length := by decide)
    (hending : ¬ "DTO".toList <:+ ending.toList := by decide) : ¬ "DTO".toList <:+ name.toList :=
  fun hmodel => hending (List.suffix_of_suffix_length_le hmodel h hlength)

end Naming

/-! ## Imports beside models -/

namespace Import

/-- The names of the core classes that resources import, and of the class of dates. -/
def coreNames : List String := ["Language", "Pagination", "CollectionDTO", "Date"]

/-- Imports whose names are apart from each other, from those of core classes and of dates, and from
those of models. -/
structure BesideModels (imports : List Import) : Prop where
  names : (imports.map (·.name)).Nodup
  core : ∀ i ∈ imports, i.name ∉ coreNames
  models : ∀ i ∈ imports, ¬ "DTO".toList <:+ i.name.toList

end Import

namespace Resource

open Import (BesideModels coreNames)

variable {resource : Resource} {modelPackage corePackage : String} {others : List Import}

/-- The models that a resource uses have different classes, none of them called like the class of
collections if the resource has any. -/
structure ModelsApart (resource : Resource) : Prop where
  classes : (resource.models.map Naming.modelClass).Nodup
  collection : resource.methods.any (·.isCollection) = true →
    "CollectionDTO" ∉ resource.models.map Naming.modelClass

theorem map_name_modelImports (resource : Resource) (modelPackage : String) :
    (resource.modelImports modelPackage).map (·.name) =
      resource.models.map Naming.modelClass := by
  rw [modelImports, List.map_map]
  rfl

theorem map_name_coreImports (resource : Resource) (corePackage : String) :
    (resource.coreImports corePackage).map (·.name) =
      "Language" :: if resource.methods.any (·.isCollection) then ["Pagination", "CollectionDTO"]
        else [] := by
  rw [coreImports]
  split <;> rfl

theorem suffix_of_mem_models {name : String}
    (h : name ∈ resource.models.map Naming.modelClass) : "DTO".toList <:+ name.toList := by
  obtain ⟨model, -, rfl⟩ := List.mem_map.mp h
  exact Naming.suffix_modelClass model

theorem nodup_coreImports : ((resource.coreImports corePackage).map (·.name)).Nodup := by
  rw [map_name_coreImports]
  split <;> decide

theorem mem_coreNames {name : String} (h : name ∈ (resource.coreImports corePackage).map (·.name)) :
    name ∈ coreNames := by
  have hall : ∀ name ∈ ["Language", "Pagination", "CollectionDTO"], name ∈ coreNames := by decide
  rw [map_name_coreImports] at h
  split at h
  · exact hall name h
  · exact hall name (List.mem_cons.mpr (.inl (List.mem_singleton.mp h)))

theorem collection_mem_coreImports :
    "CollectionDTO" ∈ (resource.coreImports corePackage).map (·.name) ↔
      resource.methods.any (·.isCollection) = true := by
  rw [map_name_coreImports]
  split <;> simp [*]

/-- What a resource imports besides models is apart, so that clashes come from models only. -/
theorem nodup_names_iff (hothers : BesideModels others) :
    ((resource.modelImports modelPackage ++ resource.coreImports corePackage ++ others).map
      (·.name)).Nodup ↔ resource.ModelsApart := by
  rw [List.append_assoc, List.map_append, List.map_append, map_name_modelImports,
    List.nodup_append]
  constructor
  · rintro ⟨hclasses, -, hapart⟩
    refine ⟨hclasses, fun hcollection hmem => ?_⟩
    exact hapart _ hmem _ (List.mem_append_left _ (collection_mem_coreImports.mpr hcollection)) rfl
  · intro h
    refine ⟨h.classes, List.nodup_append.mpr ⟨nodup_coreImports, hothers.names, ?_⟩, ?_⟩
    · rintro name hcore other hother rfl
      obtain ⟨i, hi, rfl⟩ := List.mem_map.mp hother
      exact hothers.core i hi (mem_coreNames hcore)
    · rintro name hmodel other hother rfl
      have hsuffix := suffix_of_mem_models hmodel
      rcases List.mem_append.mp hother with hcore | hother
      · -- of the core classes, only that of collections has the ending of a model
        have hcollection : ∀ name ∈ coreNames, "DTO".toList <:+ name.toList →
            name = "CollectionDTO" := by decide
        obtain rfl := hcollection name (mem_coreNames hcore) hsuffix
        exact h.collection (collection_mem_coreImports.mp hcore) hmodel
      · obtain ⟨i, hi, rfl⟩ := List.mem_map.mp hother
        exact hothers.models i hi hsuffix

theorem date_not_mem_names (hothers : BesideModels others) :
    "Date" ∉ (resource.modelImports modelPackage ++ resource.coreImports corePackage ++ others).map
      (·.name) := by
  rw [List.map_append, List.map_append, map_name_modelImports, map_name_coreImports,
    List.mem_append, List.mem_append]
  rintro ((hmodel | hcore) | hother)
  · exact absurd (suffix_of_mem_models hmodel) (by decide)
  · split at hcore
    · exact absurd hcore (by decide)
    · exact absurd hcore (by decide)
  · obtain ⟨i, hi, hname⟩ := List.mem_map.mp hother
    exact hothers.core i hi (hname ▸ by decide)

end Resource

/-! ## Interfaces and implementations -/

namespace Sheet

open Import (BesideModels)

variable {config : Config} {document : Document} {definition : Definition}

theorem besideModels_interface (resource : Resource) :
    BesideModels ([Import.generated] ++ resource.webImports) := by
  have hweb : ∀ i ∈ [Import.generated] ++ resource.webImports,
      i ∈ Import.generated :: Import.web := by
    intro i hi
    rcases List.mem_cons.mp hi with rfl | hi
    · exact List.mem_cons_self
    · exact List.mem_cons_of_mem _ (resource.webImports_subset i hi)
  have hinjective : ∀ i ∈ Import.generated :: Import.web, ∀ j ∈ Import.generated :: Import.web,
      i.name = j.name → i = j := by decide
  have hfixed : ∀ i ∈ Import.generated :: Import.web,
      i.name ∉ Import.coreNames ∧ ¬ "DTO".toList <:+ i.name.toList := by decide
  have hnodup : ([Import.generated] ++ resource.webImports).Nodup := by
    refine List.nodup_cons.mpr ⟨fun hmem => ?_, Import.nodup_sorted _⟩
    exact absurd (resource.webImports_subset _ hmem) (by decide)
  constructor
  case names =>
    exact List.Nodup.map_on (fun i hi j hj => hinjective i (hweb i hi) j (hweb j hj)) hnodup
  case core => exact fun i hi => (hfixed i (hweb i hi)).1
  case models => exact fun i hi => (hfixed i (hweb i hi)).2

theorem besideModels_implementation (package name : String) (p : Prop) [Decidable p] :
    BesideModels ([⟨package, Naming.interfaceClass name⟩]
      ++ ((if p then [Import.response] else []) ++ [Import.component])) := by
  have hresource := Naming.suffix_interfaceClass name
  have hweb : ∀ i ∈ (if p then [Import.response] else []) ++ [Import.component],
      i ∈ [Import.response, Import.component] := by
    split
    · exact fun i hi => hi
    · exact fun i hi => List.mem_cons_of_mem _ hi
  have hfixed : ∀ i ∈ [Import.response, Import.component], ¬ "Resource".toList <:+ i.name.toList ∧
      i.name ∉ Import.coreNames ∧ ¬ "DTO".toList <:+ i.name.toList := by decide
  have hcore : ∀ other ∈ Import.coreNames, ¬ "Resource".toList <:+ other.toList := by decide
  constructor
  case names =>
    refine List.nodup_cons.mpr ⟨fun hmem => ?_, ?_⟩
    · obtain ⟨i, hi, heq⟩ := List.mem_map.mp hmem
      exact (hfixed i (hweb i hi)).1 (heq ▸ hresource)
    · split <;> decide
  case core =>
    refine List.forall_mem_cons.mpr ⟨fun hmem => hcore _ hmem hresource, fun i hi => ?_⟩
    exact (hfixed i (hweb i hi)).2.1
  case models =>
    refine List.forall_mem_cons.mpr ⟨Naming.not_model_of_suffix hresource, fun i hi => ?_⟩
    exact (hfixed i (hweb i hi)).2.2

theorem importsApart_interface_iff (hconfig : config.validate = .ok ()) (version : String)
    (resource : Resource) :
    Source.ImportsApart (interfaceSource config version resource) ↔ resource.ModelsApart := by
  rw [Source.importsApart_iff (importLines_interface _ hconfig)
    (holds_interfaceHeader hconfig).plain, interfaceClasses, List.append_assoc]
  exact Resource.nodup_names_iff (besideModels_interface resource)

theorem importsApart_implementation_iff (hconfig : config.validate = .ok ()) (version : String)
    {resource : Resource} (hname : Naming.IsName resource.name) :
    Source.ImportsApart (implementationSource config version resource) ↔ resource.ModelsApart := by
  rw [Source.importsApart_iff (importLines_implementation _ hconfig hname)
    (holds_implementationHeader hconfig hname).plain, implementationClasses, implementationImports,
    List.append_assoc, List.append_assoc]
  exact Resource.nodup_names_iff (besideModels_implementation ..)

/-- The imports of the sources of a resource are apart exactly if the classes of its models are, from
each other and from the class of collections. -/
theorem imports_apart_iff (hconfig : config.validate = .ok ())
    (hdefinition : Definition.ofDocument document = .ok definition) :
    ∀ resource ∈ definition.resources,
      (Source.ImportsApart (interfaceSource config definition.version resource) ↔
        resource.ModelsApart) ∧
      (Source.ImportsApart (implementationSource config definition.version resource) ↔
        resource.ModelsApart) := by
  intro resource hresource
  have hname := Definition.isName_of_ofDocument hdefinition resource hresource
  exact ⟨importsApart_interface_iff hconfig _ resource,
    importsApart_implementation_iff hconfig _ hname⟩

/-- A description with two schemas, of which the one is put and the other posted. -/
def putAndPost (put post : String) : Document :=
  let body (schema : String) : Document := .map [("requestBody", .map [("content", .map
    [("json", .map [("schema", .map [("$ref", .text ("#/components/schemas/" ++ schema))])])])])]
  .map [("components", .map [("schemas", .map [(put, .map []), (post, .map [])])]),
    ("paths", .map [("/stock", .map [("put", body put), ("post", body post)])])]

theorem imports_apart_iff_order :
    ∃ definition, Launch.shop.config.validate = .ok () ∧
      Definition.ofDocument (putAndPost "Product" "order") = .ok definition ∧
      ∃ resource ∈ definition.resources, resource.models = ["Product", "order"] ∧
        Source.ImportsApart
          (interfaceSource Launch.shop.config definition.version resource) ∧
        Source.ImportsApart
          (implementationSource Launch.shop.config definition.version resource) := by
  have hread : (Definition.ofDocument (putAndPost "Product" "order")).toOption.map
      (·.resources.map fun resource =>
        (resource.models, resource.methods.any (·.isCollection))) =
      some [(["Product", "order"], false)] := by decide +kernel
  obtain ⟨definition, hdefinition, hresources⟩ := Except.exists_ok_of_map hread
  obtain ⟨resource, hresources, hresource⟩ := List.map_eq_singleton_iff.mp hresources
  obtain ⟨hmodels, hcollection⟩ := Prod.mk.inj hresource
  have hmem : resource ∈ definition.resources := hresources ▸ List.mem_singleton_self resource
  have hapart : resource.ModelsApart := by
    refine ⟨?_, fun h => absurd (hcollection.symm.trans h) (by decide)⟩
    rw [hmodels]
    decide +kernel
  obtain ⟨hinterface, himplementation⟩ :=
    imports_apart_iff Launch.validate_shop hdefinition resource hmem
  exact ⟨definition, Launch.validate_shop, hdefinition, resource, hmem, hmodels,
    hinterface.mpr hapart, himplementation.mpr hapart⟩

/-- Two schemas whose names differ in case only have one class, which is imported twice. -/
theorem imports_clash_product :
    ∃ definition, Launch.shop.config.validate = .ok () ∧
      Definition.ofDocument (putAndPost "Product" "product") = .ok definition ∧
      ∃ resource ∈ definition.resources, resource.models = ["Product", "product"] ∧
        ¬ Source.ImportsApart
          (interfaceSource Launch.shop.config definition.version resource) ∧
        ¬ Source.ImportsApart
          (implementationSource Launch.shop.config definition.version resource) := by
  have hread : (Definition.ofDocument (putAndPost "Product" "product")).toOption.map
      (·.resources.map (·.models)) = some [["Product", "product"]] := by decide +kernel
  obtain ⟨definition, hdefinition, hresources⟩ := Except.exists_ok_of_map hread
  obtain ⟨resource, hresources, hmodels⟩ := List.map_eq_singleton_iff.mp hresources
  have hmem : resource ∈ definition.resources := hresources ▸ List.mem_singleton_self resource
  have hclash : ¬ resource.ModelsApart := by
    intro h
    have hclasses := h.classes
    rw [hmodels] at hclasses
    exact absurd hclasses (by decide +kernel)
  have hname := Definition.isName_of_ofDocument hdefinition resource hmem
  exact ⟨definition, Launch.validate_shop, hdefinition, resource, hmem, hmodels,
    (importsApart_interface_iff Launch.validate_shop _ resource).not.mpr hclash,
    (importsApart_implementation_iff Launch.validate_shop _ hname).not.mpr hclash⟩

end Sheet

/-! ## Dates -/

namespace Sheet

variable {config : Config} {document : Document} {definition : Definition}

theorem date_not_mem_interface (hconfig : config.validate = .ok ()) (version : String)
    (resource : Resource) :
    Import.date.line ∉ importLines (interfaceSource config version resource) := by
  have hnone : "Date" ∉ (interfaceClasses config resource).map (·.name) := by
    rw [interfaceClasses, List.append_assoc]
    exact Resource.date_not_mem_names (besideModels_interface resource)
  rw [importLines_interface _ hconfig]
  intro hmem
  exact hnone
    (Import.exists_name_of_line (by decide) (holds_interfaceHeader hconfig).plain hmem)

theorem date_not_mem_implementation (hconfig : config.validate = .ok ()) (version : String)
    {resource : Resource} (hname : Naming.IsName resource.name) :
    Import.date.line ∉ importLines (implementationSource config version resource) := by
  have hnone : "Date" ∉ (implementationClasses config resource).map (·.name) := by
    rw [implementationClasses, implementationImports, List.append_assoc, List.append_assoc]
    exact Resource.date_not_mem_names (besideModels_implementation ..)
  rw [importLines_implementation _ hconfig hname]
  intro hmem
  exact hnone
    (Import.exists_name_of_line (by decide) (holds_implementationHeader hconfig hname).plain hmem)

/-- Models import the class of dates if they have a property that is a date or an array of dates. The
sources of a resource never do, whatever its methods take. -/
theorem date_imported_by_models (hconfig : config.validate = .ok ())
    (hdefinition : Definition.ofDocument document = .ok definition) :
    (∀ component ∈ definition.models,
      Import.date.line ∈ importLines (modelSource config component) ↔
        component.properties.any (needsDate ·.javaType) = true) ∧
    ∀ resource ∈ definition.resources,
      Import.date.line ∉ importLines (interfaceSource config definition.version resource) ∧
      Import.date.line ∉ importLines (implementationSource config definition.version resource) := by
  constructor
  case left =>
    intro component _
    rw [importLines_model hconfig]
    have hother : Import.date.line ∉ [Import.generated, Import.root].map Import.line := by decide
    unfold modelClasses
    split <;> simp_all
  case right =>
    intro resource hresource
    have hname := Definition.isName_of_ofDocument hdefinition resource hresource
    exact ⟨date_not_mem_interface hconfig _ resource, date_not_mem_implementation hconfig _ hname⟩

/-- A description with one model, whose property is a date, and one operation with a parameter of the
same type. -/
def events : Document :=
  let type : Document := .map [("type", .text "string"), ("format", .text "date-time")]
  .map [("components", .map [("schemas", .map
      [("Event", .map [("properties", .map [("start", type)])])])]),
    ("paths", .map [("/events", .map [("get", .map [("parameters", .list
      [.map [("in", .text "query"), ("name", .text "since"), ("schema", type)]])])])])]

theorem date_imported_by_models_events :
    ∃ definition, Launch.shop.config.validate = .ok () ∧
      Definition.ofDocument events = .ok definition ∧
      ∃ component ∈ definition.models,
        Import.date.line ∈ importLines (modelSource Launch.shop.config component) ∧
      ∃ resource ∈ definition.resources,
        Import.date.line ∉
          importLines (interfaceSource Launch.shop.config definition.version resource) ∧
        Import.date.line ∉
          importLines (implementationSource Launch.shop.config definition.version resource) := by
  have hread : (Definition.ofDocument events).toOption.map (fun definition =>
      (definition.models.map (·.properties.any (needsDate ·.javaType)),
        definition.resources.map (·.name))) = some ([true], ["events"]) := by decide +kernel
  obtain ⟨definition, hdefinition, hread⟩ := Except.exists_ok_of_map hread
  obtain ⟨hmodels, hresources⟩ := Prod.mk.inj hread
  obtain ⟨component, hmodels, hdate⟩ := List.map_eq_singleton_iff.mp hmodels
  obtain ⟨resource, hresources, -⟩ := List.map_eq_singleton_iff.mp hresources
  have hcomponent : component ∈ definition.models := hmodels ▸ List.mem_singleton_self component
  have hresource : resource ∈ definition.resources := hresources ▸ List.mem_singleton_self resource
  obtain ⟨hmodel, hnone⟩ := date_imported_by_models Launch.validate_shop hdefinition
  exact ⟨definition, Launch.validate_shop, hdefinition, component, hcomponent,
    (hmodel component hcomponent).mpr hdate, resource, hresource, hnone resource hresource⟩

/-- The parameter of type `Date` leads to no import. -/
theorem date_missing_events :
    ∃ definition, Launch.shop.config.validate = .ok () ∧
      Definition.ofDocument events = .ok definition ∧
      ∃ resource ∈ definition.resources,
        (∃ method ∈ resource.methods, ∃ parameter ∈ method.queryParameters,
          parameter.javaType = "Date") ∧
        Import.date.line ∉
          importLines (interfaceSource Launch.shop.config definition.version resource) ∧
        Import.date.line ∉
          importLines (implementationSource Launch.shop.config definition.version resource) := by
  have hread : (Definition.ofDocument events).toOption.map (fun definition =>
      definition.resources.map (·.methods.map (·.queryParameters.map (·.javaType)))) =
      some [[["Date"]]] := by decide +kernel
  obtain ⟨definition, hdefinition, hresources⟩ := Except.exists_ok_of_map hread
  obtain ⟨resource, hresources, hmethods⟩ := List.map_eq_singleton_iff.mp hresources
  obtain ⟨method, hmethods, hparameters⟩ := List.map_eq_singleton_iff.mp hmethods
  obtain ⟨parameter, hparameters, htype⟩ := List.map_eq_singleton_iff.mp hparameters
  have hresource : resource ∈ definition.resources := hresources ▸ List.mem_singleton_self resource
  have hmethod : method ∈ resource.methods := hmethods ▸ List.mem_singleton_self method
  have hparameter : parameter ∈ method.queryParameters :=
    hparameters ▸ List.mem_singleton_self parameter
  have hname := Definition.isName_of_ofDocument hdefinition resource hresource
  exact ⟨definition, Launch.validate_shop, hdefinition, resource, hresource,
    ⟨method, hmethod, parameter, hparameter, htype⟩,
    date_not_mem_interface Launch.validate_shop _ resource,
    date_not_mem_implementation Launch.validate_shop _ hname⟩

end Sheet

end RestModule
