import RestModule.Proofs.Naming.Legal
import RestModule.Proofs.Spec.Mention
import RestModule.Source.Field
import RestModule.Source.Signature

/-!
# The names that sources declare

Classes, methods, arguments, fields and accessors all have legal names, whatever an imported
description calls things (`Definition.names_legal`). -/

namespace RestModule

open Naming (IsLegal IsName HasStart)

/-! ## Operations -/

namespace Operation

/-- The names that an operation hands on: its resource begins like an identifier, and its method has
a legal name. -/
structure IsTitled (operation : Operation) : Prop where
  start : HasStart operation.resource
  parts : IsName operation.resource
  method : IsLegal operation.method.name

theorem hasStart_of_splitPath? {path name rest : String}
    (h : splitPath? path = some (name, rest)) : HasStart name := by
  obtain ⟨hne, rfl, -⟩ := splitPath?_eq_some_iff.mp h
  exact Naming.camelCase_hasStart hne

theorem hasStart_of_itemAt {shared : List (String × RawParameter)} {path : String}
    {document : Document} {item : PathItem} {entries : List (String × Document)}
    (h : itemAt shared path document = .ok (item, entries)) : HasStart item.resource :=
  hasStart_of_splitPath? (itemAt_parts h).2.1

theorem methodName_isLegal {resource : String} (hresource : IsName resource) (verb : Verb)
    (entries : List (String × Document)) : IsLegal (methodName resource verb entries) := by
  have hverb : HasStart verb.key ∧ IsName verb.key ∧
      ∀ word ∈ Naming.reserved, ¬ verb.key.toList <+: word.toList := by
    cases verb <;> exact ⟨⟨_, _, rfl, rfl⟩, by decide, by decide⟩
  have hown := IsLegal.of_lead hverb.1 hverb.2.1 hverb.2.2 hresource.capitalize
  unfold methodName
  split
  · exact hown
  · exact hown
  · exact Naming.identifier_isLegal _

theorem isTitled_of_isReadAs {map : TypeMap} {shared : List (String × RawParameter)} {site : Site}
    {operation : Operation} (h : site.IsReadAs map shared operation) : operation.IsTitled := by
  obtain ⟨item, verb, location, hitem, -, h⟩ := h
  obtain ⟨hresource, -, -, hname⟩ := head_of_ofEntries h
  have hparts := isName_of_itemAt hitem
  refine ⟨hresource ▸ hasStart_of_itemAt hitem, hresource ▸ hparts, ?_⟩
  rw [hname]
  exact methodName_isLegal hparts verb site.entries

end Operation

namespace Resource

theorem name_mem_of_mem_methods {name : String} {operations : List Operation} {method : Method}
    (h : method ∈ (ofOperations name operations).methods) :
    method.name ∈ Naming.distinctBy id [] (operations.map (·.method.name)) := by
  rw [← map_name_ofOperations name]
  exact List.mem_map_of_mem h

/-- The names that the sources of a resource declare for the resource and its methods. -/
theorem isTitled_of_mem_group {operations : List Operation} {resource : Resource}
    (h : ∀ operation ∈ operations, operation.IsTitled) (hresource : resource ∈ group operations) :
    (HasStart resource.name ∧ IsName resource.name) ∧
      ∀ method ∈ resource.methods, IsLegal method.name := by
  obtain ⟨name, hname, rfl⟩ := List.mem_map.mp hresource
  constructor
  · have hmention : name ∈ operations.map (·.resource) := by simpa using mem_addNames.mp hname
    obtain ⟨operation, hoperation, rfl⟩ := List.mem_map.mp hmention
    exact ⟨(h operation hoperation).start, (h operation hoperation).parts⟩
  · intro method hmethod
    refine Naming.distinctBy_isLegal (fun own hown => ?_) _ (name_mem_of_mem_methods hmethod)
    obtain ⟨operation, hoperation, rfl⟩ := List.mem_map.mp hown
    exact (h operation (List.mem_filter.mp hoperation).1).method

end Resource

/-! ## Arguments -/

namespace Argument

/-- The ending of its class stands in the name of a body, with its capital letters: it is no shorter
than that. -/
theorem ofBody_hasUpper (body : Body) : ∃ c ∈ (ofBody body).name.toList, c.isUpper = true := by
  obtain ⟨first, rest, hbase, -⟩ := (Naming.identifierBase_hasStart body.model).capitalize
  have hending : 'D' ∈ (Naming.decapitalize (Naming.modelClass body.model)).toList := by
    rw [Naming.decapitalize, String.toList_ofList, Naming.modelClass, String.toList_append, hbase]
    exact List.mem_append_right _ (List.mem_append_right _ (by decide))
  refine ⟨'D', ?_, by decide⟩
  unfold ofBody
  cases body.collection with
  | false => exact hending
  | true =>
    change 'D' ∈ (Naming.decapitalize (Naming.modelClass body.model) ++ "s").toList
    rw [String.toList_append]
    exact List.mem_append_left _ hending

theorem ofBody_isLegal (body : Body) : IsLegal (ofBody body).name := by
  have hstart := (Naming.modelClass_isLegal body.model).start.decapitalize
  have hname := (Naming.modelClass_isName body.model).decapitalize
  obtain ⟨c, hc, hupper⟩ := ofBody_hasUpper body
  have hfree := Naming.free_of_upper hc hupper
  unfold ofBody at hfree ⊢
  cases hcollection : body.collection with
  | false =>
    rw [hcollection] at hfree
    exact ⟨hstart, hname, hfree⟩
  | true =>
    rw [hcollection] at hfree
    exact ⟨hstart.append "s", hname.append (by decide), hfree⟩

end Argument

namespace Method

theorem parameterNames_isLegal (method : Method) : ∀ name ∈ method.parameterNames, IsLegal name := by
  refine Naming.distinctBy_isLegal fun name hname => ?_
  obtain ⟨parameter, -, rfl⟩ := List.mem_map.mp hname
  exact Naming.identifier_isLegal _

theorem arguments_isLegal (method : Method) :
    ∀ argument ∈ method.arguments, IsLegal argument.name := by
  intro argument hargument
  rcases List.mem_append.mp hargument with hargument | hargument
  · obtain ⟨i, hi⟩ := List.mem_iff_getElem?.mp hargument
    obtain ⟨parameter, name, -, hname, rfl⟩ := List.getElem?_zipWith_eq_some.mp hi
    exact method.parameterNames_isLegal name (List.mem_of_getElem? hname)
  · have hlanguage : IsLegal "language" := ⟨⟨_, _, rfl, rfl⟩, by decide, by decide⟩
    have hpagination : IsLegal "pagination" := ⟨⟨_, _, rfl, rfl⟩, by decide, by decide⟩
    simp only [fixedArguments, List.mem_append, Option.mem_toList, Option.map_eq_some_iff,
      List.mem_singleton] at hargument
    rcases hargument with (⟨body, -, rfl⟩ | rfl) | hargument
    · exact Argument.ofBody_isLegal body
    · exact hlanguage
    · split at hargument
      · rw [List.mem_singleton.mp hargument]
        exact hpagination
      · cases hargument

end Method

/-! ## Fields -/

/-- The names that a model declares for a field are legal: its own, those of its accessors, and that
of the parameter of its setter. -/
structure Field.IsLegal (field : Field) : Prop where
  member : Naming.IsLegal field.member
  getter : Naming.IsLegal field.getter
  setter : Naming.IsLegal field.setter
  parameter : Naming.IsLegal field.name

theorem Field.isLegal_of_name {field : Field} (h : Naming.IsLegal field.name) : field.IsLegal where
  member := .underscored h.start h.parts
  getter := .of_lead ⟨_, _, rfl, rfl⟩ (by decide) (by decide) h.parts.capitalize
  setter := .of_lead ⟨_, _, rfl, rfl⟩ (by decide) (by decide) h.parts.capitalize
  parameter := h

/-- The names of fields are the identifiers of the properties, made distinct. -/
theorem Component.map_name_fields (component : Component) :
    component.fields.map (·.name) = Naming.distinctBy Naming.capitalize []
      (component.properties.map fun property => Naming.identifier property.name) := by
  refine Naming.map_zipWith_names (fun _ _ => rfl) ?_
  rw [Naming.length_distinctBy, List.length_map]

theorem Component.fields_isLegal (component : Component) :
    ∀ field ∈ component.fields, field.IsLegal := by
  intro field hfield
  have hname := List.mem_map_of_mem (f := Field.name) hfield
  rw [component.map_name_fields] at hname
  refine Field.isLegal_of_name (Naming.distinctBy_isLegal (fun own hown => ?_) _ hname)
  obtain ⟨property, -, rfl⟩ := List.mem_map.mp hown
  exact Naming.identifier_isLegal _

/-! ## Definitions -/

namespace Definition

/-- Everything that the sources of a definition declare has a legal name. -/
structure NamesLegally (definition : Definition) : Prop where
  models : ∀ component ∈ definition.models, IsLegal (Naming.modelClass component.name)
  fields : ∀ component ∈ definition.models, ∀ field ∈ component.fields, field.IsLegal
  interfaces : ∀ resource ∈ definition.resources, IsLegal (Naming.interfaceClass resource.name)
  implementations : ∀ resource ∈ definition.resources,
    IsLegal (Naming.implementationClass resource.name)
  methods : ∀ resource ∈ definition.resources, ∀ method ∈ resource.methods, IsLegal method.name
  arguments : ∀ resource ∈ definition.resources, ∀ method ∈ resource.methods,
    ∀ argument ∈ method.arguments, IsLegal argument.name

theorem isTitled_of_operationsOf {declarations : Declarations} {root : List (String × Document)}
    {operations : List Operation} (h : operationsOf declarations root = .ok operations) :
    ∀ operation ∈ operations, operation.IsTitled := by
  intro operation hoperation
  obtain ⟨site, hsite⟩ := exists_of_mem_forall₂ (isReadAs_operationsOf h) operation hoperation
  exact Operation.isTitled_of_isReadAs hsite

/-- The sources of an imported definition declare everything under legal names. -/
theorem names_legal {document : Document} {definition : Definition}
    (h : ofDocument document = .ok definition) : definition.NamesLegally := by
  obtain ⟨root, -, h⟩ := Except.bind_ok h
  obtain ⟨declarations, -, h⟩ := Except.bind_ok h
  obtain ⟨components, -, h⟩ := Except.bind_ok h
  obtain ⟨operations, hoperations, h⟩ := Except.bind_ok h
  cases h
  have htitled := isTitled_of_operationsOf hoperations
  have hresources : ∀ resource ∈ Resource.group operations,
      (HasStart resource.name ∧ IsName resource.name) ∧
        ∀ method ∈ resource.methods, IsLegal method.name :=
    fun resource => Resource.isTitled_of_mem_group htitled
  constructor
  case models => exact fun component _ => Naming.modelClass_isLegal component.name
  case fields => exact fun component _ => component.fields_isLegal
  case interfaces =>
    intro resource hresource
    obtain ⟨hstart, hparts⟩ := (hresources resource hresource).1
    exact Naming.interfaceClass_isLegal hstart hparts
  case implementations =>
    intro resource hresource
    obtain ⟨hstart, hparts⟩ := (hresources resource hresource).1
    exact Naming.implementationClass_isLegal hstart hparts
  case methods => exact fun resource hresource => (hresources resource hresource).2
  case arguments => exact fun resource _ method _ => method.arguments_isLegal

/-- Names that begin with a digit, have no letters or are reserved, as they are or in camel case. -/
theorem names_legal_awkward :
    let parameter (place name : String) : Document :=
      .map [("in", .text place), ("name", .text name)]
    let document : Document := .map
      [("components", .map [("schemas", .map
        [("2fa", .map [("properties", .map
            [("class", .map [("type", .text "string")]), ("_", .map [("type", .text "string")])])]),
          ("--", .map [])])]),
        ("paths", .map
          [("/2fa/\x7bdefault\x7d", .map [("get", .map [("operationId", .text "new-"),
              ("parameters", .list [parameter "path" "default", parameter "query" "é"])])]),
            ("/2fa", .map [("get", .map [("operationId", .text "new")])])])]
    ∃ definition, ofDocument document = .ok definition ∧
      definition.models.map (fun component =>
          (Naming.modelClass component.name, component.fields.map (·.name))) =
        [("_2faDTO", ["_class", "__"]), ("ValueDTO", [])] ∧
      definition.resources.map (fun resource => (resource.name,
          resource.methods.map fun method => (method.name, method.arguments.map (·.name)))) =
        [("_2fa", [("_new", ["_default", "value", "language"]), ("_new_1", ["language"])])] ∧
      definition.NamesLegally := by
  intro parameter document
  have hread : (ofDocument document).toOption.map (fun definition =>
      (definition.models.map (fun component =>
          (Naming.modelClass component.name, component.fields.map (·.name))),
        definition.resources.map (fun resource => (resource.name,
          resource.methods.map fun method => (method.name, method.arguments.map (·.name)))))) =
      some ([("_2faDTO", ["_class", "__"]), ("ValueDTO", [])],
        [("_2fa", [("_new", ["_default", "value", "language"]), ("_new_1", ["language"])])]) := by
    decide +kernel
  obtain ⟨definition, h, hnames⟩ := Except.exists_ok_of_map hread
  obtain ⟨hmodels, hresources⟩ := Prod.mk.inj hnames
  exact ⟨definition, h, hmodels, hresources, names_legal h⟩

end Definition

end RestModule
