import RestModule.Proofs.Document.Keys
import RestModule.Spec.Import

/-!
# Imported definitions are closed

What an imported definition mentions is in it: every reference has been resolved against the schemas
of the same description, and the Java types are those that these schemas give (`Definition.Closed`).
The names of components are distinct, as schemas and shared parameters of one name exclude each
other. -/

namespace RestModule

/-! ## Types -/

namespace TypeMap

variable {map : TypeMap}

/-- A declared type has a Java type, wherever it is used. -/
def Types (map : TypeMap) (type : SchemaType) (javaType : String) : Prop :=
  ∀ location, map.javaType location type = .ok javaType

theorem resolve_ok {reference location name : String}
    (h : map.resolve reference location = .ok name) :
    name ∈ map.schemas ∧ ∀ other, map.resolve reference other = .ok name := by
  unfold resolve at h
  split at h
  · next found hfound =>
    split at h
    · next hmem =>
      cases h
      exact ⟨hmem, fun other => by rw [resolve, hfound]; exact if_pos hmem⟩
    · cases h
  · cases h

/-- The Java type of a declared type does not depend on where it is used. -/
theorem types_of_javaType {location : String} : ∀ {type : SchemaType} {javaType : String},
    map.javaType location type = .ok javaType → map.Types type javaType
  | .mk token format items, javaType, h => by
    intro other
    unfold TypeMap.javaType at h ⊢
    split
    · next href =>
      rw [if_pos href] at h
      obtain ⟨name, hname, rfl⟩ := Except.map_ok h
      rw [(resolve_ok hname).2 other]
      rfl
    · next href =>
      rw [if_neg href] at h
      split
      · next harray =>
        rw [if_pos harray] at h
        cases items with
        | none => cases h
        | some items =>
          obtain ⟨inner, hinner, rfl⟩ := Except.map_ok h
          simp only [types_of_javaType hinner other]
          rfl
      · next harray =>
        rw [if_neg harray] at h
        split at h
        · exact h
        · cases h

theorem referenced?_ok {location name : String} : ∀ {type : SchemaType},
    map.referenced? location type = .ok (some name) → name ∈ map.schemas
  | .mk token format items, h => by
    unfold referenced? at h
    split at h
    · obtain ⟨found, hfound, heq⟩ := Except.map_ok h
      cases heq
      exact (resolve_ok hfound).1
    · split at h
      · exact referenced?_ok h
      · cases h

theorem schemaBody_ok {location : String} {schema : Document} {body : Body}
    (h : map.schemaBody location schema = .ok (some body)) : body.model ∈ map.schemas := by
  have hbody : ∀ {reference collection},
      map.bodyOf location reference collection = .ok (some body) → body.model ∈ map.schemas := by
    intro reference collection h
    obtain ⟨name, hname, heq⟩ := Except.map_ok h
    cases heq
    exact (resolve_ok hname).1
  unfold schemaBody at h
  split at h
  · exact hbody h
  · split at h
    · exact hbody h
    · cases h

end TypeMap

/-! ## Components -/

namespace Declarations

theorem property_ok {map : TypeMap} {location name : String} {type : SchemaType} {result : Property}
    (h : property map location name type = .ok result) : map.Types result.type result.javaType := by
  obtain ⟨javaType, hjavaType, rfl⟩ := Except.map_ok h
  exact map.types_of_javaType hjavaType

/-- The component of a schema or shared parameter has its name, its kind and types of the map. -/
structure Makes (map : TypeMap) (name : String) (isParameter : Bool) (component : Component) :
    Prop where
  name : component.name = name
  kind : component.isParameter = isParameter
  types : ∀ property ∈ component.properties, map.Types property.type property.javaType

theorem schemaComponent_ok {map : TypeMap} {name : String} {properties : List (String × SchemaType)}
    {component : Component} (h : schemaComponent map name properties = .ok component) :
    Makes map name false component := by
  obtain ⟨results, hresults, rfl⟩ := Except.map_ok h
  refine ⟨rfl, rfl, fun result hresult => ?_⟩
  obtain ⟨property, -, hproperty⟩ := Except.exists_of_mem_mapM hresults hresult
  exact property_ok hproperty

theorem parameterComponent_ok {map : TypeMap} {name : String} {raw : RawParameter}
    {component : Component} (h : parameterComponent map name raw = .ok component) :
    Makes map name true component := by
  obtain ⟨result, hresult, rfl⟩ := Except.map_ok h
  refine ⟨rfl, rfl, fun property hproperty => ?_⟩
  rw [List.mem_singleton.mp hproperty]
  exact property_ok hresult

theorem components_ok {declarations : Declarations} {components : List Component}
    (h : declarations.components = .ok components) :
    components.map (·.name) = declarations.schemas.map (·.1) ++ declarations.parameters.map (·.1) ∧
      (components.filter (!·.isParameter)).map (·.name) = declarations.schemas.map (·.1) ∧
      ∀ component ∈ components, ∀ property ∈ component.properties,
        declarations.typeMap.Types property.type property.javaType := by
  obtain ⟨schemas, hschemas, h⟩ := Except.bind_ok h
  obtain ⟨parameters, hparameters, h⟩ := Except.bind_ok h
  cases h
  have hmakes : ∀ component ∈ schemas, ∃ name, Makes declarations.typeMap name false component := by
    intro component hmem
    obtain ⟨schema, -, hschema⟩ := Except.exists_of_mem_mapM hschemas hmem
    exact ⟨schema.1, schemaComponent_ok hschema⟩
  have hshared : ∀ component ∈ parameters,
      ∃ name, Makes declarations.typeMap name true component := by
    intro component hmem
    obtain ⟨shared, -, hparameter⟩ := Except.exists_of_mem_mapM hparameters hmem
    exact ⟨shared.1, parameterComponent_ok hparameter⟩
  have hnames := Except.map_of_mapM hschemas fun schema _ h => (schemaComponent_ok h).name
  refine ⟨?_, ?_, ?_⟩
  · rw [List.map_append, hnames,
      Except.map_of_mapM hparameters fun shared _ h => (parameterComponent_ok h).name]
  · have hkept : schemas.filter (!·.isParameter) = schemas := by
      refine List.filter_eq_self.mpr fun component hmem => ?_
      obtain ⟨name, h⟩ := hmakes component hmem
      rw [h.kind]
      rfl
    have hdropped : parameters.filter (!·.isParameter) = [] := by
      refine List.filter_eq_nil_iff.mpr fun component hmem => ?_
      obtain ⟨name, h⟩ := hshared component hmem
      rw [h.kind]
      decide
    rw [List.filter_append, hkept, hdropped, List.append_nil, hnames]
  · intro component hmem
    rcases List.mem_append.mp hmem with hmem | hmem
    · obtain ⟨name, h⟩ := hmakes component hmem
      exact h.types
    · obtain ⟨name, h⟩ := hshared component hmem
      exact h.types

theorem schemasOf_ok {components : List (String × Document)}
    {schemas : List (String × List (String × SchemaType))}
    (hcomponents : Document.entriesHaveDistinctKeys components = true)
    (h : schemasOf components = .ok schemas) : (schemas.map (·.1)).Nodup := by
  unfold schemasOf at h
  split at h
  · cases h
    exact List.nodup_nil
  · next document hdocument =>
    obtain ⟨entries, hentries, h⟩ := Except.bind_ok h
    have hdistinct := Document.distinct_of_entriesAt
      (Document.distinct_of_lookup hcomponents hdocument) hentries
    have hnames : schemas.map (·.1) = entries.map (·.1) := by
      refine Except.map_of_mapM h fun entry schema hschema => ?_
      obtain ⟨properties, -, rfl⟩ := Except.map_ok hschema
      rfl
    rw [hnames]
    exact (Document.entriesHaveDistinctKeys_iff.mp hdistinct).1

theorem parametersOf_ok {schemas : List String} {components : List (String × Document)}
    {parameters : List (String × RawParameter)}
    (hcomponents : Document.entriesHaveDistinctKeys components = true)
    (h : parametersOf schemas components = .ok parameters) :
    (parameters.map (·.1)).Nodup ∧ ∀ parameter ∈ parameters, parameter.1 ∉ schemas := by
  unfold parametersOf at h
  split at h
  · cases h
    exact ⟨List.nodup_nil, by simp⟩
  · next document hdocument =>
    obtain ⟨entries, hentries, h⟩ := Except.bind_ok h
    have hdistinct := Document.distinct_of_entriesAt
      (Document.distinct_of_lookup hcomponents hdocument) hentries
    have hentry : ∀ (entry : String × Document) (parameter : String × RawParameter),
        (if entry.1 ∈ schemas then
          .error (.malformed ("components.parameters." ++ entry.1) .namedLikeSchema)
        else (RawParameter.ofDocument ("components.parameters." ++ entry.1) entry.2).map
          (entry.1, ·)) = Except.ok parameter → parameter.1 = entry.1 ∧ parameter.1 ∉ schemas := by
      intro entry parameter h
      split at h
      · cases h
      · next hname =>
        obtain ⟨raw, -, rfl⟩ := Except.map_ok h
        exact ⟨rfl, hname⟩
    have hnames : parameters.map (·.1) = entries.map (·.1) :=
      Except.map_of_mapM h fun entry parameter h => (hentry entry parameter h).1
    refine ⟨?_, fun parameter hparameter => ?_⟩
    · rw [hnames]
      exact (Document.entriesHaveDistinctKeys_iff.mp hdistinct).1
    · obtain ⟨entry, -, h⟩ := Except.exists_of_mem_mapM h hparameter
      exact (hentry entry parameter h).2

/-- The names that are declared, schemas and shared parameters together, are distinct. -/
theorem nodup_of_ofEntries {root : List (String × Document)} {declarations : Declarations}
    (hroot : Document.entriesHaveDistinctKeys root = true) (h : ofEntries root = .ok declarations) :
    (declarations.schemas.map (·.1) ++ declarations.parameters.map (·.1)).Nodup := by
  unfold ofEntries at h
  split at h
  · cases h
    exact List.nodup_nil
  · next components hcomponents =>
    obtain ⟨entries, hentries, h⟩ := Except.bind_ok h
    obtain ⟨schemas, hschemas, h⟩ := Except.bind_ok h
    obtain ⟨parameters, hparameters, h⟩ := Except.bind_ok h
    cases h
    have hdistinct := Document.distinct_of_entriesAt
      (Document.distinct_of_lookup hroot hcomponents) hentries
    obtain ⟨hnodup, hfresh⟩ := parametersOf_ok hdistinct hparameters
    refine List.nodup_append.mpr ⟨schemasOf_ok hdistinct hschemas, hnodup, ?_⟩
    rintro name hschema _ hparameter rfl
    obtain ⟨parameter, hmem, rfl⟩ := List.mem_map.mp hparameter
    exact hfresh parameter hmem hschema

end Declarations

/-! ## Operations -/

namespace Operation

variable {map : TypeMap}

/-- What an operation mentions is known to a type map. -/
structure Resolved (map : TypeMap) (operation : Operation) : Prop where
  parameters : ∀ parameter ∈ operation.method.pathParameters ++ operation.method.queryParameters,
    map.Types parameter.type parameter.javaType
  bodies : ∀ body, operation.method.request = some body ∨ operation.method.response = some body →
    body.model ∈ map.schemas
  models : ∀ name ∈ operation.models, name ∈ map.schemas

/-- What is placed for a declared parameter: the parameter and the model that it mentions. -/
structure Places (map : TypeMap) (location : String) (raw : RawParameter)
    (placed : Parameter × Option String) : Prop where
  name : placed.1.name = raw.name
  place : raw.place = some placed.1.place
  required : placed.1.required = (raw.required || placed.1.place == .path)
  type : placed.1.type = raw.type
  javaType : map.javaType (location ++ " parameter " ++ raw.name) raw.type = .ok placed.1.javaType
  model : map.referenced? (location ++ " parameter " ++ raw.name) raw.type = .ok placed.2

/-- The parameters with a place are placed, in order. -/
theorem forall₂_placedParameters {location : String} {raws : List RawParameter}
    {placed : List (Parameter × Option String)}
    (h : placedParameters map location raws = .ok placed) :
    List.Forall₂ (Places map location) (raws.filter (·.place.isSome)) placed := by
  induction raws generalizing placed with
  | nil =>
    cases h
    exact .nil
  | cons raw rest ih =>
    unfold placedParameters at h
    split at h
    · next hplace =>
      rw [List.filter_cons_of_neg (by simp [hplace])]
      exact ih h
    · next place hplace =>
      obtain ⟨first, hfirst, h⟩ := Except.bind_ok h
      obtain ⟨more, hmore, h⟩ := Except.bind_ok h
      cases h
      obtain ⟨javaType, hjavaType, hfirst⟩ := Except.bind_ok hfirst
      obtain ⟨model, hmodel, hfirst⟩ := Except.bind_ok hfirst
      cases hfirst
      rw [List.filter_cons_of_pos (by simp [hplace])]
      exact .cons ⟨rfl, hplace, rfl, rfl, hjavaType, hmodel⟩ (ih hmore)

theorem placedParameters_ok {location : String} {raws : List RawParameter}
    {placed : List (Parameter × Option String)}
    (h : placedParameters map location raws = .ok placed) :
    ∀ parameter ∈ placed, map.Types parameter.1.type parameter.1.javaType ∧
      ∀ name, parameter.2 = some name → name ∈ map.schemas := by
  replace h := forall₂_placedParameters h
  generalize raws.filter (·.place.isSome) = raws at h
  induction h with
  | nil => simp
  | cons hfirst _ ih =>
    refine List.forall_mem_cons.mpr ⟨⟨?_, fun name hname => ?_⟩, ih⟩
    · rw [hfirst.type]
      exact map.types_of_javaType hfirst.javaType
    · exact map.referenced?_ok (hname ▸ hfirst.model)

theorem bodyAt_ok {location : String} {document : Document} {body : Body}
    (h : bodyAt map location document = .ok (some body)) : body.model ∈ map.schemas := by
  obtain ⟨entries, -, h⟩ := Except.bind_ok h
  split at h
  · cases h
  · split at h
    · exact map.schemaBody_ok h
    · cases h

theorem requestOf_ok {location : String} {entries : List (String × Document)} {body : Body}
    (h : requestOf map location entries = .ok (some body)) : body.model ∈ map.schemas := by
  unfold requestOf at h
  split at h
  · exact bodyAt_ok h
  · cases h

theorem responseOf_ok {location : String} {entries : List (String × Document)} {body : Body}
    (h : responseOf map location entries = .ok (some body)) : body.model ∈ map.schemas := by
  unfold responseOf at h
  split at h
  · cases h
  · obtain ⟨responses, -, h⟩ := Except.bind_ok h
    split at h
    · exact bodyAt_ok h
    · cases h

/-- The parts that an operation is put together from. -/
theorem exists_parts {shared : List (String × RawParameter)} {item : PathItem} {verb : Verb}
    {location : String} {entries : List (String × Document)} {operation : Operation}
    (h : ofEntries map shared item verb location entries = .ok operation) :
    ∃ own placed request response, parametersOf shared location entries = .ok own ∧
      placedParameters map location (mergeParameters item.parameters own) = .ok placed ∧
      requestOf map location entries = .ok request ∧
      responseOf map location entries = .ok response ∧
      operation =
        { resource := item.resource
          method :=
            { name := methodName item.resource verb entries
              verb
              relativePath := item.relativePath
              pathParameters := (placed.map (·.1)).filter (·.place == .path)
              queryParameters := (placed.map (·.1)).filter (·.place == .query)
              request
              response }
          models := placed.filterMap (·.2) ++ (request.map (·.model)).toList
            ++ (response.map (·.model)).toList } := by
  obtain ⟨own, hown, h⟩ := Except.bind_ok h
  obtain ⟨placed, hplaced, h⟩ := Except.bind_ok h
  obtain ⟨request, hrequest, h⟩ := Except.bind_ok h
  obtain ⟨response, hresponse, h⟩ := Except.bind_ok h
  cases h
  exact ⟨own, placed, request, response, hown, hplaced, hrequest, hresponse, rfl⟩

theorem ofEntries_ok {shared : List (String × RawParameter)} {item : PathItem} {verb : Verb}
    {location : String} {entries : List (String × Document)} {operation : Operation}
    (h : ofEntries map shared item verb location entries = .ok operation) :
    operation.Resolved map := by
  obtain ⟨own, placed, request, response, -, hplaced, hrequest, hresponse, rfl⟩ := exists_parts h
  have hparameters := placedParameters_ok hplaced
  have hbodies : ∀ body, request = some body ∨ response = some body → body.model ∈ map.schemas := by
    rintro body (rfl | rfl)
    · exact requestOf_ok hrequest
    · exact responseOf_ok hresponse
  refine ⟨fun parameter hmem => ?_, hbodies, fun name hmem => ?_⟩
  · have hplace : parameter ∈ placed.map (·.1) := by
      rcases List.mem_append.mp hmem with hmem | hmem <;> exact (List.mem_filter.mp hmem).1
    obtain ⟨first, hfirst, rfl⟩ := List.mem_map.mp hplace
    exact (hparameters first hfirst).1
  · simp only [List.mem_append, Option.mem_toList, Option.map_eq_some_iff] at hmem
    rcases hmem with (hmem | ⟨body, hbody, rfl⟩) | ⟨body, hbody, rfl⟩
    · obtain ⟨first, hfirst, hname⟩ := List.mem_filterMap.mp hmem
      exact (hparameters first hfirst).2 name hname
    · exact hbodies body (.inl hbody)
    · exact hbodies body (.inr hbody)

theorem ofPaths_ok {shared : List (String × RawParameter)} {paths : List (String × Document)}
    {operations : List Operation} (h : ofPaths map shared paths = .ok operations) :
    ∀ operation ∈ operations, operation.Resolved map := by
  obtain ⟨results, hresults, rfl⟩ := Except.map_ok h
  intro operation hmem
  obtain ⟨result, hresult, hmem⟩ := List.mem_flatten.mp hmem
  obtain ⟨path, -, hitem⟩ := Except.exists_of_mem_mapM hresults hresult
  obtain ⟨item, -, hoperations⟩ := Except.bind_ok hitem
  obtain ⟨entry, -, hoperation⟩ := Except.exists_of_mem_mapM hoperations hmem
  obtain ⟨entries, -, hoperation⟩ := Except.bind_ok hoperation
  exact ofEntries_ok hoperation

end Operation

/-! ## Definitions -/

theorem Resource.exists_of_mem_methods {name : String} {operations : List Operation}
    {method : Method} (h : method ∈ (Resource.ofOperations name operations).methods) :
    ∃ operation ∈ operations, ∃ chosen, method = { operation.method with name := chosen } := by
  obtain ⟨i, hi⟩ := List.mem_iff_getElem?.mp h
  obtain ⟨first, chosen, hfirst, -, rfl⟩ := List.getElem?_zipWith_eq_some.mp hi
  obtain ⟨operation, hoperation, rfl⟩ := List.mem_map.mp (List.mem_of_getElem? hfirst)
  exact ⟨operation, hoperation, chosen, rfl⟩

theorem Resource.exists_of_mem_group {operations : List Operation} {resource : Resource}
    (h : resource ∈ Resource.group operations) :
    ∃ name more, (∀ operation ∈ more, operation ∈ operations) ∧
      resource = Resource.ofOperations name more := by
  obtain ⟨name, -, rfl⟩ := List.mem_map.mp h
  exact ⟨name, _, fun _ hmem => (List.mem_filter.mp hmem).1, rfl⟩

namespace Definition

/-- The type map that knows the models of a definition. -/
def typeMap (definition : Definition) : TypeMap :=
  ⟨definition.models.map (·.name)⟩

/-- Everything a definition mentions is in it, with the type that its models give. -/
structure Closed (definition : Definition) : Prop where
  stored : ∀ component ∈ definition.components,
    definition.component? component.name = some component
  properties : ∀ component ∈ definition.components, ∀ property ∈ component.properties,
    definition.typeMap.Types property.type property.javaType
  parameters : ∀ resource ∈ definition.resources, ∀ method ∈ resource.methods,
    ∀ parameter ∈ method.pathParameters ++ method.queryParameters,
      definition.typeMap.Types parameter.type parameter.javaType
  bodies : ∀ resource ∈ definition.resources, ∀ method ∈ resource.methods, ∀ body,
    method.request = some body ∨ method.response = some body →
      ∃ component ∈ definition.models, component.name = body.model
  models : ∀ resource ∈ definition.resources, ∀ name ∈ resource.models,
    ∃ component ∈ definition.models, component.name = name

theorem component?_of_nodup {definition : Definition} {component : Component}
    (h : (definition.components.map (·.name)).Nodup) (hmem : component ∈ definition.components) :
    definition.component? component.name = some component := by
  unfold component?
  generalize definition.components = components at h hmem
  induction components with
  | nil => cases hmem
  | cons first rest ih =>
    obtain ⟨hfirst, hrest⟩ := List.nodup_cons.mp h
    rcases List.mem_cons.mp hmem with rfl | hmem
    · exact List.find?_cons_of_pos (beq_self_eq_true _)
    · have hne : first.name ≠ component.name :=
        fun heq => hfirst (List.mem_map.mpr ⟨component, hmem, heq.symm⟩)
      rw [List.find?_cons, beq_false_of_ne hne]
      exact ih hrest hmem

theorem operationsOf_ok {declarations : Declarations} {root : List (String × Document)}
    {operations : List Operation} (h : operationsOf declarations root = .ok operations) :
    ∀ operation ∈ operations, operation.Resolved declarations.typeMap := by
  unfold operationsOf at h
  split at h
  · cases h
    simp
  · obtain ⟨entries, -, h⟩ := Except.bind_ok h
    exact Operation.ofPaths_ok h

/-- What an imported definition is made of. -/
theorem ofDocument_eq_ok_iff {document : Document} {definition : Definition} :
    ofDocument document = .ok definition ↔
      ∃ root declarations components operations, document = .map root ∧
        Declarations.ofEntries root = .ok declarations ∧
        declarations.components = .ok components ∧
        operationsOf declarations root = .ok operations ∧
        definition = ⟨versionOf root, Resource.group operations, components⟩ := by
  constructor
  · intro h
    obtain ⟨root, hroot, h⟩ := Except.bind_ok h
    obtain ⟨declarations, hdeclarations, h⟩ := Except.bind_ok h
    obtain ⟨components, hcomponents, h⟩ := Except.bind_ok h
    obtain ⟨operations, hoperations, h⟩ := Except.bind_ok h
    cases h
    cases document with
    | map entries =>
      cases hroot
      exact ⟨root, declarations, components, operations, rfl, hdeclarations, hcomponents,
        hoperations, rfl⟩
    | _ => cases hroot
  · rintro ⟨root, declarations, components, operations, rfl, hdeclarations, hcomponents,
      hoperations, rfl⟩
    refine Except.bind_eq_ok_iff.mpr ⟨root, rfl, ?_⟩
    refine Except.bind_eq_ok_iff.mpr ⟨declarations, hdeclarations, ?_⟩
    refine Except.bind_eq_ok_iff.mpr ⟨components, hcomponents, ?_⟩
    exact Except.bind_eq_ok_iff.mpr ⟨operations, hoperations, rfl⟩

/-- The components of an imported definition have distinct names. -/
theorem nodup_names {document : Document} {definition : Definition}
    (hkeys : document.hasDistinctKeys = true) (h : ofDocument document = .ok definition) :
    (definition.components.map (·.name)).Nodup := by
  obtain ⟨root, declarations, components, operations, rfl, hdeclarations, hcomponents, -, rfl⟩ :=
    ofDocument_eq_ok_iff.mp h
  have hroot : Document.entriesAt "document" (.map root) = .ok root := rfl
  rw [(Declarations.components_ok hcomponents).1]
  exact Declarations.nodup_of_ofEntries (Document.distinct_of_entriesAt hkeys hroot) hdeclarations

theorem closed_of_ofDocument {document : Document} {definition : Definition}
    (hkeys : document.hasDistinctKeys = true) (h : ofDocument document = .ok definition) :
    definition.Closed := by
  have hnames := nodup_names hkeys h
  obtain ⟨root, declarations, components, operations, rfl, hdeclarations, hcomponents,
    hoperations, rfl⟩ := ofDocument_eq_ok_iff.mp h
  obtain ⟨-, hmodels, htypes⟩ := Declarations.components_ok hcomponents
  have hresolved := operationsOf_ok hoperations
  have hmap : typeMap ⟨versionOf root, Resource.group operations, components⟩ =
      declarations.typeMap := congrArg TypeMap.mk hmodels
  have hmodel : ∀ name ∈ declarations.typeMap.schemas,
      ∃ component ∈ components.filter (!·.isParameter), component.name = name := by
    intro name hname
    exact List.mem_map.mp (hmodels.symm ▸ hname)
  have hmethod : ∀ resource ∈ Resource.group operations, ∀ method ∈ resource.methods,
      ∃ operation ∈ operations, ∃ chosen, method = { operation.method with name := chosen } := by
    intro resource hresource method hmem
    obtain ⟨name, more, hmore, rfl⟩ := Resource.exists_of_mem_group hresource
    obtain ⟨operation, hoperation, hchosen⟩ := Resource.exists_of_mem_methods hmem
    exact ⟨operation, hmore operation hoperation, hchosen⟩
  refine
    { stored := fun component hmem => component?_of_nodup hnames hmem
      properties := ?_
      parameters := ?_
      bodies := ?_
      models := ?_ }
  · rw [hmap]
    exact htypes
  · intro resource hresource method hmem
    obtain ⟨operation, hoperation, chosen, rfl⟩ := hmethod resource hresource method hmem
    rw [hmap]
    exact (hresolved operation hoperation).parameters
  · intro resource hresource method hmem body hbody
    obtain ⟨operation, hoperation, chosen, rfl⟩ := hmethod resource hresource method hmem
    exact hmodel _ ((hresolved operation hoperation).bodies body hbody)
  · intro resource hresource name hname
    obtain ⟨key, more, hmore, rfl⟩ := Resource.exists_of_mem_group hresource
    have hmentioned : name ∈ more.flatMap (·.models) := by
      simpa [Resource.ofOperations] using hname
    obtain ⟨operation, hoperation, hmem⟩ := List.mem_flatMap.mp hmentioned
    exact hmodel name ((hresolved operation (hmore operation hoperation)).models name hmem)

/-- An imported definition is closed, whether it is made from a document, the keys of whose mappings
are distinct, or from a text. -/
theorem imported_closed :
    (∀ document definition, document.hasDistinctKeys = true →
      ofDocument document = .ok definition → definition.Closed) ∧
    ∀ text definition, ofText text = .ok definition → definition.Closed := by
  refine ⟨fun document definition => closed_of_ofDocument, fun text definition h => ?_⟩
  obtain ⟨document, hdocument, h⟩ := Except.bind_ok h
  exact closed_of_ofDocument (Document.parse_distinct hdocument) h

theorem imported_closed_product :
    let document : Document := .map
      [("components", .map [("schemas", .map [("Product", .map [])])]),
        ("paths", .map [("/products", .map [("get", .map [("parameters", .list [.map
          [("name", .text "like"), ("in", .text "query"),
            ("schema", .map [("$ref", .text "#/components/schemas/Product")])]])])])])]
    ∃ definition, ofDocument document = .ok definition ∧ definition.Closed := by
  intro document
  have hread : (ofDocument document).toOption.isSome = true := by decide +kernel
  cases h : ofDocument document with
  | error error =>
    rw [h] at hread
    cases hread
  | ok definition =>
    exact ⟨definition, rfl, imported_closed.1 document definition (by decide +kernel) h⟩

end Definition

end RestModule
