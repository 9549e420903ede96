import RestModule.Proofs.Spec.Mention

/-!
# The models that resources use

The models of a resource are those that its methods use, in bodies or as types of parameters, in the
order in which the description mentions them first (`Definition.models_listed`). Where an operation is
declared, the parameters of its path item come first, those that it declares itself excepted, then its
own parameters, the request and the response. -/

namespace RestModule

open Document (under)
open List (Forall₂)

/-! ## References in types -/

/-- A type refers to a schema, directly or as the items of an array. -/
inductive SchemaType.Refers (name : String) : SchemaType → Prop where
  | reference (format : Option String) (items : Option SchemaType) :
      Refers name (.mk (schemaReference ++ name) format items)
  | array (format : Option String) {items : SchemaType} (h : Refers name items) :
      Refers name (.mk "array" format (some items))

theorem Document.Describes.refers_iff {schema : Document} {type : SchemaType} {name : String}
    (h : schema.Describes type) : type.schemaName? = some name ↔ type.Refers name := by
  have htoken : ∀ (token : String) (format : Option String),
      (SchemaType.mk token format none).schemaName? = some name ↔
        (SchemaType.mk token format none).Refers name := by
    intro token format
    have hname : (SchemaType.mk token format none).schemaName? =
        Text.after? schemaReference token := by
      rw [SchemaType.schemaName?]
      cases Text.after? schemaReference token <;> rfl
    rw [hname, Text.after?_eq_some_iff]
    constructor
    · rintro rfl
      exact .reference format none
    · intro h
      cases h
      rfl
  induction h with
  | reference _ => exact htoken _ none
  | plain _ _ _ => exact htoken _ _
  | @array entries items type _ _ _ _ ih =>
    have harray : ∀ format, (SchemaType.mk "array" format (some type)).schemaName? =
        type.schemaName? := fun _ => rfl
    rw [harray]
    refine ih.trans ⟨.array _, fun h => ?_⟩
    generalize htoken : "array" = token at h
    cases h with
    | reference _ _ =>
      have hnone : Text.after? schemaReference "array" = none := by decide
      rw [htoken, Text.after?_append] at hnone
      cases hnone
    | array _ h => exact h

namespace TypeMap

variable {map : TypeMap} {location : String}

theorem after?_of_resolve {reference name : String} (h : map.resolve reference location = .ok name) :
    Text.after? schemaReference reference = some name := by
  unfold resolve at h
  split at h
  · next found hfound =>
    split at h
    · cases h
      exact hfound
    · cases h
  · cases h

theorem after?_eq_none {token : String} (h : SchemaType.isReferenceToken token = false) :
    Text.after? schemaReference token = none := by
  cases hname : Text.after? schemaReference token with
  | none => rfl
  | some name =>
    have htoken : token = "#/" ++ ("components/schemas/" ++ name) := by
      rw [Text.after?_eq_some_iff.mp hname, ← String.append_assoc]
      rfl
    rw [htoken, SchemaType.isReferenceToken, Text.after?_append] at h
    cases h

/-- Resolving the reference in a type finds the schema that the type names. -/
theorem referenced?_eq : ∀ {type : SchemaType} {found : Option String},
    map.referenced? location type = .ok found → found = type.schemaName?
  | .mk token format items, found, h => by
    unfold referenced? at h
    unfold SchemaType.schemaName?
    split at h
    · obtain ⟨name, hname, rfl⟩ := Except.map_ok h
      rw [after?_of_resolve hname]
    · next href =>
      rw [after?_eq_none (Bool.eq_false_iff.mpr href)]
      cases items with
      | none => exact (Except.ok.inj h).symm
      | some items => exact referenced?_eq h

end TypeMap

/-! ## What methods use -/

/-- The parameters that count for an operation, in order: those of the path item that it does not
declare itself, and then its own. -/
def Site.Effective (root : List (String × Document)) (site : Site) (raws : List RawParameter) : Prop :=
  ∃ inherited own, Grammar.Lists root site.item inherited ∧ Grammar.Lists root site.entries own ∧
    raws = inherited.filter
      (fun raw => !own.any fun other => other.name == raw.name && other.place == raw.place) ++ own

/-- A declared parameter becomes one of a method. -/
structure RawParameter.Becomes (raw : RawParameter) (parameter : Parameter) : Prop where
  name : parameter.name = raw.name
  place : raw.place = some parameter.place
  type : parameter.type = raw.type

theorem RawParameter.filter_placed (place : ParameterPlace) (raws : List RawParameter) :
    (raws.filter (·.place.isSome)).filter (·.place == some place) =
      raws.filter (·.place == some place) := by
  rw [List.filter_filter]
  refine List.filter_congr fun raw _ => ?_
  cases raw.place <;> simp

namespace Method

/-- A method takes declared parameters, those in the path and those in the query, each in order. -/
structure Takes (method : Method) (raws : List RawParameter) : Prop where
  path : Forall₂ RawParameter.Becomes (raws.filter (·.place == some .path)) method.pathParameters
  query : Forall₂ RawParameter.Becomes (raws.filter (·.place == some .query)) method.queryParameters

/-- The models that a method mentions, in order: in the types of its parameters, as they are declared
one after the other, in the request and in the response. -/
def mentions (method : Method) (raws : List RawParameter) : List String :=
  (raws.filter (·.place.isSome)).filterMap (·.type.schemaName?)
    ++ (method.request.map (·.model)).toList ++ (method.response.map (·.model)).toList

/-- A method uses a model: for a body, or in the type of a parameter. -/
def Uses (method : Method) (name : String) : Prop :=
  (∃ body, (method.request = some body ∨ method.response = some body) ∧ body.model = name) ∨
    ∃ parameter ∈ method.pathParameters ++ method.queryParameters, parameter.type.Refers name

end Method

/-! ## Operations -/

namespace Operation

variable {root : List (String × Document)} {map : TypeMap}
  {shared : List (String × RawParameter)}

/-- The parameters that are placed are those with a place, each with the model it mentions. -/
theorem becomes_of_placedParameters {location : String} {raws : List RawParameter}
    {placed : List (Parameter × Option String)}
    (h : placedParameters map location raws = .ok placed) :
    Forall₂ (fun raw parameter => raw.Becomes parameter.1 ∧ parameter.2 = raw.type.schemaName?)
      (raws.filter (·.place.isSome)) placed := by
  refine (forall₂_placedParameters h).imp fun raw parameter hplaces => ?_
  exact ⟨⟨hplaces.name, hplaces.place, hplaces.type⟩, TypeMap.referenced?_eq hplaces.model⟩

/-- The parameters that are passed in one place. -/
theorem forall₂_in_place {R : RawParameter → Parameter → Prop}
    (hR : ∀ raw parameter, R raw parameter → raw.place = some parameter.place)
    {raws : List RawParameter} {parameters : List Parameter}
    (h : Forall₂ R (raws.filter (·.place.isSome)) parameters) (place : ParameterPlace) :
    Forall₂ R (raws.filter (·.place == some place)) (parameters.filter (·.place == place)) := by
  rw [← RawParameter.filter_placed]
  refine List.rel_filter (fun raw parameter hparameter => ?_) h
  have hplace := hR raw parameter hparameter
  simp [hplace]

theorem filterMap_placed {raws : List RawParameter} {placed : List (Parameter × Option String)}
    (h : Forall₂ (fun raw parameter => raw.Becomes parameter.1 ∧
      parameter.2 = raw.type.schemaName?) raws placed) :
    placed.filterMap (·.2) = raws.filterMap (·.type.schemaName?) := by
  induction h with
  | nil => rfl
  | cons hfirst _ ih => simp only [List.filterMap_cons, hfirst.2, ih]

end Operation

/-- The parameters and models of the operation that is read at a site. -/
def Site.Provides (root : List (String × Document)) (site : Site) (operation : Operation) : Prop :=
  ∃ raws, site.Effective root raws ∧ operation.method.Takes raws ∧
    operation.models = operation.method.mentions raws

namespace Operation

variable {root : List (String × Document)} {map : TypeMap}
  {shared : List (String × RawParameter)}

theorem lists_of_itemAt (hshared : SharedOf root shared) {path : String} {document : Document}
    {item : PathItem} {entries : List (String × Document)}
    (h : itemAt shared path document = .ok (item, entries)) :
    Grammar.Lists root entries item.parameters :=
  (parametersOf_eq_ok_iff hshared).mp (itemAt_parts h).2.2

theorem provides_of_isReadAs (hshared : SharedOf root shared) {site : Site} {operation : Operation}
    (h : site.IsReadAs map shared operation) : site.Provides root operation := by
  obtain ⟨item, verb, location, hitem, -, h⟩ := h
  obtain ⟨own, placed, request, response, hown, hplaced, -, -, rfl⟩ := exists_parts h
  have hinherited := lists_of_itemAt hshared hitem
  have hown := (parametersOf_eq_ok_iff hshared).mp hown
  have hbecomes := becomes_of_placedParameters hplaced
  have hparameters : Forall₂ RawParameter.Becomes
      ((mergeParameters item.parameters own).filter (·.place.isSome)) (placed.map (·.1)) :=
    List.forall₂_map_right_iff.mpr (hbecomes.imp fun _ _ hboth => hboth.1)
  have htakes := forall₂_in_place (fun _ _ hbecome => hbecome.place) hparameters
  refine ⟨mergeParameters item.parameters own, ⟨_, own, hinherited, hown, rfl⟩,
    ⟨htakes .path, htakes .query⟩, ?_⟩
  rw [filterMap_placed hbecomes, Method.mentions]

end Operation

/-- The operation that is read at a site. -/
structure Site.Declares (root : List (String × Document)) (site : Site) (operation : Operation) :
    Prop where
  mention : site.mention.Reads operation
  provides : site.Provides root operation

namespace Definition

variable {declarations : Declarations} {root : List (String × Document)}
  {operations : List Operation}

theorem declares_operationsOf (hdeclarations : declarations.MadeBy root)
    (h : operationsOf declarations root = .ok operations) :
    Forall₂ (Site.Declares root) (Document.sites (.map root)) operations := by
  refine (isReadAs_operationsOf h).imp fun site operation hsite => ?_
  exact ⟨Operation.reads_of_isReadAs hsite,
    Operation.provides_of_isReadAs hdeclarations.lookup_eq_some_iff hsite⟩

end Definition

/-! ## Resources -/

/-- A method with the place where it is declared and the parameters that count there. -/
structure Declared where
  site : Site
  parameters : List RawParameter
  method : Method

namespace Declared

/-- The models that are mentioned where the method is declared, in order. -/
def mentions (declared : Declared) : List String :=
  declared.method.mentions declared.parameters

/-- The method is what a description with these entries declares at the site. -/
structure Holds (root : List (String × Document)) (declared : Declared) : Prop where
  answers : declared.site.mention.Answers declared.method
  effective : declared.site.Effective root declared.parameters
  takes : declared.method.Takes declared.parameters

/-- The declared methods of operations, under new names. -/
theorem exists_of_declares {root : List (String × Document)} {sites : List Site}
    {operations : List Operation} (h : Forall₂ (Site.Declares root) sites operations)
    {names : List String} (hlength : names.length = operations.length) :
    ∃ all : List Declared, all.map (·.site) = sites ∧
      all.map (·.method) =
        (operations.map (·.method)).zipWith (fun method name => { method with name }) names ∧
      (∀ declared ∈ all, declared.Holds root) ∧
      all.flatMap mentions = operations.flatMap (·.models) := by
  induction h generalizing names with
  | nil => exact ⟨[], rfl, rfl, by simp, rfl⟩
  | @cons site operation sites operations hfirst _ ih =>
    obtain ⟨hreads, raws, heffective, htakes, hmodels⟩ := hfirst
    cases names with
    | nil => cases hlength
    | cons name more =>
      obtain ⟨all, hsites, hmethods, hholds, hmentions⟩ := ih (Nat.succ.inj hlength)
      refine ⟨⟨site, raws, { operation.method with name }⟩ :: all, ?_, ?_, ?_, ?_⟩
      · rw [List.map_cons, hsites]
      · rw [List.map_cons, hmethods]
        rfl
      · exact List.forall_mem_cons.mpr
          ⟨⟨⟨hreads.method.verb, hreads.method.relativePath⟩, heffective,
            ⟨htakes.path, htakes.query⟩⟩, hholds⟩
      · rw [List.flatMap_cons, List.flatMap_cons, hmentions, hmodels]
        rfl

theorem exists_of_ofOperations {root : List (String × Document)} {sites : List Site}
    {operations : List Operation} (h : Forall₂ (Site.Declares root) sites operations)
    (name : String) :
    ∃ all : List Declared, all.map (·.site) = sites ∧
      all.map (·.method) = (Resource.ofOperations name operations).methods ∧
      (∀ declared ∈ all, declared.Holds root) ∧
      (Resource.ofOperations name operations).models = addNames [] (all.flatMap mentions) := by
  have hlength : (Naming.distinctBy id [] ((operations.map (·.method)).map (·.name))).length =
      operations.length := by
    rw [Naming.length_distinctBy, List.length_map, List.length_map]
  obtain ⟨all, hsites, hmethods, hholds, hmentions⟩ := exists_of_declares h hlength
  refine ⟨all, hsites, hmethods, hholds, ?_⟩
  rw [hmentions]
  rfl

end Declared

namespace Method

theorem exists_refers_iff {name : String} {raws : List RawParameter} {parameters : List Parameter}
    (h : Forall₂ RawParameter.Becomes raws parameters) :
    (∃ raw ∈ raws, raw.type.Refers name) ↔ ∃ parameter ∈ parameters, parameter.type.Refers name := by
  induction h with
  | nil => simp
  | cons hfirst _ ih => simp only [List.exists_mem_cons_iff, hfirst.type, ih]

/-- The models that are mentioned where a method is declared are those that it uses. -/
theorem mem_mentions_iff {method : Method} {raws : List RawParameter} {name : String}
    (htakes : method.Takes raws)
    (hdescribed : ∀ raw ∈ raws, ∃ schema : Document, schema.Describes raw.type) :
    name ∈ method.mentions raws ↔ method.Uses name := by
  have hplaced : ∀ raw : RawParameter, raw.place.isSome = true ↔
      (raw.place == some .path) = true ∨ (raw.place == some .query) = true := by
    intro raw
    rcases raw.place with _ | place
    · decide
    · cases place <;> decide
  have hparameters : (∃ raw ∈ raws.filter (·.place.isSome), raw.type.schemaName? = some name) ↔
      ∃ parameter ∈ method.pathParameters ++ method.queryParameters, parameter.type.Refers name := by
    simp only [List.mem_append, or_and_right, exists_or, ← exists_refers_iff htakes.path,
      ← exists_refers_iff htakes.query, List.mem_filter, hplaced]
    rw [← exists_or]
    refine exists_congr fun raw => ?_
    rw [← or_and_right, ← and_or_left]
    refine and_congr_right fun hraw => ?_
    obtain ⟨schema, hschema⟩ := hdescribed raw hraw.1
    exact hschema.refers_iff
  have hbodies : (name ∈ (method.request.map (·.model)).toList ∨
      name ∈ (method.response.map (·.model)).toList) ↔
        ∃ body, (method.request = some body ∨ method.response = some body) ∧ body.model = name := by
    simp only [Option.mem_toList, Option.map_eq_some_iff, or_and_right, exists_or]
  rw [mentions, List.append_assoc, List.mem_append, List.mem_append, List.mem_filterMap, hparameters,
    hbodies, Uses, or_comm]

end Method

/-- The models of a resource are those that its methods use, each once, in the order of their first
mentions. -/
structure Resource.ListsModels (document : Document) (resource : Resource) : Prop where
  distinct : resource.models.Nodup
  exact : ∀ name, name ∈ resource.models ↔ ∃ method ∈ resource.methods, method.Uses name
  ordered : ∃ all : List Declared,
    all.map (·.site) = document.sites.filter (·.mention.resource == resource.name) ∧
    all.map (·.method) = resource.methods ∧
    (∀ declared ∈ all, declared.Holds (document.entries?.getD [])) ∧
    (∀ name, name ∈ resource.models ↔ name ∈ all.flatMap Declared.mentions) ∧
    resource.models.Pairwise fun a b =>
      (all.flatMap Declared.mentions).idxOf a < (all.flatMap Declared.mentions).idxOf b

theorem Declared.Holds.mem_mentions_iff {root : List (String × Document)} {declared : Declared}
    {name : String} (h : declared.Holds root) :
    name ∈ declared.mentions ↔ declared.method.Uses name := by
  refine Method.mem_mentions_iff h.takes fun raw hraw => ?_
  obtain ⟨inherited, own, hinherited, hown, hraws⟩ := h.effective
  rw [hraws] at hraw
  rcases List.mem_append.mp hraw with hraw | hraw
  · exact Operation.exists_describes_of_lists hinherited raw (List.mem_filter.mp hraw).1
  · exact Operation.exists_describes_of_lists hown raw hraw

namespace Definition

/-- The methods of a resource are declared at its sites, and its models are mentioned there. -/
theorem exists_declared {document : Document} {definition : Definition}
    (h : ofDocument document = .ok definition) {resource : Resource}
    (hresource : resource ∈ definition.resources) :
    ∃ all : List Declared,
      all.map (·.site) = document.sites.filter (·.mention.resource == resource.name) ∧
      all.map (·.method) = resource.methods ∧
      (∀ declared ∈ all, declared.Holds (document.entries?.getD [])) ∧
      resource.models = addNames [] (all.flatMap Declared.mentions) := by
  obtain ⟨root, declarations, components, operations, rfl, hdeclarations, -, hoperations, rfl⟩ :=
    ofDocument_eq_ok_iff.mp h
  have hdeclares :=
    declares_operationsOf (Declarations.ofEntries_eq_ok_iff.mp hdeclarations) hoperations
  obtain ⟨name, -, rfl⟩ := List.mem_map.mp hresource
  have hgroup : Forall₂ (Site.Declares root)
      ((Document.sites (.map root)).filter (·.mention.resource == name))
      (operations.filter (·.resource == name)) :=
    Operation.forall₂_filter_resource hdeclares (fun _ _ hsite => hsite.mention.resource) name
  exact Declared.exists_of_ofOperations hgroup name

/-- Every resource of an imported definition lists the models that its methods use. -/
theorem models_listed {document : Document} {definition : Definition}
    (h : ofDocument document = .ok definition) :
    ∀ resource ∈ definition.resources, resource.ListsModels document := by
  intro resource hresource
  obtain ⟨all, hsites, hmethods, hholds, hmodels⟩ := exists_declared h hresource
  have hmem : ∀ model, model ∈ resource.models ↔ model ∈ all.flatMap Declared.mentions := by
    intro model
    rw [hmodels]
    simp
  constructor
  case distinct =>
    rw [hmodels]
    exact nodup_addNames .nil _
  case exact =>
    intro model
    have hmethod : ∀ declared ∈ all, (model ∈ declared.mentions ↔ declared.method.Uses model) :=
      fun declared hdeclared => (hholds declared hdeclared).mem_mentions_iff
    rw [hmem, List.mem_flatMap, ← hmethods]
    simp only [List.mem_map, exists_exists_and_eq_and]
    exact exists_congr fun declared => and_congr_right (hmethod declared)
  case ordered =>
    refine ⟨all, hsites, hmethods, hholds, hmem, ?_⟩
    rw [hmodels]
    exact pairwise_idxOf_addNames _

/-- A description in which an operation declares the page itself, and has a filter in its header. -/
theorem models_listed_orders :
    let reference (name : String) : Document := .map [("$ref", .text ("#/components/schemas/" ++ name))]
    let array (items : Document) : Document := .map [("type", .text "array"), ("items", items)]
    let content (schema : Document) : Document :=
      .map [("content", .map [("application/json", .map [("schema", schema)])])]
    let parameter (place name : String) (schema : Document) : Document :=
      .map [("in", .text place), ("name", .text name), ("schema", schema)]
    let document : Document := .map
      [("components", .map [("schemas", .map [("Filter", .map []), ("Order", .map []),
          ("Page", .map []), ("Tag", .map [])])]),
        ("paths", .map
          [("/order/\x7bid\x7d", .map
              [("parameters", .list [parameter "query" "tags" (array (array (reference "Tag"))),
                  parameter "query" "page" (reference "Page")]),
                ("get", .map
                  [("parameters", .list [parameter "query" "page" (.map [("type", .text "integer")]),
                      parameter "header" "filter" (reference "Filter")]),
                    ("responses", .map [("200", content (reference "Order"))])])]),
            ("/order", .map [("post", .map
              [("requestBody", content (reference "Filter")),
                ("responses", .map [("200", content (array (reference "Order")))])])])])]
    ∃ definition, ofDocument document = .ok definition ∧
      definition.resources.map (·.models) = [["Tag", "Order", "Filter"]] ∧
      ∀ resource ∈ definition.resources, resource.ListsModels document := by
  intro reference array content parameter document
  have hread : (ofDocument document).toOption.map (·.resources.map (·.models)) =
      some [["Tag", "Order", "Filter"]] := by decide +kernel
  obtain ⟨definition, h, hmodels⟩ := Except.exists_ok_of_map hread
  exact ⟨definition, h, hmodels, models_listed h⟩

end Definition

end RestModule
