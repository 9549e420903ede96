import RestModule.Proofs.Source.Heads
import RestModule.Proofs.Spec.Uses

/-!
# The parameters of methods

A method has the parameters of its path item that its operation does not declare itself, and then the
operation's own. Paths and queries are told apart for that: a parameter that is passed elsewhere is no
argument, and it hides none (`Definition.parameters_effective`). -/

namespace RestModule

open List (Forall₂)

/-! ## Parameters in a place -/

namespace RawParameter

/-- The parameters that are passed in a place. -/
def inPlace (place : ParameterPlace) (raws : List RawParameter) : List RawParameter :=
  raws.filter (·.place == some place)

/-- The parameters that count in a place, in order: the inherited ones there whose names are not
declared there again, and then those declared there. -/
def effectiveIn (place : ParameterPlace) (inherited own : List RawParameter) : List RawParameter :=
  (inPlace place inherited).filter (fun raw => raw.name ∉ (inPlace place own).map (·.name))
    ++ inPlace place own

/-- No two parameters that are passed in the path or the query have name and place in common. -/
def PlacedOnce (raws : List RawParameter) : Prop :=
  ((raws.filter (·.place.isSome)).map fun raw => (raw.name, raw.place)).Nodup

variable {inherited own : List RawParameter}

theorem mem_inPlace {place : ParameterPlace} {raw : RawParameter} {raws : List RawParameter} :
    raw ∈ inPlace place raws ↔ raw ∈ raws ∧ raw.place = some place := by
  simp [inPlace]

/-- Lists are merged in each place on its own. -/
theorem inPlace_mergeParameters (place : ParameterPlace) (inherited own : List RawParameter) :
    inPlace place (Operation.mergeParameters inherited own) = effectiveIn place inherited own := by
  have hkept : ∀ raw ∈ inPlace place inherited,
      (!own.any fun other => other.name == raw.name && other.place == raw.place) =
        decide (raw.name ∉ (inPlace place own).map (·.name)) := by
    intro raw hraw
    have hdeclared : (own.any fun other => other.name == raw.name && other.place == raw.place) = true ↔
        raw.name ∈ (inPlace place own).map (·.name) := by
      rw [List.any_eq_true, List.mem_map]
      refine exists_congr fun other => ?_
      rw [mem_inPlace, (mem_inPlace.mp hraw).2, Bool.and_eq_true, beq_iff_eq, beq_iff_eq, and_assoc,
        and_comm (a := other.name = raw.name)]
    simp only [decide_not, ← hdeclared, Bool.decide_eq_true]
  rw [effectiveIn, ← List.filter_congr hkept, inPlace, Operation.mergeParameters,
    List.filter_append, List.filter_comm]
  rfl

theorem placedOnce_mergeParameters (hinherited : PlacedOnce inherited) (hown : PlacedOnce own) :
    PlacedOnce (Operation.mergeParameters inherited own) := by
  rw [PlacedOnce, Operation.mergeParameters, List.filter_append, List.map_append]
  refine List.nodup_append.mpr ⟨?_, hown, ?_⟩
  · rw [List.filter_comm]
    exact List.Nodup.sublist (List.filter_sublist.map _) hinherited
  · rintro key hleft _ hright rfl
    obtain ⟨raw, hraw, rfl⟩ := List.mem_map.mp hleft
    obtain ⟨other, hother, hkey⟩ := List.mem_map.mp hright
    obtain ⟨hname, hplace⟩ := Prod.mk.inj hkey
    have hfree := (List.mem_filter.mp (List.mem_filter.mp hraw).1).2
    have hhidden : (own.any fun other => other.name == raw.name && other.place == raw.place) = true :=
      List.any_eq_true.mpr ⟨other, (List.mem_filter.mp hother).1, by simp [hname, hplace]⟩
    rw [hhidden] at hfree
    cases hfree

/-- What is passed in the path and what is passed in the query. -/
theorem inPlace_append_perm (raws : List RawParameter) :
    (inPlace .path raws ++ inPlace .query raws).Perm (raws.filter (·.place.isSome)) := by
  have hquery : (raws.filter (·.place.isSome)).filter (fun raw => !(raw.place == some .path)) =
      inPlace .query raws := by
    rw [List.filter_filter]
    refine List.filter_congr fun raw _ => ?_
    rcases raw.place with _ | place
    · rfl
    · cases place <;> rfl
  have hperm := List.filter_append_perm (fun raw : RawParameter => raw.place == some .path)
    (raws.filter (·.place.isSome))
  rwa [filter_placed, hquery] at hperm

end RawParameter

open RawParameter

/-! ## Parameters of a method -/

/-- A declared parameter as a method takes it. In the path it is required. -/
structure RawParameter.TakenAs (raw : RawParameter) (parameter : Parameter) : Prop
    extends raw.Becomes parameter where
  required : parameter.required = (raw.required || parameter.place == .path)

namespace Method

/-- A method has the parameters that count among those inherited and those declared. -/
structure HasEffective (inherited own : List RawParameter) (method : Method) : Prop where
  path : Forall₂ TakenAs (effectiveIn .path inherited own) method.pathParameters
  query : Forall₂ TakenAs (effectiveIn .query inherited own) method.queryParameters
  /-- The signature has these parameters and no others. -/
  arguments : method.arguments.map (·.origin) =
    (effectiveIn .path inherited own).map (Origin.pathParameter ·.name)
      ++ (effectiveIn .query inherited own).map (Origin.queryParameter ·.name)
      ++ method.fixedArguments.map (·.origin)
  required : ∀ parameter ∈ method.pathParameters, parameter.required = true
  distinct : PlacedOnce inherited → PlacedOnce own →
    (method.parameters.map fun parameter => (parameter.name, parameter.place)).Nodup

variable {inherited own raws : List RawParameter} {parameters : List Parameter} {method : Method}

theorem map_eq_of_taken {α : Type} {f : Parameter → α} {g : RawParameter → α}
    (hfg : ∀ raw parameter, raw.TakenAs parameter → f parameter = g raw)
    (h : Forall₂ TakenAs raws parameters) : parameters.map f = raws.map g := by
  induction h with
  | nil => rfl
  | cons hfirst _ ih => rw [List.map_cons, List.map_cons, hfg _ _ hfirst, ih]

theorem required_of_taken (h : Forall₂ TakenAs raws parameters)
    (hplace : ∀ raw ∈ raws, raw.place = some .path) :
    ∀ parameter ∈ parameters, parameter.required = true := by
  induction h with
  | nil => simp
  | @cons raw parameter _ _ hfirst _ ih =>
    obtain ⟨hraw, hplace⟩ := List.forall_mem_cons.mp hplace
    refine List.forall_mem_cons.mpr ⟨?_, ih hplace⟩
    have hpath : parameter.place = .path := Option.some.inj (hfirst.place.symm.trans hraw)
    rw [hfirst.required, hpath]
    exact Bool.or_true _

theorem hasEffective_of_taken
    (hpath : Forall₂ TakenAs (effectiveIn .path inherited own) method.pathParameters)
    (hquery : Forall₂ TakenAs (effectiveIn .query inherited own) method.queryParameters) :
    method.HasEffective inherited own := by
  refine ⟨hpath, hquery, ?arguments, ?required, ?distinct⟩
  case arguments =>
    rw [Method.arguments, List.map_append, map_origin_parameterArguments, placedParameters,
      List.map_append, List.map_map, List.map_map]
    congr 2
    · exact map_eq_of_taken (fun _ _ htaken => congrArg Origin.pathParameter htaken.name) hpath
    · exact map_eq_of_taken (fun _ _ htaken => congrArg Origin.queryParameter htaken.name) hquery
  case required =>
    refine required_of_taken hpath fun raw hraw => ?_
    rw [← inPlace_mergeParameters] at hraw
    exact (mem_inPlace.mp hraw).2
  case distinct =>
    intro hinherited hown
    have hkeys : (method.parameters.map fun parameter => (parameter.name, some parameter.place)) =
        (effectiveIn .path inherited own ++ effectiveIn .query inherited own).map
          fun raw => (raw.name, raw.place) :=
      map_eq_of_taken (fun _ _ htaken => Prod.ext htaken.name htaken.place.symm)
        (List.rel_append hpath hquery)
    have hperm := inPlace_append_perm (Operation.mergeParameters inherited own)
    rw [inPlace_mergeParameters, inPlace_mergeParameters] at hperm
    have hnodup : (method.parameters.map
        fun parameter => (parameter.name, some parameter.place)).Nodup := by
      rw [hkeys]
      exact (hperm.map _).nodup_iff.mpr (placedOnce_mergeParameters hinherited hown)
    refine List.Nodup.of_map (Prod.map id some) ?_
    rwa [List.map_map]

end Method

/-! ## Documents -/

/-- A method has the parameters that its path item and its operation declare at a site. -/
structure Site.Parameterizes (root : List (String × Document)) (site : Site) (method : Method) :
    Prop where
  answers : site.mention.Answers method
  parameters : ∃ inherited own, Grammar.Lists root site.item inherited ∧
    Grammar.Lists root site.entries own ∧ method.HasEffective inherited own

namespace Operation

variable {root : List (String × Document)} {map : TypeMap}
  {shared : List (String × RawParameter)}

theorem taken_of_placedParameters {location : String} {raws : List RawParameter}
    {placed : List (Parameter × Option String)}
    (h : placedParameters map location raws = .ok placed) :
    Forall₂ TakenAs (raws.filter (·.place.isSome)) (placed.map (·.1)) := by
  refine List.forall₂_map_right_iff.mpr
    ((forall₂_placedParameters h).imp fun raw parameter hplaces => ?_)
  exact ⟨⟨hplaces.name, hplaces.place, hplaces.type⟩, hplaces.required⟩

/-- The method of an operation, whatever it is called in its resource. -/
theorem parameterizes_of_isReadAs (hshared : SharedOf root shared) {site : Site}
    {operation : Operation} (h : site.IsReadAs map shared operation) (name : String) :
    site.Parameterizes root { operation.method with name } := by
  have hanswers := (reads_of_isReadAs h).method
  obtain ⟨item, verb, location, hitem, -, h⟩ := h
  obtain ⟨own, placed, request, response, hown, hplaced, -, -, rfl⟩ := exists_parts h
  refine ⟨⟨hanswers.verb, hanswers.relativePath⟩, item.parameters, own,
    lists_of_itemAt hshared hitem, (parametersOf_eq_ok_iff hshared).mp hown, ?_⟩
  have htaken := forall₂_in_place (fun _ _ htaken => htaken.place) (taken_of_placedParameters hplaced)
  apply Method.hasEffective_of_taken
  · rw [← inPlace_mergeParameters]
    exact htaken .path
  · rw [← inPlace_mergeParameters]
    exact htaken .query

end Operation

namespace Definition

/-- Every operation of a document has its method, with the parameters that count for it. -/
structure HasParameters (document : Document) (definition : Definition) : Prop where
  complete : ∀ site ∈ document.sites, ∃ resource ∈ definition.resources,
    resource.name = site.mention.resource
  methods : ∀ resource ∈ definition.resources,
    Forall₂ (Site.Parameterizes (document.entries?.getD []))
      (document.sites.filter (·.mention.resource == resource.name)) resource.methods

/-- The parameters of a path item hold for an operation unless it declares them itself. -/
theorem parameters_effective {document : Document} {definition : Definition}
    (h : ofDocument document = .ok definition) : definition.HasParameters document := by
  obtain ⟨root, declarations, components, operations, rfl, hdeclarations, -, hoperations, rfl⟩ :=
    ofDocument_eq_ok_iff.mp h
  have hmade := Declarations.ofEntries_eq_ok_iff.mp hdeclarations
  have hread := isReadAs_operationsOf hoperations
  constructor
  case complete =>
    intro site hsite
    have hgroup := Resource.group_of_reads (reads_operationsOf hoperations)
    rw [← Document.map_mention_sites] at hgroup
    exact hgroup.complete _ (List.mem_map_of_mem hsite)
  case methods =>
    intro resource hresource
    obtain ⟨name, -, rfl⟩ := List.mem_map.mp hresource
    have hgroup := Operation.forall₂_filter_resource hread
      (fun _ _ hsite => (Operation.reads_of_isReadAs hsite).resource) name
    exact Resource.forall₂_ofOperations (hgroup.imp fun _ _ hsite =>
      Operation.parameterizes_of_isReadAs hmade.lookup_eq_some_iff hsite) name

/-- A header hides neither the path parameter nor the query parameter of its name. One of the two
shared parameters is declared again. -/
theorem parameters_effective_order :
    let parameter (place name type : String) : Document :=
      .map [("in", .text place), ("name", .text name), ("schema", .map [("type", .text type)])]
    let shared (name : String) : Document :=
      .map [("$ref", .text ("#/components/parameters/" ++ name))]
    let document : Document := .map
      [("components", .map [("parameters", .map [("Page", parameter "query" "page" "integer"),
          ("Sort", parameter "query" "sort" "string")])]),
        ("paths", .map [("/order/{id}", .map
          [("parameters", .list [parameter "path" "id" "string", parameter "query" "id" "boolean",
              shared "Page", shared "Sort"]),
            ("get", .map [("parameters", .list [parameter "header" "id" "string",
              parameter "query" "page" "string"])])])])]
    ∃ definition, ofDocument document = .ok definition ∧
      definition.resources.flatMap (·.methods.flatMap fun method => method.parameters.map
          fun parameter => (parameter.name, parameter.place, parameter.javaType)) =
        [("id", .path, "String"), ("id", .query, "Boolean"), ("sort", .query, "String"),
          ("page", .query, "String")] ∧
      definition.HasParameters document := by
  intro parameter shared document
  have hread : (ofDocument document).toOption.map
      (·.resources.flatMap (·.methods.flatMap fun method => method.parameters.map
        fun parameter => (parameter.name, parameter.place, parameter.javaType))) =
      some [("id", .path, "String"), ("id", .query, "Boolean"), ("sort", .query, "String"),
        ("page", .query, "String")] := by decide +kernel
  obtain ⟨definition, h, hparameters⟩ := Except.exists_ok_of_map hread
  exact ⟨definition, h, hparameters, parameters_effective h⟩

end Definition

end RestModule
