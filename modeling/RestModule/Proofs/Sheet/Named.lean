import RestModule.Proofs.Sheet.Clash
import RestModule.Proofs.Source.Heads

/-!
# The names in an interface

An interface names annotations, of its own, of its methods and of their arguments, and it names the
types that methods return. The JAX-RS classes that a resource imports are those that are named
(`Resource.mem_webImports_iff`), in the order of their full names (`Import.pairwise_sorted`). -/

namespace RestModule

open Naming (IsName isIdentifierPart)

/-! ## Names in a text -/

namespace Source

/-- The name of the annotation with which a text begins. -/
def annotation? (text : String) : Option String :=
  (Text.after? "@" text).map fun rest => .ofList (rest.toList.takeWhile isIdentifierPart)

/-- The names in a type: its longest runs of identifier characters. -/
def typeNames (type : String) : List String :=
  ((Text.pieces (!isIdentifierPart ·) type.toList).filter (!·.isEmpty)).map .ofList

theorem annotation?_append (start name more rest : String)
    (hstart : start = "@" ++ (name ++ more) := by decide) (hname : IsName name := by decide)
    (hmore : more.toList.head?.any (!isIdentifierPart ·) = true := by decide) :
    annotation? (start ++ rest) = some name := by
  have hkept : (name ++ (more ++ rest)).toList.takeWhile isIdentifierPart = name.toList := by
    rw [String.toList_append, List.takeWhile_append_of_pos hname, String.toList_append]
    cases hlist : more.toList with
    | nil =>
      rw [hlist] at hmore
      cases hmore
    | cons c cs =>
      rw [hlist] at hmore
      have hc : isIdentifierPart c = false := by simpa using hmore
      rw [List.cons_append, List.takeWhile_cons_of_neg (Bool.eq_false_iff.mp hc), List.append_nil]
  rw [hstart, String.append_assoc, String.append_assoc, annotation?, Text.after?_append,
    Option.map_some, hkept, String.ofList_toList]

theorem annotation?_of_isName {first : String} (hfirst : IsName first) (hne : first ≠ "")
    (rest : String) : annotation? (first ++ rest) = none := by
  have hnone : Text.after? "@" (first ++ rest) = none := by
    cases hchars : first.toList with
    | nil => exact absurd (String.toList_eq_nil_iff.mp hchars) hne
    | cons c more =>
      have hc : ¬ '@' = c := by
        rintro rfl
        exact hfirst.not_mem (c := '@') (by decide) (hchars ▸ List.mem_cons_self)
      simp [Text.after?, String.toList_append, hchars, List.isPrefixOf?, hc]
  rw [annotation?, hnone, Option.map_none]

theorem typeNames_of_isName {name : String} (hname : IsName name) (hne : name ≠ "") :
    typeNames name = [name] := by
  have hpieces : Text.pieces (!isIdentifierPart ·) name.toList = [name.toList] := by
    rw [Text.pieces_eq_splitOnP]
    exact List.splitOnP_eq_singleton fun c hc => by simp [hname c hc]
  rw [typeNames, hpieces, List.filter_cons_of_pos (by simpa using hne), List.filter_nil,
    List.map_cons, String.ofList_toList, List.map_nil]

theorem typeNames_append {type before after : String} {c : Char}
    (htype : type.toList = before.toList ++ c :: after.toList) (hc : isIdentifierPart c = false) :
    typeNames type = typeNames before ++ typeNames after := by
  have hpieces : Text.pieces (!isIdentifierPart ·) type.toList =
      Text.pieces (!isIdentifierPart ·) before.toList ++
        Text.pieces (!isIdentifierPart ·) after.toList := by
    simp only [Text.pieces_eq_splitOnP, htype]
    exact List.splitOnP_append_cons _ _ (by simp [hc])
  rw [typeNames, hpieces, List.filter_append, List.map_append, typeNames, typeNames]

end Source

/-! ## Methods -/

theorem Naming.modelClass_ne_empty (component : String) : modelClass component ≠ "" := by
  intro h
  have hsuffix := suffix_modelClass component
  rw [h] at hsuffix
  exact absurd hsuffix (by decide)

/-- A class with the name of no model. -/
theorem Naming.ne_modelClass {name : String} (h : ¬ "DTO".toList <:+ name.toList)
    (component : String) : name ≠ modelClass component := by
  rintro rfl
  exact h (suffix_modelClass component)

/-- The name of an annotation. -/
def Marker.name : Marker → String
  | verb v => v.name
  | path _ => "Path"
  | consumes => "Consumes"
  | produces => "Produces"

theorem Marker.annotation?_text (marker : Marker) :
    Source.annotation? marker.text = some marker.name := by
  cases marker with
  | verb verb => cases verb <;> decide
  | path path =>
    rw [text, String.append_assoc]
    exact Source.annotation?_append "@Path(\"" "Path" "(\"" _
  | consumes => decide
  | produces => decide

/-- The name of the annotation of a parameter. -/
def ParameterPlace.markerName : ParameterPlace → String
  | path => "PathParam"
  | query => "QueryParam"

theorem Argument.annotation?_originOf_append (place : ParameterPlace) (parameter : Parameter)
    (rest : String) :
    Source.annotation? ((originOf place parameter).marker ++ rest) = some place.markerName := by
  unfold originOf
  cases place with
  | path =>
    simp only [Origin.marker, String.append_assoc]
    exact Source.annotation?_append "@PathParam(\"" "PathParam" "(\"" _
  | query =>
    simp only [Origin.marker, String.append_assoc]
    exact Source.annotation?_append "@QueryParam(\"" "QueryParam" "(\"" _

theorem Argument.annotation?_originOf (place : ParameterPlace) (parameter : Parameter) :
    Source.annotation? (originOf place parameter).marker = some place.markerName := by
  have h := annotation?_originOf_append place parameter ""
  rwa [String.append_empty] at h

namespace Method

variable {method : Method}

/-- The names of the annotations of a method and of its arguments, as the interface has them. -/
def annotationNames (method : Method) : List String :=
  (method.markers.map Marker.text ++ method.declared.arguments).filterMap Source.annotation?

/-- What an argument of a method is made for. -/
theorem arguments_cases {argument : Argument} (h : argument ∈ method.arguments) :
    (∃ place, ∃ parameter ∈ method.parameters,
        argument.origin = Argument.originOf place parameter ∧
          argument.type = parameter.javaType) ∨
      (∃ body, method.request = some body ∧ argument = Argument.ofBody body) ∨
      argument = Argument.language ∨
      method.isCollection = true ∧ argument = Argument.pagination := by
  rw [arguments, fixedArguments, List.mem_append, List.mem_append, List.mem_append] at h
  rcases h with h | (h | h) | h
  · obtain ⟨i, hi⟩ := List.mem_iff_getElem?.mp h
    obtain ⟨⟨place, parameter⟩, name, hplaced, -, rfl⟩ := List.getElem?_zipWith_eq_some.mp hi
    have hparameter := List.mem_map_of_mem (f := Prod.snd) (List.mem_of_getElem? hplaced)
    rw [map_snd_placedParameters] at hparameter
    exact .inl ⟨place, parameter, hparameter, rfl, rfl⟩
  · rw [Option.mem_toList, Option.map_eq_some_iff] at h
    obtain ⟨body, hbody, rfl⟩ := h
    exact .inr (.inl ⟨body, hbody, rfl⟩)
  · exact .inr (.inr (.inl (List.mem_singleton.mp h)))
  · split at h
    · next hcollection => exact .inr (.inr (.inr ⟨hcollection, List.mem_singleton.mp h⟩))
    · cases h

/-- The type and the name of an argument do not look like an annotation. -/
theorem annotation?_annotated {argument : Argument} (h : argument ∈ method.arguments) :
    Source.annotation? argument.annotated = Source.annotation? argument.origin.marker := by
  rcases arguments_cases h with
    ⟨place, parameter, -, horigin, -⟩ | ⟨body, -, rfl⟩ | rfl | ⟨-, rfl⟩
  · rw [Argument.annotated, horigin, Argument.annotation?_originOf_append,
      Argument.annotation?_originOf]
  · have hmodel : ∀ rest, Source.annotation? (Naming.modelClass body.model ++ rest) = none :=
      Source.annotation?_of_isName (Naming.modelClass_isName _) (Naming.modelClass_ne_empty _)
    have hnone : Source.annotation? "" = none := by decide
    unfold Argument.ofBody
    split <;> simp only [Argument.annotated, Argument.plain, Origin.marker, String.empty_append,
      String.append_assoc, hmodel, hnone]
  · decide
  · decide

theorem filterMap_arguments (method : Method) :
    method.declared.arguments.filterMap Source.annotation? =
      method.placedParameters.map (·.1.markerName) ++ ["Context"]
        ++ if method.isCollection then ["Context"] else [] := by
  have hmarkers : method.declared.arguments.filterMap Source.annotation? =
      method.annotations.filterMap Source.annotation? := by
    rw [← map_marker_arguments, declared, List.filterMap_map, List.filterMap_map]
    exact List.filterMap_congr fun argument hargument => annotation?_annotated hargument
  have hcontext : Source.annotation? "@Context " = some "Context" := by decide
  have hbody : Source.annotation? "" = none := by decide
  rw [hmarkers, annotations]
  cases method.request <;> cases method.isCollection <;>
    simp [List.filterMap_map, Argument.annotation?_originOf, hcontext, hbody]

theorem mem_markerNames_iff {name : String} :
    name ∈ method.placedParameters.map (·.1.markerName) ↔
      method.pathParameters ≠ [] ∧ name = "PathParam" ∨
        method.queryParameters ≠ [] ∧ name = "QueryParam" := by
  have hplace : ∀ (place : ParameterPlace) (parameters : List Parameter),
      name ∈ (parameters.map (place, ·)).map (·.1.markerName) ↔
        parameters ≠ [] ∧ name = place.markerName := by
    intro place parameters
    simp only [List.map_map, Function.comp_def, List.map_const', List.mem_replicate, Ne,
      List.length_eq_zero_iff]
  rw [placedParameters, List.map_append, List.mem_append, hplace, hplace]
  rfl

theorem mem_ownMarkers_iff {name : String} :
    name ∈ method.ownMarkers.map Marker.name ↔
      name = method.verb.name ∨ name = "Path" ∨ method.request.isSome ∧ name = "Consumes" ∨
        method.response.isSome ∧ name = "Produces" := by
  have hmap : method.ownMarkers.map Marker.name = [method.verb.name, "Path"]
      ++ (if method.request.isSome then ["Consumes"] else [])
      ++ if method.response.isSome then ["Produces"] else [] := by
    rw [ownMarkers, List.map_append, List.map_append]
    split <;> split <;> rfl
  simp [hmap]

theorem mem_webImports_iff {name : String} :
    name ∈ method.webImports.map (·.name) ↔
      name = method.verb.name ∨ method.pathParameters ≠ [] ∧ name = "PathParam" ∨
        method.queryParameters ≠ [] ∧ name = "QueryParam" ∨
        method.request.isSome ∧ name = "Consumes" ∨ method.response.isSome ∧ name = "Produces" ∨
        method.response.isNone ∧ name = "Response" := by
  have hnames : ∀ (p : Bool) (first second : List Import),
      (if p then first else second).map (·.name) =
        if p then first.map (·.name) else second.map (·.name) := by
    intro p first second
    cases p <;> rfl
  have hmap : method.webImports.map (·.name) = [method.verb.name]
      ++ (if method.pathParameters.isEmpty then [] else ["PathParam"])
      ++ (if method.queryParameters.isEmpty then [] else ["QueryParam"])
      ++ (if method.request.isSome then ["Consumes"] else [])
      ++ if method.response.isSome then ["Produces"] else ["Response"] := by
    simp only [webImports, List.map_append, hnames]
    rfl
  have hresponse : name ∈ (if method.response.isSome then ["Produces"] else ["Response"]) ↔
      method.response.isSome ∧ name = "Produces" ∨ method.response.isNone ∧ name = "Response" := by
    cases method.response <;> simp
  simp only [hmap, List.mem_append, List.mem_singleton, hresponse, List.mem_ite_nil_left,
    List.mem_ite_nil_right, List.isEmpty_iff, or_assoc]

theorem verb_name_ne_response (verb : Verb) : verb.name ≠ "Response" := by
  cases verb <;> decide

theorem response_mem_webImports_iff :
    "Response" ∈ method.webImports.map (·.name) ↔ method.response = none := by
  have hverb : ¬ "Response" = method.verb.name := (verb_name_ne_response method.verb).symm
  simp [mem_webImports_iff, hverb]

/-- The annotations of a method are those that it imports, besides the two of every interface. -/
theorem mem_annotationNames_iff {name : String} :
    name ∈ method.annotationNames ↔
      name = "Path" ∨ name = "Context" ∨
        name ∈ method.webImports.map (·.name) ∧ name ≠ "Response" := by
  have hmarkers : (method.markers.map Marker.text).filterMap Source.annotation? =
      method.markers.map Marker.name := by
    rw [List.filterMap_map, ← List.filterMap_eq_map]
    exact List.filterMap_congr fun marker _ => marker.annotation?_text
  have hown : name ∈ method.markers.map Marker.name ↔ name ∈ method.ownMarkers.map Marker.name := by
    simp only [List.mem_map, markers, List.mem_mergeSort]
  have hverb := verb_name_ne_response method.verb
  have hcontext : name ∈ (["Context"] ++ if method.isCollection then ["Context"] else []) ↔
      name = "Context" := by
    split <;> simp
  rw [annotationNames, List.filterMap_append, hmarkers, filterMap_arguments, List.append_assoc,
    List.mem_append, hown, List.mem_append, hcontext, mem_ownMarkers_iff, mem_markerNames_iff,
    mem_webImports_iff]
  -- both sides are now the same cases, each with its condition on the method
  grind

theorem mem_typeNames_iff {name : String} :
    name ∈ Source.typeNames method.returnType ↔
      method.response = none ∧ name = "Response" ∨
        method.isCollection = true ∧ name = "CollectionDTO" ∨
        ∃ body, method.response = some body ∧ name = Naming.modelClass body.model := by
  have hmodel : ∀ model, Source.typeNames (Naming.modelClass model) = [Naming.modelClass model] :=
    fun model =>
      Source.typeNames_of_isName (Naming.modelClass_isName model) (Naming.modelClass_ne_empty model)
  rw [returnType, isCollection]
  rcases method.response with _ | ⟨model, _ | _⟩
  · have hresponse : Source.typeNames "Response" = ["Response"] := by decide
    simp [hresponse]
  · simp [hmodel]
  · have hopen : Source.typeNames ("CollectionDTO<" ++ Naming.modelClass model ++ ">") =
        Source.typeNames "CollectionDTO" ++ Source.typeNames (Naming.modelClass model ++ ">") :=
      Source.typeNames_append (c := '<') (by simp [String.toList_append]) (by decide)
    have hclose : Source.typeNames (Naming.modelClass model ++ ">") =
        Source.typeNames (Naming.modelClass model) ++ Source.typeNames "" :=
      Source.typeNames_append (c := '>') (by simp [String.toList_append]) (by decide)
    have hcollection : Source.typeNames "CollectionDTO" = ["CollectionDTO"] := by decide
    have hempty : Source.typeNames "" = [] := by decide
    simp [hopen, hclose, hmodel, hcollection, hempty]

theorem returnType_eq_response_iff : method.returnType = "Response" ↔ method.response = none := by
  rw [returnType]
  rcases method.response with _ | ⟨model, _ | _⟩
  · exact iff_of_true rfl rfl
  · exact iff_of_false (Naming.ne_modelClass (by decide) model).symm (by simp)
  · refine iff_of_false (fun h => ?_) (by simp)
    have hchars := congrArg String.toList h
    simp [String.toList_append] at hchars

theorem exists_returnType_iff :
    (∃ type, method.returnType = "CollectionDTO<" ++ type ++ ">") ↔ method.isCollection = true := by
  have hbracket : ∀ {type name : String}, IsName name → name ≠ "CollectionDTO<" ++ type ++ ">" := by
    rintro type name hname rfl
    exact hname.not_mem (c := '<') (by decide) (by simp [String.toList_append])
  rw [returnType, isCollection]
  rcases method.response with _ | ⟨model, _ | _⟩
  · exact iff_of_false (fun ⟨_, h⟩ => hbracket (by decide) h) (by simp)
  · exact iff_of_false (fun ⟨_, h⟩ => hbracket (Naming.modelClass_isName model) h) (by simp)
  · exact iff_of_true ⟨_, rfl⟩ rfl

theorem exists_argument_iff
    (h : ∀ parameter ∈ method.parameters, parameter.javaType ≠ "Pagination") :
    (∃ argument ∈ method.arguments, argument.type = "Pagination") ↔ method.isCollection = true := by
  constructor
  · rintro ⟨argument, hargument, htype⟩
    rcases arguments_cases hargument with
      ⟨-, parameter, hparameter, -, heq⟩ | ⟨body, -, rfl⟩ | rfl | ⟨hcollection, -⟩
    · exact absurd (heq.symm.trans htype) (h parameter hparameter)
    · have helement : elementType (Argument.ofBody body).type = Naming.modelClass body.model := by
        unfold Argument.ofBody
        split
        · exact (elementType_brackets _).trans (elementType_modelClass _)
        · exact elementType_modelClass _
      have hpagination : elementType "Pagination" = "Pagination" := by decide
      rw [htype, hpagination] at helement
      exact absurd helement (Naming.ne_modelClass (by decide) _)
    · exact absurd htype (by decide)
    · exact hcollection
  · intro hcollection
    refine ⟨Argument.pagination, ?_, rfl⟩
    rw [arguments, fixedArguments, hcollection, if_pos rfl]
    simp

end Method

/-! ## Resources -/

namespace Import

theorem injective_on_web :
    ∀ i ∈ web, ∀ j ∈ web, i.name = j.name ∨ i.qualified = j.qualified → i = j := by
  decide

/-- Sorted imports of JAX-RS classes ascend. -/
theorem pairwise_sorted {imports : List Import} (h : ∀ i ∈ sorted imports, i ∈ web) :
    (sorted imports).Pairwise (·.qualified < ·.qualified) := by
  have hordered : (sorted imports).Pairwise fun a b =>
      decide (a.qualified ≤ b.qualified) = true := by
    apply List.pairwise_mergeSort
    · intro a b c hab hbc
      exact decide_eq_true (String.le_trans (of_decide_eq_true hab) (of_decide_eq_true hbc))
    · intro a b
      simpa using String.le_total a.qualified b.qualified
  refine (hordered.and (nodup_sorted imports)).imp_of_mem fun ha hb hab => ?_
  refine Std.lt_of_le_of_ne (of_decide_eq_true hab.1) fun heq => hab.2 ?_
  exact injective_on_web _ (h _ ha) _ (h _ hb) (.inr heq)

end Import

namespace Resource

variable {version : String} {resource : Resource}

/-- The annotation of the interface of a resource. -/
def marker (version : String) (resource : Resource) : Marker :=
  .path ("/v" ++ version ++ "/" ++ resource.name)

/-- The names of the annotations in the interface: its own, those of its methods and those of their
arguments. -/
def annotationNames (version : String) (resource : Resource) : List String :=
  (Source.annotation? (resource.marker version).text).toList
    ++ resource.methods.flatMap (·.annotationNames)

/-- The names of types that methods return. -/
def returnNames (resource : Resource) : List String :=
  resource.methods.flatMap fun method => Source.typeNames method.returnType

theorem mem_map_name_iff {name : String} :
    name ∈ resource.webImports.map (·.name) ↔
      name = "Path" ∨ name = "Context" ∨
        ∃ method ∈ resource.methods, name ∈ method.webImports.map (·.name) := by
  have hmem : name ∈ resource.webImports.map (·.name) ↔
      name ∈ (([⟨Import.webPackage, "Path"⟩, ⟨Import.webCorePackage, "Context"⟩] : List Import)
        ++ resource.methods.flatMap (·.webImports)).map (·.name) := by
    simp only [List.mem_map, webImports, Import.mem_sorted]
  rw [hmem, List.map_append, List.map_flatMap, List.mem_append, List.mem_flatMap]
  simp [or_assoc]

theorem mem_annotationNames_iff (hmethods : resource.methods ≠ []) {name : String} :
    name ∈ resource.annotationNames version ↔
      name = "Path" ∨ name = "Context" ∨
        (∃ method ∈ resource.methods, name ∈ method.webImports.map (·.name)) ∧
          name ≠ "Response" := by
  obtain ⟨first, hfirst⟩ := List.exists_mem_of_ne_nil _ hmethods
  have hmethod : (∃ method ∈ resource.methods, name ∈ method.annotationNames) ↔
      ∃ method ∈ resource.methods, name = "Path" ∨ name = "Context" ∨
        name ∈ method.webImports.map (·.name) ∧ name ≠ "Response" :=
    exists_congr fun _ => and_congr_right fun _ => Method.mem_annotationNames_iff
  rw [annotationNames, Marker.annotation?_text, List.mem_append, List.mem_flatMap, hmethod]
  constructor
  · rintro (hname | ⟨method, hmem, hname | hname | ⟨hname, hne⟩⟩)
    · exact .inl (by simpa [marker, Marker.name] using hname)
    · exact .inl hname
    · exact .inr (.inl hname)
    · exact .inr (.inr ⟨⟨method, hmem, hname⟩, hne⟩)
  · rintro (hname | hname | ⟨⟨method, hmem, hname⟩, hne⟩)
    · exact .inl (by simpa [marker, Marker.name] using hname)
    · exact .inr ⟨first, hfirst, .inr (.inl hname)⟩
    · exact .inr ⟨method, hmem, .inr (.inr ⟨hname, hne⟩)⟩

/-- Of the JAX-RS classes, methods return that of responses only. -/
theorem mem_returnNames_iff {i : Import} (h : i ∈ Import.web) :
    i.name ∈ resource.returnNames ↔
      i.name = "Response" ∧ ∃ method ∈ resource.methods, method.response = none := by
  -- the other names in return types are called like models
  have hother : ∀ i ∈ Import.web, i.name ≠ "CollectionDTO" ∧ ¬ "DTO".toList <:+ i.name.toList := by
    decide
  obtain ⟨hcollection, hmodel⟩ := hother i h
  have hmodel : ¬ ∃ model, i.name = Naming.modelClass model :=
    fun ⟨model, hname⟩ => Naming.ne_modelClass hmodel model hname
  rw [returnNames, List.mem_flatMap]
  constructor
  · rintro ⟨method, hmethod, hname⟩
    rcases Method.mem_typeNames_iff.mp hname with ⟨hnone, hname⟩ | ⟨-, hname⟩ | ⟨body, -, hname⟩
    · exact ⟨hname, method, hmethod, hnone⟩
    · exact absurd hname hcollection
    · exact absurd ⟨body.model, hname⟩ hmodel
  · rintro ⟨hname, method, hmethod, hnone⟩
    exact ⟨method, hmethod, Method.mem_typeNames_iff.mpr (.inl ⟨hnone, hname⟩)⟩

/-- The JAX-RS classes that a resource imports are those whose names stand in its interface. -/
theorem mem_webImports_iff (hmethods : resource.methods ≠ []) {i : Import} :
    i ∈ resource.webImports ↔
      i ∈ Import.web ∧ i.name ∈ resource.annotationNames version ++ resource.returnNames := by
  have hname : i ∈ resource.webImports ↔
      i ∈ Import.web ∧ i.name ∈ resource.webImports.map (·.name) := by
    refine ⟨fun hi => ⟨resource.webImports_subset i hi, List.mem_map_of_mem hi⟩, ?_⟩
    rintro ⟨hi, hmem⟩
    obtain ⟨j, hj, hname⟩ := List.mem_map.mp hmem
    exact Import.injective_on_web j (resource.webImports_subset j hj) i hi (.inl hname) ▸ hj
  rw [hname]
  refine and_congr_right fun hi => ?_
  rw [List.mem_append, mem_annotationNames_iff hmethods, mem_returnNames_iff hi, mem_map_name_iff]
  by_cases hresponse : i.name = "Response"
  · simp [hresponse, Method.response_mem_webImports_iff]
  · simp [hresponse]

end Resource

end RestModule
