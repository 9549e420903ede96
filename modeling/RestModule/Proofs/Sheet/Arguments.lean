import RestModule.Proofs.Sheet.Used
import RestModule.Proofs.Source.Identifiers

/-!
# The arguments of a method

A method takes its path parameters, its query parameters, the body of the request and what the
framework provides, in this order and each once. Whatever the parameters are called, no two arguments
have one name (`Method.arguments_listed`). -/

namespace RestModule

open List (Forall₂)

/-! ## Names -/

/-- A name is the identifier of a parameter, or one of its variants. -/
def Parameter.IsNamed (parameter : Parameter) (name : String) : Prop :=
  ∃ k, name = Naming.variant (Naming.identifier parameter.name) k

namespace Method

/-- The names of the arguments after the parameters are apart: that of the body has a capital
letter. -/
theorem nodup_fixedNames (method : Method) : (method.fixedArguments.map (·.name)).Nodup := by
  set context := [Argument.language] ++ if method.isCollection then [Argument.pagination] else []
    with hcontext
  have hnodup : (context.map (·.name)).Nodup := by
    rw [hcontext]
    split <;> decide
  have hlower : ∀ name ∈ context.map (·.name), name.toList.any Char.isUpper = false := by
    rw [hcontext]
    split <;> decide
  rw [fixedArguments, List.append_assoc, ← hcontext]
  cases method.request with
  | none => exact hnodup
  | some body =>
    obtain ⟨c, hc, hupper⟩ := Argument.ofBody_hasUpper body
    refine List.nodup_cons.mpr ⟨fun hmem => ?_, hnodup⟩
    exact List.any_eq_false.mp (hlower _ hmem) c hc hupper

theorem isNamed_parameterNames (method : Method) :
    Forall₂ Parameter.IsNamed method.parameters method.parameterNames := by
  have hvariants := Naming.variants_distinctBy id (method.fixedArguments.map (·.name))
    (method.parameters.map fun parameter => Naming.identifier parameter.name)
  rwa [List.forall₂_map_left_iff] at hvariants

theorem map_name_arguments (method : Method) : method.arguments.map (·.name) =
    method.parameterNames ++ method.fixedArguments.map (·.name) := by
  have hlength : method.parameterNames.length = method.placedParameters.length := by
    rw [length_parameterNames, ← map_snd_placedParameters, List.length_map]
  rw [arguments, List.map_append, parameterArguments,
    Naming.map_zipWith_names (fun _ _ => rfl) hlength]

theorem nodup_names (method : Method) : (method.arguments.map (·.name)).Nodup := by
  have hnodup := Naming.nodup_distinctBy Naming.tellsVariants_id method.nodup_fixedNames
    (method.parameters.map fun parameter => Naming.identifier parameter.name)
  rw [List.map_id] at hnodup
  rw [map_name_arguments]
  exact List.perm_append_comm.nodup_iff.mp hnodup

/-! ## Signatures -/

/-- The arguments of a signature after the parameters: the annotation, the type and the name of
each. -/
def fixedSignature (method : Method) : List (String × String × String) :=
  (match method.request with
    | none => []
    | some ⟨model, false⟩ =>
      [("", Naming.modelClass model, Naming.decapitalize (Naming.modelClass model))]
    | some ⟨model, true⟩ =>
      [("", Naming.modelClass model ++ "[]", Naming.decapitalize (Naming.modelClass model) ++ "s")])
  ++ [("@Context ", "Language", "language")]
  ++ match method.response with
    | some ⟨_, true⟩ => [("@Context ", "Pagination", "pagination")]
    | _ => []

/-- The arguments of the signature of a method whose parameters are called `pathNames` and
`queryNames`. -/
def signature (method : Method) (pathNames queryNames : List String) :
    List (String × String × String) :=
  List.zipWith (fun parameter name =>
      ("@PathParam(\"" ++ parameter.name ++ "\") ", parameter.javaType, name))
    method.pathParameters pathNames
  ++ List.zipWith (fun parameter name =>
      ("@QueryParam(\"" ++ parameter.name ++ "\") ", parameter.javaType, name))
    method.queryParameters queryNames
  ++ method.fixedSignature

theorem map_fixedArguments (method : Method) :
    method.fixedArguments.map (fun argument =>
        (argument.origin.marker, argument.type, argument.name)) = method.fixedSignature := by
  rw [fixedArguments, fixedSignature, isCollection, List.map_append, List.map_append]
  congr 1
  · rcases method.request with _ | ⟨model, _ | _⟩ <;> rfl
  · rcases method.response with _ | ⟨model, _ | _⟩ <;> rfl

theorem map_arguments (method : Method) :
    method.arguments.map (fun argument => (argument.origin.marker, argument.type, argument.name)) =
      method.signature (method.parameterNames.take method.pathParameters.length)
        (method.parameterNames.drop method.pathParameters.length) := by
  have hlength : (method.pathParameters.map (ParameterPlace.path, ·)).length =
      (method.parameterNames.take method.pathParameters.length).length := by
    rw [List.length_map, List.length_take, length_parameterNames, parameters, List.length_append]
    omega
  have hmarkers (parameter : Parameter) :
      (Argument.originOf .path parameter).marker = "@PathParam(\"" ++ parameter.name ++ "\") " ∧
        (Argument.originOf .query parameter).marker =
          "@QueryParam(\"" ++ parameter.name ++ "\") " := ⟨rfl, rfl⟩
  rw [arguments, List.map_append, map_fixedArguments, parameterArguments, placedParameters,
    ← List.take_append_drop method.pathParameters.length method.parameterNames,
    List.zipWith_append hlength, List.map_append, List.map_zipWith, List.map_zipWith,
    List.zipWith_map_left, List.zipWith_map_left, List.take_append_drop, signature]
  simp only [hmarkers]

/-- The arguments of a method are those of its signature, under names that are apart. -/
structure Lists (method : Method) (pathNames queryNames : List String) : Prop where
  path : Forall₂ Parameter.IsNamed method.pathParameters pathNames
  query : Forall₂ Parameter.IsNamed method.queryParameters queryNames
  apart : ((method.signature pathNames queryNames).map fun (_, _, name) => name).Nodup
  implemented : method.implemented.arguments =
    (method.signature pathNames queryNames).map fun (_, type, name) => type ++ " " ++ name
  declared : method.declared.arguments =
    (method.signature pathNames queryNames).map fun (marker, type, name) =>
      marker ++ (type ++ " " ++ name)

/-- The arguments of a method never clash. -/
theorem arguments_listed (method : Method) :
    ∃ pathNames queryNames, method.Lists pathNames queryNames := by
  have hnamed := method.isNamed_parameterNames
  have hpath := List.forall₂_take method.pathParameters.length hnamed
  have hquery := List.forall₂_drop method.pathParameters.length hnamed
  rw [parameters, List.take_left] at hpath
  rw [parameters, List.drop_left] at hquery
  refine ⟨_, _, hpath, hquery, ?apart, ?implemented, ?declared⟩
  case apart =>
    rw [← map_arguments, List.map_map]
    exact method.nodup_names
  case implemented =>
    rw [← map_arguments, List.map_map]
    rfl
  case declared =>
    rw [← map_arguments, List.map_map]
    rfl

/-- Parameters that are called like what the framework provides, like a variant of that, and like the
body. -/
example :
    let parameter (place : ParameterPlace) (name : String) : Parameter :=
      ⟨name, place, true, .mk "string" none none, "String"⟩
    let method : Method := ⟨"find", .get, "/",
      [parameter .path "language", parameter .path "language_1"],
      [parameter .query "language", parameter .query "order-DTO"],
      some ⟨"Order", false⟩, some ⟨"Order", true⟩⟩
    method.arguments.map (·.name) =
      ["language_1", "language_1_1", "language_2", "orderDTO_1", "orderDTO", "language",
        "pagination"] := by
  decide +kernel

end Method

end RestModule
