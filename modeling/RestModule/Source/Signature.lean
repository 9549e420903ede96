import RestModule.Naming
import RestModule.Spec.Definition

/-!
# Signatures of generated methods

The annotations, return type and arguments of a method. Interface and implementation share them, so that
the one implements what the other declares; only the interface shows where an argument comes from.
-/

namespace RestModule

/-- Where the value of an argument comes from. -/
inductive Origin where
  | pathParameter (name : String)
  | queryParameter (name : String)
  | body
  | context

/-- The annotation of an argument, with the blank after it. -/
def Origin.marker : Origin → String
  | pathParameter name => "@PathParam(\"" ++ name ++ "\") "
  | queryParameter name => "@QueryParam(\"" ++ name ++ "\") "
  | body => ""
  | context => "@Context "

/-- An argument of a generated method. -/
structure Argument where
  origin : Origin
  type : String
  name : String

namespace Argument

/-- The argument as an implementation declares it. -/
def plain (argument : Argument) : String :=
  argument.type ++ " " ++ argument.name

/-- The argument as an interface declares it. -/
def annotated (argument : Argument) : String :=
  argument.origin.marker ++ argument.plain

/-- The language of the request. -/
def language : Argument := ⟨.context, "Language", "language"⟩

/-- The wanted part of a collection. -/
def pagination : Argument := ⟨.context, "Pagination", "pagination"⟩

/-- The argument of a request body. -/
def ofBody (body : Body) : Argument :=
  let type := Naming.modelClass body.model
  let name := Naming.decapitalize type
  if body.collection then ⟨.body, type ++ "[]", name ++ "s"⟩ else ⟨.body, type, name⟩

/-- Where the value of a parameter comes from that is listed for a place. -/
def originOf (place : ParameterPlace) (parameter : Parameter) : Origin :=
  match place with
  | .path => .pathParameter parameter.name
  | .query => .queryParameter parameter.name

end Argument

namespace Method

/-- The parameters of a method in the order of its arguments. -/
def parameters (method : Method) : List Parameter :=
  method.pathParameters ++ method.queryParameters

/-- The parameters of a method, each with the place that it is listed for. -/
def placedParameters (method : Method) : List (ParameterPlace × Parameter) :=
  method.pathParameters.map (.path, ·) ++ method.queryParameters.map (.query, ·)

/-- The arguments after the parameters: the request body, the language, and for a collection the
pagination. -/
def fixedArguments (method : Method) : List Argument :=
  (method.request.map Argument.ofBody).toList ++ [Argument.language]
    ++ if method.isCollection then [Argument.pagination] else []

/-- The names of the parameters: identifiers apart from each other and from the names of the
fixed arguments. -/
def parameterNames (method : Method) : List String :=
  Naming.distinctBy id (method.fixedArguments.map (·.name))
    (method.parameters.map fun parameter => Naming.identifier parameter.name)

/-- The arguments of the parameters. -/
def parameterArguments (method : Method) : List Argument :=
  method.placedParameters.zipWith
    (fun (place, parameter) name => ⟨Argument.originOf place parameter, parameter.javaType, name⟩)
    method.parameterNames

/-- The arguments of a method. -/
def arguments (method : Method) : List Argument :=
  method.parameterArguments ++ method.fixedArguments

/-- The return type of a method. -/
def returnType (method : Method) : String :=
  match method.response with
  | some ⟨model, true⟩ => "CollectionDTO<" ++ Naming.modelClass model ++ ">"
  | some ⟨model, false⟩ => Naming.modelClass model
  | none => "Response"

end Method

/-- An annotation of an interface method. -/
inductive Marker where
  | verb (verb : Verb)
  | path (path : String)
  | consumes
  | produces

namespace Marker

/-- The media range that resources take and give. -/
def mediaRange : String := "application/*"

/-- The text of an annotation. -/
def text : Marker → String
  | verb v => "@" ++ v.name
  | path value => "@Path(\"" ++ value ++ "\")"
  | consumes => "@Consumes(\"" ++ mediaRange ++ "\")"
  | produces => "@Produces(\"" ++ mediaRange ++ "\")"

/-- The text by which annotations are sorted. -/
def sortKey (marker : Marker) : String :=
  Text.lowerText marker.text

end Marker

namespace Method

/-- The annotations of a method: its verb, its path, and the media range of each body it has. -/
def ownMarkers (method : Method) : List Marker :=
  [.verb method.verb, .path method.relativePath]
    ++ (if method.request.isSome then [.consumes] else [])
    ++ if method.response.isSome then [.produces] else []

/-- The annotations of a method, sorted without regard to case. -/
def markers (method : Method) : List Marker :=
  method.ownMarkers.mergeSort fun a b => decide (a.sortKey ≤ b.sortKey)

end Method

end RestModule
