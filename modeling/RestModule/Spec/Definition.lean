import RestModule.Spec.SchemaType

/-!
# Definitions

An API description once it has been imported: every type has its Java type and every reference is
resolved.
-/

namespace RestModule

/-- A method of HTTP. -/
inductive Verb where
  | get
  | post
  | put
  | delete
  | patch
  | head
  | options
  deriving DecidableEq

namespace Verb

/-- Every verb. -/
def all : List Verb := [get, post, put, delete, patch, head, options]

/-- The verb as a key of a path item, and as the beginning of a method name. -/
def key : Verb → String
  | get => "get"
  | post => "post"
  | put => "put"
  | delete => "delete"
  | patch => "patch"
  | head => "head"
  | options => "options"

/-- The verb as an annotation. -/
def name : Verb → String
  | get => "GET"
  | post => "POST"
  | put => "PUT"
  | delete => "DELETE"
  | patch => "PATCH"
  | head => "HEAD"
  | options => "OPTIONS"

end Verb

/-- Where a parameter is passed. -/
inductive ParameterPlace where
  | path
  | query
  deriving DecidableEq

/-- The name of a place. -/
def ParameterPlace.name : ParameterPlace → String
  | path => "Path"
  | query => "Query"

/-- A request or response body that is a component schema or an array of one. -/
structure Body where
  model : String
  collection : Bool
  deriving DecidableEq

/-- A parameter of a method. -/
structure Parameter where
  name : String
  place : ParameterPlace
  required : Bool
  type : SchemaType
  javaType : String

/-- An operation of a resource. -/
structure Method where
  name : String
  verb : Verb
  /-- The path below the resource's own segment, with a slash in front. -/
  relativePath : String
  pathParameters : List Parameter
  queryParameters : List Parameter
  request : Option Body
  response : Option Body

/-- Whether a method returns an array of a model. -/
def Method.isCollection (method : Method) : Bool :=
  method.response.any (·.collection)

/-- The operations of all paths that share their first segment. -/
structure Resource where
  name : String
  methods : List Method
  /-- The models that the methods use, each once, in order of first use. -/
  models : List String

/-- A property of a component. -/
structure Property where
  name : String
  type : SchemaType
  javaType : String

/-- A named record of the description. -/
structure Component where
  name : String
  /-- Whether the component is a shared parameter, for which no model is generated. -/
  isParameter : Bool
  properties : List Property

/-- An imported description. -/
structure Definition where
  version : String
  resources : List Resource
  components : List Component

namespace Definition

/-- The component of a name. -/
def component? (definition : Definition) (name : String) : Option Component :=
  definition.components.find? (·.name == name)

/-- The components for which models are generated. -/
def models (definition : Definition) : List Component :=
  definition.components.filter (!·.isParameter)

end Definition

end RestModule
