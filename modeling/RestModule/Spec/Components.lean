import RestModule.Spec.Schema
import RestModule.Spec.TypeMap

/-!
# Reading components

The schemas and shared parameters that an API description declares, and the components they become.
-/

namespace RestModule

/-- The declared schemas, each with the types of its properties, and the shared parameters. -/
structure Declarations where
  schemas : List (String × List (String × SchemaType))
  parameters : List (String × RawParameter)

namespace Declarations

/-- The properties that a schema declares, with their types. -/
def propertiesOf (location : String) (schema : Document) :
    Except Error (List (String × SchemaType)) := do
  let entries ← schema.entriesAt location
  match entries.lookup "properties" with
  | none => .ok []
  | some properties =>
    let location := location ++ ".properties"
    let properties ← properties.entriesAt location
    properties.mapM fun (name, document) =>
      (SchemaType.ofDocument (location ++ "." ++ name) document).map (name, ·)

/-- The schemas that the components declare. -/
def schemasOf (components : List (String × Document)) :
    Except Error (List (String × List (String × SchemaType))) :=
  match components.lookup "schemas" with
  | none => .ok []
  | some schemas => do
    let entries ← schemas.entriesAt "components.schemas"
    entries.mapM fun (name, document) =>
      (propertiesOf ("components.schemas." ++ name) document).map (name, ·)

/-- The shared parameters that the components declare; none may be named like a schema. -/
def parametersOf (schemas : List String) (components : List (String × Document)) :
    Except Error (List (String × RawParameter)) :=
  match components.lookup "parameters" with
  | none => .ok []
  | some parameters => do
    let entries ← parameters.entriesAt "components.parameters"
    entries.mapM fun (name, document) =>
      let location := "components.parameters." ++ name
      if name ∈ schemas then .error (.malformed location .namedLikeSchema)
      else (RawParameter.ofDocument location document).map (name, ·)

/-- What the entries of a description declare under `components`. -/
def ofEntries (root : List (String × Document)) : Except Error Declarations :=
  match root.lookup "components" with
  | none => .ok ⟨[], []⟩
  | some components => do
    let entries ← components.entriesAt "components"
    let schemas ← schemasOf entries
    let parameters ← parametersOf (schemas.map (·.1)) entries
    .ok ⟨schemas, parameters⟩

/-- The type map that knows the declared schemas. -/
def typeMap (declarations : Declarations) : TypeMap :=
  ⟨declarations.schemas.map (·.1)⟩

/-- A property with its Java type. -/
def property (map : TypeMap) (location name : String) (type : SchemaType) :
    Except Error Property :=
  (map.javaType location type).map fun javaType => { name, type, javaType }

/-- The component of a schema. -/
def schemaComponent (map : TypeMap) (name : String) (properties : List (String × SchemaType)) :
    Except Error Component :=
  (properties.mapM fun (key, type) =>
    property map ("component " ++ name ++ " property " ++ key) key type).map fun properties =>
      { name, isParameter := false, properties }

/-- The component of a shared parameter: a record of the parameter alone. -/
def parameterComponent (map : TypeMap) (name : String) (raw : RawParameter) :
    Except Error Component :=
  (property map ("parameter component " ++ name) raw.name raw.type).map fun property =>
    { name, isParameter := true, properties := [property] }

/-- The components of the schemas, then those of the shared parameters. -/
def components (declarations : Declarations) : Except Error (List Component) := do
  let map := declarations.typeMap
  let schemas ← declarations.schemas.mapM fun (name, properties) =>
    schemaComponent map name properties
  let parameters ← declarations.parameters.mapM fun (name, raw) => parameterComponent map name raw
  .ok (schemas ++ parameters)

end Declarations

end RestModule
