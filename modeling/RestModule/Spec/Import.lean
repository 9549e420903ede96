import RestModule.Document.Reading
import RestModule.Spec.Operation

/-!
# Importing a description

A definition made from the text of an API description. Components come first, so that every reference
of a path or property can be resolved; operations are grouped by resource, in order of first mention,
and their methods get names that are distinct within it.
-/

namespace RestModule

/-- The resource that operations of one name make. -/
def Resource.ofOperations (name : String) (operations : List Operation) : Resource :=
  let methods := operations.map (·.method)
  let names := Naming.distinctBy id [] (methods.map (·.name))
  { name
    methods := methods.zipWith (fun method name => { method with name }) names
    models := addNames [] (operations.flatMap (·.models)) }

/-- The resources of operations, in order of first mention. -/
def Resource.group (operations : List Operation) : List Resource :=
  (addNames [] (operations.map (·.resource))).map fun name =>
    Resource.ofOperations name (operations.filter (·.resource == name))

namespace Definition

/-- The version of a description without one. -/
def defaultVersion : String := "1.0"

/-- The version that a description states, as a text. -/
def versionOf (root : List (String × Document)) : String :=
  match (root.lookup "info").bind (·.get? "version") with
  | some (.text version) => version
  | some (.int version) => toString version
  | some (.float version) => Decimal.numberText version
  | _ => defaultVersion

/-- The operations among the entries of a description. -/
def operationsOf (declarations : Declarations) (root : List (String × Document)) :
    Except Error (List Operation) :=
  match root.lookup "paths" with
  | none => .ok []
  | some paths => do
    let entries ← paths.entriesAt "paths"
    Operation.ofPaths declarations.typeMap declarations.parameters entries

/-- The definition that a document states. -/
def ofDocument (document : Document) : Except Error Definition := do
  let root ← document.entriesAt "document"
  let declarations ← Declarations.ofEntries root
  let components ← declarations.components
  let operations ← operationsOf declarations root
  .ok { version := versionOf root, resources := Resource.group operations, components }

/-- The definition that the text of a description states. -/
def ofText (text : String) : Except Error Definition :=
  (Document.parse text).bind ofDocument

end Definition

/-! ## Renamed methods -/

/-- A method whose name an earlier method of its resource has, and the name it gets instead. -/
structure Renaming where
  method : String
  renamed : String
  deriving DecidableEq

namespace Renaming

/-- The renamings among methods, each given by its resource and the name it would have alone.
`seen` has the resources and names of the methods before. -/
def among (seen : List (String × String)) : List (String × String) → List Renaming
  | [] => []
  | (resource, name) :: rest =>
    let taken := (seen.filter (·.1 == resource)).map (·.2)
    let chosen := Naming.firstFree taken name
    let more := among ((resource, chosen) :: seen) rest
    if chosen == name then more else ⟨name, chosen⟩ :: more

/-- The methods of a path item that are named before reading stops, and whether it goes on. -/
def namedInItem (map : TypeMap) (shared : List (String × RawParameter)) (item : PathItem) :
    List (Verb × String × Document) → List (String × String) × Bool
  | [] => ([], true)
  | (verb, key, document) :: rest =>
    match document.entries? with
    | none => ([], false)
    | some entries =>
      let named := (item.resource, Operation.methodName item.resource verb entries)
      match Operation.ofDocument map shared item verb key document with
      | .error _ => ([named], false)
      | .ok _ =>
        let (more, goesOn) := namedInItem map shared item rest
        (named :: more, goesOn)

/-- The methods that are named before reading stops. -/
def named (map : TypeMap) (shared : List (String × RawParameter)) :
    List (String × Document) → List (String × String)
  | [] => []
  | (path, document) :: rest =>
    match Operation.itemAt shared path document with
    | .error _ => []
    | .ok (item, entries) =>
      match namedInItem map shared item (Operation.verbEntries entries) with
      | (names, true) => names ++ named map shared rest
      | (names, false) => names

/-- The renamings that importing a document makes before it ends or stops. -/
def ofDocument (document : Document) : List Renaming :=
  match document.entries? with
  | none => []
  | some root =>
    match Declarations.ofEntries root with
    | .error _ => []
    | .ok declarations =>
      match declarations.components, (root.lookup "paths").bind Document.entries? with
      | .ok _, some paths =>
        among [] (named declarations.typeMap declarations.parameters paths)
      | _, _ => []

/-- The renamings that importing a text makes before it ends or stops. -/
def ofText (text : String) : List Renaming :=
  match Document.parse text with
  | .ok document => ofDocument document
  | .error _ => []

end Renaming

end RestModule
