import RestModule.Spec.Components
import RestModule.Spec.Reachable
import RestModule.Text.Case

/-!
# Reading operations

The operations of an API description: the entries of path items whose key is a verb. An operation of a
resource has the parameters of its path item, except those it declares itself, and the models of its
parameters and bodies.
-/

namespace RestModule

/-- The verb of a key, whatever the case of its ASCII letters. -/
def Verb.ofKey? (key : String) : Option Verb :=
  Verb.all.find? (·.key == Text.asciiLower key)

/-- An operation whose method still has the name it would have alone. -/
structure Operation where
  resource : String
  method : Method
  /-- The models that the operation mentions, in order. -/
  models : List String

/-- A path item: where it stands, what its path says, and its parameters. -/
structure PathItem where
  location : String
  resource : String
  relativePath : String
  parameters : List RawParameter

namespace TypeMap

/-- The schema that a type leads to, looking through arrays; it must be declared. -/
def referenced? (map : TypeMap) (location : String) : SchemaType → Except Error (Option String)
  | .mk token _ items =>
    if SchemaType.isReferenceToken token then (map.resolve token location).map some
    else
      match items with
      | some items => map.referenced? location items
      | none => .ok none

/-- A body that refers to a schema. -/
def bodyOf (map : TypeMap) (location reference : String) (collection : Bool) :
    Except Error (Option Body) :=
  (map.resolve reference location).map fun model => some { model, collection }

/-- The body of a schema: a reference, or an array of references; any other schema binds none. -/
def schemaBody (map : TypeMap) (location : String) (schema : Document) :
    Except Error (Option Body) :=
  match schema.textAt? "$ref" with
  | some reference => map.bodyOf location reference false
  | none =>
    match schema.textAt? "type", (schema.get? "items").bind (·.textAt? "$ref") with
    | some "array", some reference => map.bodyOf location reference true
    | _, _ => .ok none

end TypeMap

namespace Operation

/-- The resource of a path, named after its first segment, and the path below it. -/
def splitPath? (path : String) : Option (String × String) :=
  let path := path.toList.dropWhile (· == '/')
  let (first, rest) := (Text.cutAt? '/' path).getD (path, [])
  let name := Naming.camelCase (.ofList (Text.dropEnds (fun c => c == '\x7b' || c == '\x7d') first))
  if name.isEmpty then none else some (name, .ofList ('/' :: rest))

/-- A parameter of a list: a reference to a shared one, or a declaration. -/
def listedParameter (shared : List (String × RawParameter)) (location : String)
    (document : Document) : Except Error RawParameter := do
  let entries ← document.entriesAt location
  match Document.textIn? "$ref" entries with
  | some reference =>
    match (Text.after? parameterReference reference).bind fun name => shared.lookup name with
    | some raw => .ok raw
    | none => .error (.unresolved reference location)
  | none => RawParameter.ofEntries location entries

/-- The parameters of a list from an index on. -/
def listedParameters (shared : List (String × RawParameter)) (location : String) (index : Nat) :
    List Document → Except Error (List RawParameter)
  | [] => .ok []
  | item :: rest => do
    let first ← listedParameter shared (location ++ "[" ++ Nat.repr index ++ "]") item
    let more ← listedParameters shared location (index + 1) rest
    .ok (first :: more)

/-- The parameters among the entries of a path item or operation. -/
def parametersOf (shared : List (String × RawParameter)) (location : String)
    (entries : List (String × Document)) : Except Error (List RawParameter) :=
  let location := location ++ ".parameters"
  match entries.lookup "parameters" with
  | none => .ok []
  | some (.list items) => listedParameters shared location 0 items
  | some _ => .error (.malformed location .parametersNotList)

/-- The parameters of a path item that an operation does not declare itself, then its own. -/
def mergeParameters (inherited own : List RawParameter) : List RawParameter :=
  inherited.filter (fun p => !own.any fun o => o.name == p.name && o.place == p.place) ++ own

/-- A parameter passed in a place, and the model it mentions. A path parameter is always
required. -/
def placedParameter (map : TypeMap) (location : String) (raw : RawParameter)
    (place : ParameterPlace) : Except Error (Parameter × Option String) := do
  let location := location ++ " parameter " ++ raw.name
  let javaType ← map.javaType location raw.type
  let model ← map.referenced? location raw.type
  .ok ({ name := raw.name
         place
         required := raw.required || place == .path
         type := raw.type
         javaType }, model)

/-- The parameters that are passed in the path or the query, with the models they mention. -/
def placedParameters (map : TypeMap) (location : String) :
    List RawParameter → Except Error (List (Parameter × Option String))
  | [] => .ok []
  | raw :: rest =>
    match raw.place with
    | none => placedParameters map location rest
    | some place => do
      let first ← placedParameter map location raw place
      let more ← placedParameters map location rest
      .ok (first :: more)

/-- The schema of the first media type of a content mapping. -/
def contentSchema? (entries : List (String × Document)) : Option Document :=
  match (entries.lookup "content").bind Document.entries? with
  | some ((_, media) :: _) => media.get? "schema"
  | _ => none

/-- The body that a request or response declares. -/
def bodyAt (map : TypeMap) (location : String) (document : Document) :
    Except Error (Option Body) := do
  let entries ← document.entriesAt location
  match Document.textIn? "$ref" entries with
  | some reference => .error (.unresolved reference location)
  | none =>
    match contentSchema? entries with
    | some schema => map.schemaBody location schema
    | none => .ok none

/-- The request body among the entries of an operation. -/
def requestOf (map : TypeMap) (location : String) (entries : List (String × Document)) :
    Except Error (Option Body) :=
  match entries.lookup "requestBody" with
  | some body => bodyAt map (location ++ ".requestBody") body
  | none => .ok none

/-- Whether a response code says that the request succeeded. -/
def isSuccess (code : String) : Bool :=
  code.toList.head? == some '2'

/-- The body of the first successful response among the entries of an operation. -/
def responseOf (map : TypeMap) (location : String) (entries : List (String × Document)) :
    Except Error (Option Body) :=
  match entries.lookup "responses" with
  | none => .ok none
  | some responses => do
    let location := location ++ ".responses"
    let responses ← responses.entriesAt location
    match responses.find? fun (code, _) => isSuccess code with
    | some (code, response) => bodyAt map (location ++ "." ++ code) response
    | none => .ok none

/-- The name of an operation's method: from its own identifier, or from its verb and resource. -/
def methodName (resource : String) (verb : Verb) (entries : List (String × Document)) : String :=
  match Document.textIn? "operationId" entries with
  | none | some "" => verb.key ++ Naming.capitalize resource
  | some id => Naming.identifier id

/-- The operation that the entries of a mapping declare. -/
def ofEntries (map : TypeMap) (shared : List (String × RawParameter)) (item : PathItem)
    (verb : Verb) (location : String) (entries : List (String × Document)) :
    Except Error Operation := do
  let own ← parametersOf shared location entries
  let placed ← placedParameters map location (mergeParameters item.parameters own)
  let request ← requestOf map location entries
  let response ← responseOf map location entries
  let parameters := placed.map (·.1)
  .ok { resource := item.resource
        method :=
          { name := methodName item.resource verb entries
            verb
            relativePath := item.relativePath
            pathParameters := parameters.filter (·.place == .path)
            queryParameters := parameters.filter (·.place == .query)
            request
            response }
        models := placed.filterMap (·.2) ++ (request.map (·.model)).toList
          ++ (response.map (·.model)).toList }

/-- The location of an operation. -/
def locationIn (item : PathItem) (key : String) : String :=
  item.location ++ "." ++ key

/-- The operation that a document under a verb key of a path item declares. -/
def ofDocument (map : TypeMap) (shared : List (String × RawParameter)) (item : PathItem)
    (verb : Verb) (key : String) (document : Document) : Except Error Operation := do
  let entries ← document.entriesAt (locationIn item key)
  ofEntries map shared item verb (locationIn item key) entries

/-- The entries of a path item whose key is a verb. -/
def verbEntries (entries : List (String × Document)) : List (Verb × String × Document) :=
  entries.filterMap fun (key, document) => (Verb.ofKey? key).map (·, key, document)

/-- The path item of a path and its entries. -/
def itemAt (shared : List (String × RawParameter)) (path : String) (document : Document) :
    Except Error (PathItem × List (String × Document)) := do
  let location := "paths." ++ path
  let entries ← document.entriesAt location
  match splitPath? path with
  | none => .error (.malformed location .noResourceName)
  | some (resource, relativePath) =>
    let parameters ← parametersOf shared location entries
    .ok ({ location, resource, relativePath, parameters }, entries)

/-- The operations of a path item, in order. -/
def ofItem (map : TypeMap) (shared : List (String × RawParameter)) (path : String)
    (document : Document) : Except Error (List Operation) := do
  let (item, entries) ← itemAt shared path document
  (verbEntries entries).mapM fun (verb, key, document) => ofDocument map shared item verb key document

/-- The operations of all path items, in order. -/
def ofPaths (map : TypeMap) (shared : List (String × RawParameter))
    (paths : List (String × Document)) : Except Error (List Operation) :=
  (paths.mapM fun (path, document) => ofItem map shared path document).map List.flatten

end Operation

end RestModule
