import RestModule.Document.Basic
import RestModule.Error
import RestModule.Spec.Definition

/-!
# Reading types and parameters

The parts of an API description that declare a type or a parameter, read from the document. A location
says where a part stands, for the error of one that is not as it must be.
-/

namespace RestModule

/-- The entries of a document that has to be a mapping. -/
def Document.entriesAt (location : String) : Document → Except Error (List (String × Document))
  | .map entries => .ok entries
  | _ => .error (.malformed location .notMapping)

/-- The text of a key among entries, if it is a text. -/
def Document.textIn? (key : String) (entries : List (String × Document)) : Option String :=
  (entries.lookup key).bind Document.text?

namespace SchemaType

/-- The first text of a list of type keywords other than `null`. -/
def firstKeyword? (tokens : List Document) : Option String :=
  (tokens.filterMap Document.text?).find? (· != "null")

/-- The type keyword among the entries of a schema: a text, or a list of alternatives. -/
def keywordAt (location : String) (entries : List (String × Document)) : Except Error String :=
  match entries.lookup "type" with
  | some (.text token) => .ok token
  | some (.list tokens) =>
    match firstKeyword? tokens with
    | some token => .ok token
    | none => .error (.malformed location .onlyNullTypes)
  | some _ => .error (.malformed location .typeNotText)
  | none => .error (.malformed location .untyped)

mutual

/-- The type that a schema declares. A reference counts alone; otherwise a keyword is needed, and
`array` looks at the items. -/
def ofDocument (location : String) : Document → Except Error SchemaType
  | .map entries =>
    match Document.textIn? "$ref" entries with
    | some reference => .ok (ofToken reference)
    | none =>
      match keywordAt location entries with
      | .error e => .error e
      | .ok token =>
        let format := Document.textIn? "format" entries
        if token == "array" then
          match itemsOf location entries with
          | none => .ok (mk token format none)
          | some (.error e) => .error e
          | some (.ok items) => .ok (mk token format (some items))
        else .ok (mk token format none)
  | _ => .error (.malformed location .notMapping)

/-- The type of the items among the entries of a schema, if there are any. -/
def itemsOf (location : String) :
    List (String × Document) → Option (Except Error SchemaType)
  | [] => none
  | (key, value) :: rest =>
    if "items" == key then some (ofDocument (location ++ ".items") value)
    else itemsOf location rest

end

end SchemaType

/-- A parameter as it is declared, before its type is mapped. -/
structure RawParameter where
  name : String
  /-- None for a parameter that is passed in neither the path nor the query. -/
  place : Option ParameterPlace
  required : Bool
  type : SchemaType

namespace RawParameter

/-- The place that a parameter names. -/
def placeOf (entries : List (String × Document)) : Option ParameterPlace :=
  match Document.textIn? "in" entries with
  | some "path" => some .path
  | some "query" => some .query
  | _ => none

/-- The type of a parameter: its schema's, or a string without one. -/
def typeOf (location : String) (entries : List (String × Document)) :
    Except Error SchemaType :=
  match entries.lookup "schema" with
  | some schema => SchemaType.ofDocument (location ++ ".schema") schema
  | none => .ok (SchemaType.ofToken "string")

/-- The parameter that the entries of a mapping declare. -/
def ofEntries (location : String) (entries : List (String × Document)) :
    Except Error RawParameter :=
  match Document.textIn? "name" entries with
  | none | some "" => .error (.malformed location .unnamedParameter)
  | some name =>
    (typeOf location entries).map fun type =>
      { name
        place := placeOf entries
        required := ((entries.lookup "required").bind Document.bool?).getD false
        type }

/-- The parameter that a document declares. -/
def ofDocument (location : String) (document : Document) : Except Error RawParameter :=
  (document.entriesAt location).bind (ofEntries location)

end RawParameter

end RestModule
