import RestModule.Proofs.Spec.Closed

/-!
# The grammar of descriptions

What a description has to look like to be imported, said of its document and not of how it is read.
`Grammar.Outline` asks for components whose types are known and for paths whose parameters can be
listed. `Grammar.Accepts` adds what the operations below these paths need: each is a mapping, and its
parameters and bodies lead to known types. Entries that no condition names may be anything. -/

namespace RestModule

namespace Document

/-- The entries of the mapping under a key; there are none without such a mapping. -/
def under (key : String) (entries : List (String × Document)) : List (String × Document) :=
  ((entries.lookup key).bind entries?).getD []

/-- A key leads to a mapping, if it is there. -/
def MappingUnder (key : String) (entries : List (String × Document)) : Prop :=
  ∀ document, entries.lookup key = some document → ∃ inner, document = .map inner

/-- The type keyword among the entries of a schema: a text, or the first text of a list that is not
`null`. -/
inductive Keyword (entries : List (String × Document)) : String → Prop where
  | text {token : String} (htype : entries.lookup "type" = some (.text token)) :
      Keyword entries token
  | first {before after : List Document} {token : String}
      (htype : entries.lookup "type" = some (.list (before ++ .text token :: after)))
      (htoken : token ≠ "null") (hbefore : ∀ other, .text other ∈ before → other = "null") :
      Keyword entries token

/-- A document is a schema of a type. The items count in arrays only. -/
inductive Describes : Document → SchemaType → Prop where
  | reference {entries : List (String × Document)} {token : String}
      (href : textIn? "$ref" entries = some token) :
      Describes (.map entries) (.ofToken token)
  | plain {entries : List (String × Document)} {token : String}
      (href : textIn? "$ref" entries = none) (htoken : Keyword entries token)
      (hitems : token = "array" → entries.lookup "items" = none) :
      Describes (.map entries) (.mk token (textIn? "format" entries) none)
  | array {entries : List (String × Document)} {items : Document} {type : SchemaType}
      (href : textIn? "$ref" entries = none) (htoken : Keyword entries "array")
      (hitems : entries.lookup "items" = some items) (htype : Describes items type) :
      Describes (.map entries) (.mk "array" (textIn? "format" entries) (some type))

/-- The schema of a parameter that has none. -/
def textSchema : Document :=
  .map [("type", .text "string")]

end Document

open Document (MappingUnder under textIn?)

/-- The entries of a mapping declare a parameter. -/
structure RawParameter.DeclaredBy (entries : List (String × Document)) (raw : RawParameter) :
    Prop where
  name : textIn? "name" entries = some raw.name
  named : raw.name ≠ ""
  place : raw.place = placeOf entries
  required : raw.required = ((entries.lookup "required").bind Document.bool?).getD false
  type : ((entries.lookup "schema").getD Document.textSchema).Describes raw.type

namespace TypeMap

/-- A declared type has a Java type. -/
def Knows (map : TypeMap) (type : SchemaType) : Prop :=
  ∃ javaType, map.Types type javaType

/-- A reference leads to a known schema. -/
def Resolves (map : TypeMap) (reference : String) : Prop :=
  ∃ name ∈ map.schemas, reference = schemaReference ++ name

/-- The schema of a body. Only a reference, or an array of references, has to lead somewhere. -/
structure Binds (map : TypeMap) (schema : Document) : Prop where
  reference : ∀ reference, schema.textAt? "$ref" = some reference → map.Resolves reference
  items : schema.textAt? "$ref" = none → schema.textAt? "type" = some "array" →
    ∀ reference, (schema.get? "items").bind (·.textAt? "$ref") = some reference →
      map.Resolves reference

/-- A body: a mapping without a reference, the schema of whose first media type binds. -/
def IsBody (map : TypeMap) (document : Document) : Prop :=
  ∃ entries, document = .map entries ∧ textIn? "$ref" entries = none ∧
    ∀ key media rest schema, entries.lookup "content" = some (.map ((key, media) :: rest)) →
      media.get? "schema" = some schema → map.Binds schema

end TypeMap

/-- The first segment of a path, up to a slash, has an ASCII letter or digit. -/
def NamesResource (path : String) : Prop :=
  ∃ c ∈ (path.toList.dropWhile (· == '/')).takeWhile (· != '/'), c.isAlphanum = true

namespace Grammar

/-- The declared schemas. -/
def schemas (root : List (String × Document)) : List (String × Document) :=
  under "schemas" (under "components" root)

/-- The declared shared parameters. -/
def parameters (root : List (String × Document)) : List (String × Document) :=
  under "parameters" (under "components" root)

/-- The type map that knows the declared schemas. -/
def typeMap (root : List (String × Document)) : TypeMap :=
  ⟨(schemas root).map (·.1)⟩

variable (root : List (String × Document))

/-- An item of a parameter list: a reference to a shared parameter, or a declaration. -/
inductive Listed : Document → RawParameter → Prop where
  | shared {entries declared : List (String × Document)} {name : String} {raw : RawParameter}
      (href : textIn? "$ref" entries = some (parameterReference ++ name))
      (hname : (parameters root).lookup name = some (.map declared))
      (hraw : raw.DeclaredBy declared) : Listed (.map entries) raw
  | inline {entries : List (String × Document)} {raw : RawParameter}
      (href : textIn? "$ref" entries = none) (hraw : raw.DeclaredBy entries) :
      Listed (.map entries) raw

/-- The parameters among the entries of a path item or operation. -/
inductive Lists (entries : List (String × Document)) : List RawParameter → Prop where
  | absent (hlookup : entries.lookup "parameters" = none) : Lists entries []
  | list {items : List Document} {raws : List RawParameter}
      (hlookup : entries.lookup "parameters" = some (.list items))
      (hitems : List.Forall₂ (Listed root) items raws) : Lists entries raws

/-! ## Components -/

/-- The entries of a schema: every property has a known type. -/
structure IsSchema (entries : List (String × Document)) : Prop where
  properties : MappingUnder "properties" entries
  types : ∀ property ∈ under "properties" entries,
    ∃ type, property.2.Describes type ∧ (typeMap root).Knows type

/-- The entries of a shared parameter, which has a known type. -/
def IsShared (entries : List (String × Document)) : Prop :=
  ∃ raw : RawParameter, raw.DeclaredBy entries ∧ (typeMap root).Knows raw.type

/-- The components of a description. No shared parameter is named like a schema. -/
structure Components : Prop where
  components : MappingUnder "components" root
  schemas : MappingUnder "schemas" (under "components" root)
  parameters : MappingUnder "parameters" (under "components" root)
  schema : ∀ schema ∈ Grammar.schemas root,
    ∃ entries, schema.2 = .map entries ∧ IsSchema root entries
  parameter : ∀ parameter ∈ Grammar.parameters root,
    parameter.1 ∉ (Grammar.schemas root).map (·.1) ∧
      ∃ entries, parameter.2 = .map entries ∧ IsShared root entries

/-! ## Paths -/

/-- A key of a path item under which an operation stands. -/
def IsVerb (key : String) : Prop :=
  (Verb.ofKey? key).isSome = true

/-- The entries of a path item. What stands under a verb may be anything but a mapping whose
parameters cannot be listed. -/
structure ItemOutline (entries : List (String × Document)) : Prop where
  parameters : ∃ raws, Lists root entries raws
  operations : ∀ operation ∈ entries, IsVerb operation.1 →
    ∀ inner, operation.2 = .map inner → ∃ raws, Lists root inner raws

/-- The components and paths of a description, up to the operations. -/
structure Outline : Prop extends Components root where
  paths : MappingUnder "paths" root
  items : ∀ item ∈ under "paths" root, NamesResource item.1 ∧
    ∃ entries, item.2 = .map entries ∧ ItemOutline root entries

/-- A parameter that an operation has: its own, or one of its path item that it does not declare
itself. -/
def IsEffective (inherited own : List RawParameter) (raw : RawParameter) : Prop :=
  raw ∈ own ∨ raw ∈ inherited ∧ ∀ other ∈ own, ¬(other.name = raw.name ∧ other.place = raw.place)

/-- The entries of an operation. A parameter that is passed in neither the path nor the query may
have any type. -/
structure IsOperation (item entries : List (String × Document)) : Prop where
  parameters : ∀ inherited own, Lists root item inherited → Lists root entries own →
    ∀ raw, IsEffective inherited own raw → raw.place ≠ none → (typeMap root).Knows raw.type
  request : ∀ body, entries.lookup "requestBody" = some body → (typeMap root).IsBody body
  responses : MappingUnder "responses" entries
  response : ∀ response, (under "responses" entries).find? (Operation.isSuccess ·.1) =
    some response → (typeMap root).IsBody response.2

/-- A description that is imported. -/
structure Accepts : Prop extends Outline root where
  operations : ∀ item ∈ under "paths" root, ∀ entries, item.2 = .map entries →
    ∀ operation ∈ entries, IsVerb operation.1 →
      ∃ inner, operation.2 = .map inner ∧ IsOperation root entries inner

end Grammar

end RestModule
