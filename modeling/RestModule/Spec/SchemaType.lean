import RestModule.Text.Split

/-!
# Types of an API description

A type as a schema declares it: a token, which is a type keyword or a reference, a format, and the type
of the items of an array.
-/

namespace RestModule

/-- What starts a reference to a component schema. -/
def schemaReference : String := "#/components/schemas/"

/-- What starts a reference to a shared parameter. -/
def parameterReference : String := "#/components/parameters/"

/-- A declared type. -/
inductive SchemaType where
  | mk (token : String) (format : Option String) (items : Option SchemaType)

namespace SchemaType

/-- The type keyword, or the whole reference. -/
def token : SchemaType → String
  | mk token _ _ => token

/-- The format of a keyword type. -/
def format : SchemaType → Option String
  | mk _ format _ => format

/-- The type of the items of an array. -/
def items : SchemaType → Option SchemaType
  | mk _ _ items => items

/-- A type that is a token and nothing else. -/
def ofToken (token : String) : SchemaType :=
  mk token none none

/-- Whether a token refers to something in the description. -/
def isReferenceToken (token : String) : Bool :=
  (Text.after? "#/" token).isSome

/-- Whether the type is a reference. -/
def isReference (type : SchemaType) : Bool :=
  isReferenceToken type.token

/-- The component schema that the type leads to, directly or through the items of arrays. -/
def schemaName? : SchemaType → Option String
  | mk token _ items =>
    match Text.after? schemaReference token with
    | some name => some name
    | none =>
      match items with
      | some items => items.schemaName?
      | none => none

/-- The type as a summary shows it. -/
def summary : SchemaType → String
  | mk token _ (some items) => token ++ "<" ++ items.summary ++ ">"
  | mk token (some format) none => token ++ "(" ++ format ++ ")"
  | mk token none none => token

end SchemaType

end RestModule
