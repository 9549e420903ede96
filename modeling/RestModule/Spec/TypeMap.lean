import RestModule.Error
import RestModule.Naming
import RestModule.Spec.SchemaType

/-!
# Java types of declared types

The Java type of a declared type, given the component schemas that references may lead to. Anything that
is neither a known keyword nor such a reference, nor an array of a type that has a Java type, is an
error.
-/

namespace RestModule

/-- The component schemas that references may lead to. -/
structure TypeMap where
  schemas : List String

namespace TypeMap

/-- The schema that a reference leads to. -/
def resolve (map : TypeMap) (reference location : String) : Except Error String :=
  match Text.after? schemaReference reference with
  | some name =>
    if name ∈ map.schemas then .ok name else .error (.unresolved reference location)
  | none => .error (.unresolved reference location)

/-- The Java type of a keyword other than `array`. -/
def keyword? (token : String) (format : Option String) : Option String :=
  match token with
  | "string" => some (if format == some "date" || format == some "date-time" then "Date" else "String")
  | "integer" => some (if format == some "int32" then "Integer" else "Long")
  | "number" => some (if format == some "float" then "Float" else "Double")
  | "boolean" => some "Boolean"
  | "object" => some "Object"
  | _ => none

/-- The token that stands in the error of an array without items. -/
def untypedArray : String := "array without items"

/-- The Java type of a declared type; `location` says where it is used. -/
def javaType (map : TypeMap) (location : String) : SchemaType → Except Error String
  | .mk token format items =>
    if SchemaType.isReferenceToken token then
      (map.resolve token location).map Naming.modelClass
    else if token == "array" then
      match items with
      | some items => (map.javaType location items).map (· ++ "[]")
      | none => .error (.unknownType untypedArray location)
    else
      match keyword? token format with
      | some type => .ok type
      | none => .error (.unknownType token location)

end TypeMap

/-- A Java type without the brackets at its end, in reverse. -/
def dropBrackets : List Char → List Char
  | ']' :: '[' :: rest => dropBrackets rest
  | reversed => reversed

/-- Whether a Java type is `Date` or an array of it, which a source has to import. -/
def needsDate (type : String) : Bool :=
  dropBrackets type.toList.reverse == "Date".toList.reverse

end RestModule
