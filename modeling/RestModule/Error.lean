import RestModule.Config.Key
import RestModule.Fault
import RestModule.FilePath

/-!
# What stops a run

The causes for which importing a description or generating a module fails, and their texts.
-/

namespace RestModule

/-- What is wrong with the structure of an API description. -/
inductive Flaw where
  | unreadable
  | declaredTwice
  | nonFinite (number : String)
  | rootNotMapping
  | notMapping
  | namedLikeSchema
  | noResourceName
  | parametersNotList
  | unnamedParameter
  | onlyNullTypes
  | typeNotText
  | untyped
  deriving DecidableEq

/-- The text of a flaw. -/
def Flaw.message : Flaw → String
  | unreadable => "<parser>"
  | declaredTwice => "declared twice"
  | nonFinite number => "non-finite number " ++ number
  | rootNotMapping => "root is not a mapping"
  | notMapping => "expected a mapping"
  | namedLikeSchema => "component name is already declared as a schema"
  | noResourceName => "cannot derive a resource name from the URL"
  | parametersNotList => "parameters is not a list"
  | unnamedParameter => "parameter has no name"
  | onlyNullTypes => "type list has no non-null entry"
  | typeNotText => "type is not a string"
  | untyped => "schema has neither type nor $ref"

/-- Why importing a description or generating a module stopped. -/
inductive Error where
  /-- The description could not be read from its file. -/
  | specUnreadable (path : FilePath) (fault : Fault)
  /-- The description is not structured as one must be. -/
  | malformed (location : String) (flaw : Flaw)
  /-- A reference does not lead to a declared component. -/
  | unresolved (reference : String) (location : String)
  /-- A type token is neither a known type nor a reference. -/
  | unknownType (token : String) (location : String)
  /-- A template is neither overridden nor built in. -/
  | templateMissing (name : String)
  /-- A template's override exists but cannot be read. -/
  | templateUnreadable (path : FilePath) (fault : Fault)
  /-- A directory or file could not be created or written. -/
  | output (path : FilePath) (fault : Fault)
  /-- A configuration value is missing or invalid. -/
  | invalidConfig (key : Config.Key) (flaw : Config.Flaw)
  deriving DecidableEq

namespace Error

/-- The text of an error. -/
def message : Error → String
  | specUnreadable path fault => "failed to read spec '" ++ path.text ++ "': " ++ fault.message
  | malformed location flaw => "malformed spec at " ++ location ++ ": " ++ flaw.message
  | unresolved reference location =>
    "unresolved reference '" ++ reference ++ "' used by " ++ location
  | unknownType token location => "unknown type '" ++ token ++ "' used by " ++ location
  | templateMissing name => "template '" ++ name ++ "' not found"
  | templateUnreadable path fault =>
    "failed to read template '" ++ path.text ++ "': " ++ fault.message
  | output path fault => "failed to write '" ++ path.text ++ "': " ++ fault.message
  | invalidConfig key flaw =>
    "invalid module configuration '" ++ key.text ++ "': " ++ flaw.message

/-- The fault of the file system that an error wraps. -/
def fault? : Error → Option Fault
  | specUnreadable _ fault | templateUnreadable _ fault | output _ fault => some fault
  | _ => none

/-- The texts of an error and of the fault below it, outermost first. -/
def chain (error : Error) : List String :=
  error.message :: (error.fault?.map Fault.message).toList

end Error

end RestModule
