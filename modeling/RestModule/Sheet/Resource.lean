import RestModule.Sheet.Model
import RestModule.Source.Signature

/-!
# The sheets of a resource

The interface of a resource and its implementation, whose methods have the same signatures.
-/

namespace RestModule

namespace Method

/-- The arguments of a method as a list in a signature. -/
def argumentList (write : Argument → String) (method : Method) : String :=
  String.intercalate ", " (method.arguments.map write)

/-- A method as an interface declares it. -/
def interfaceText (method : Method) : String :=
  Text.ofLines (method.markers.map fun marker => "\t" ++ marker.text)
    ++ Text.joinLines
      ["\tpublic " ++ method.returnType ++ " " ++ method.name ++ "(",
        "\t\t\t" ++ method.argumentList Argument.annotated ++ ")",
        "\t\tthrows Exception;"]

/-- The body of a method that does nothing yet. -/
def stub (method : Method) : String :=
  if method.response.isNone then "return Response.ok().build();" else "return null;"

/-- A method as an implementation defines it. -/
def implementationText (method : Method) : String :=
  Text.joinLines
    ["\t@Override",
      "\tpublic " ++ method.returnType ++ " " ++ method.name ++ "(",
      "\t\t\t" ++ method.argumentList Argument.plain ++ ")",
      "\t\tthrows Exception \x7b",
      "",
      "\t\t" ++ method.stub,
      "\t\x7d"]

end Method

namespace Sheet

/-- The interface of a resource. -/
def interface (config : Config) (version : String) (resource : Resource) : Sheet :=
  let name := Naming.interfaceClass resource.name
  { path := classFile config config.interfacePackage name
    protection := .unprotected
    template := Template.interfaceFile
    values :=
      [("PACKAGE", config.interfacePackage),
        ("MODEL_IMPORT_STATEMENTS", Import.lines (resource.modelImports config.modelPackage)),
        ("CORE_IMPORT_STATEMENTS", Import.lines (resource.coreImports config.corePackage)),
        ("MODEL_IMPORT_STATEMENTS_JAVAX", Import.block resource.webImports),
        ("API_VERSION", version), ("AUTHOR", config.author), ("PATH", resource.name),
        ("MODEL_RESOURCE_INTERFACE_CLASS", name),
        ("METHODS", String.intercalate "\n\n" (resource.methods.map (·.interfaceText)))]
    insertions := [] }

/-- The imports of an implementation besides the JAX-RS ones. -/
def implementationImports (config : Config) (resource : Resource) : List Import :=
  resource.modelImports config.modelPackage ++ resource.coreImports config.corePackage
    ++ [⟨config.interfacePackage, Naming.interfaceClass resource.name⟩]

/-- The JAX-RS import block of an implementation, with a blank line after it. -/
def implementationWebImports (resource : Resource) : String :=
  if resource.methods.any (·.response.isNone) then Import.response.line ++ "\n\n" else ""

/-- The implementation of a resource, which a run keeps once it exists. -/
def implementation (config : Config) (version : String) (resource : Resource) : Sheet :=
  let name := Naming.implementationClass resource.name
  { path := classFile config config.implementationPackage name
    protection := .implementation
    template := Template.implementationFile
    values :=
      [("PACKAGE", config.implementationPackage),
        ("IMPORT_STATEMENTS", Import.block (implementationImports config resource)),
        ("MODEL_IMPORT_STATEMENTS_JAVAX", implementationWebImports resource),
        ("API_VERSION", version), ("AUTHOR", config.author),
        ("APPLICATION_NAME", config.applicationName), ("PATH", resource.name),
        ("MODEL_RESOURCE_INTERFACE_CLASS", Naming.interfaceClass resource.name),
        ("MODEL_RESOURCE_IMPLEMENTATION_CLASS", name),
        ("METHODS", String.intercalate "\n\n" (resource.methods.map (·.implementationText)))]
    insertions := [] }

end Sheet

end RestModule
