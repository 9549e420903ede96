import RestModule.Naming
import RestModule.Spec.Definition
import RestModule.Text.Lines

/-!
# Imports of generated sources

The classes that a generated source names without their package, and the lines that import them.
-/

namespace RestModule

/-- A class that a source imports. -/
structure Import where
  package : String
  name : String
  deriving DecidableEq

namespace Import

/-- The full name of the class. -/
def qualified (i : Import) : String :=
  i.package ++ "." ++ i.name

/-- The line that imports the class. -/
def line (i : Import) : String :=
  "import " ++ i.qualified ++ ";"

/-- Import lines, each with a line break after it. -/
def lines (imports : List Import) : String :=
  Text.ofLines (imports.map line)

/-- Import lines with line breaks between them. -/
def block (imports : List Import) : String :=
  Text.joinLines (imports.map line)

/-- Package of the JAX-RS annotations. -/
def webPackage : String := "javax.ws.rs"

/-- Package of the JAX-RS types. -/
def webCorePackage : String := "javax.ws.rs.core"

/-- The type of a response without a body. -/
def response : Import := ⟨webCorePackage, "Response"⟩

/-- The class of dates. -/
def date : Import := ⟨"java.util", "Date"⟩

/-- Imports in the order of their full names, each once. -/
def sorted (imports : List Import) : List Import :=
  imports.eraseDups.mergeSort fun a b => decide (a.qualified ≤ b.qualified)

end Import

namespace Resource

/-- The models that a resource imports, in order of first use. -/
def modelImports (modelPackage : String) (resource : Resource) : List Import :=
  resource.models.map fun model => ⟨modelPackage, Naming.modelClass model⟩

/-- The core classes that a resource imports. -/
def coreImports (corePackage : String) (resource : Resource) : List Import :=
  ⟨corePackage ++ ".context", "Language"⟩ ::
    if resource.methods.any (·.isCollection) then
      [⟨corePackage ++ ".context", "Pagination"⟩, ⟨corePackage ++ ".model", "CollectionDTO"⟩]
    else []

end Resource

/-- The JAX-RS classes that a method of an interface needs. -/
def Method.webImports (method : Method) : List Import :=
  [⟨Import.webPackage, method.verb.name⟩]
    ++ (if method.pathParameters.isEmpty then [] else [⟨Import.webPackage, "PathParam"⟩])
    ++ (if method.queryParameters.isEmpty then [] else [⟨Import.webPackage, "QueryParam"⟩])
    ++ (if method.request.isSome then [⟨Import.webPackage, "Consumes"⟩] else [])
    ++ (if method.response.isSome then [⟨Import.webPackage, "Produces"⟩] else [Import.response])

/-- The JAX-RS classes that an interface imports, sorted. -/
def Resource.webImports (resource : Resource) : List Import :=
  Import.sorted
    ([⟨Import.webPackage, "Path"⟩, ⟨Import.webCorePackage, "Context"⟩]
      ++ resource.methods.flatMap (·.webImports))

end RestModule
