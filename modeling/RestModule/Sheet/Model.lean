import RestModule.Sheet.Basic
import RestModule.Source.Field
import RestModule.Source.Import
import RestModule.Spec.TypeMap

/-!
# The sheet of a model

The class of a component: a field with its accessors for every property, in order of declaration.
-/

namespace RestModule

namespace Sheet

/-- The directory of a package joined with the file of a class. -/
def classFile (config : Config) (package name : String) : FilePath :=
  (config.packageDir package).join (name ++ ".java")

/-- The import block of a component's model, with a blank line after it. -/
def modelImports (component : Component) : String :=
  if component.properties.any (needsDate ·.javaType) then Import.date.line ++ "\n\n" else ""

/-- The model of a component. -/
def model (config : Config) (component : Component) : Sheet :=
  let name := Naming.modelClass component.name
  { path := classFile config config.modelPackage name
    protection := .unprotected
    template := Template.modelFile
    values :=
      [("PACKAGE", config.modelPackage), ("AUTHOR", config.author), ("MODEL_CLASS", name),
        ("IMPORTS", modelImports component),
        ("METHODS", String.intercalate "\n\n" (component.fields.map (·.accessors))),
        ("VARIABLES", Text.joinLines (component.fields.map (·.declaration)))]
    insertions := [] }

end Sheet

end RestModule
