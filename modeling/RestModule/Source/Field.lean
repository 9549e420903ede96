import RestModule.Naming
import RestModule.Spec.Definition
import RestModule.Text.Lines

/-!
# Fields of generated models

A property of a component becomes a private field with a getter and a setter. Properties that would
share accessors get numbered names.
-/

namespace RestModule

/-- A field of a model. -/
structure Field where
  /-- The name of the property as an identifier; the field itself has an underscore in front. -/
  name : String
  type : String

namespace Field

/-- The name of the field's getter. -/
def getter (field : Field) : String :=
  "get" ++ Naming.capitalize field.name

/-- The name of the field's setter. -/
def setter (field : Field) : String :=
  "set" ++ Naming.capitalize field.name

/-- The name of the field in its class. -/
def member (field : Field) : String :=
  "_" ++ field.name

/-- The declaration of the field. -/
def declaration (field : Field) : String :=
  "\tprivate " ++ field.type ++ " " ++ field.member ++ ";"

/-- The method that returns the field. -/
def getterMethod (field : Field) : String :=
  Text.joinLines
    ["\tpublic " ++ field.type ++ " " ++ field.getter ++ "() \x7b",
      "\t\treturn " ++ field.member ++ ";",
      "\t\x7d"]

/-- The method that sets the field. -/
def setterMethod (field : Field) : String :=
  Text.joinLines
    ["\tpublic void " ++ field.setter ++ "(" ++ field.type ++ " " ++ field.name ++ ") \x7b",
      "\t\t" ++ field.member ++ " = " ++ field.name ++ ";",
      "\t\x7d"]

/-- The getter and the setter. -/
def accessors (field : Field) : String :=
  field.getterMethod ++ "\n\n" ++ field.setterMethod

end Field

/-- The fields of a component's model, in the order of its properties. -/
def Component.fields (component : Component) : List Field :=
  component.properties.zipWith (fun property name => ⟨name, property.javaType⟩)
    (Naming.distinctBy Naming.capitalize []
      (component.properties.map fun property => Naming.identifier property.name))

end RestModule
