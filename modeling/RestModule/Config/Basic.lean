import RestModule.Error
import RestModule.Naming
import RestModule.Text.Blank

/-!
# Module configuration

What a generation run needs besides the API description, the rules its values have to obey, and the
directories it leads to.
-/

namespace RestModule

/-- The configuration of a module. -/
structure Config where
  /-- Package of the application class. -/
  apiPackage : String
  /-- Base path of the application. -/
  applicationBase : String
  applicationClass : String
  /-- Name by which resources select the application. -/
  applicationName : String
  author : String
  /-- Whether the application verifies basic authentication. -/
  basicSecurity : Bool
  bundleName : String
  bundleSymbolicName : String
  bundleVersion : String
  /-- Package of the classes that generated resources rely on. -/
  corePackage : String
  modelPackage : String
  outputPath : FilePath
  /-- Whether existing resource implementations are replaced. -/
  overwriteImplementation : Bool
  /-- Whether an existing bundle descriptor is replaced. -/
  overwriteMetadata : Bool
  /-- Package of the resource interfaces. -/
  interfacePackage : String
  /-- Package of the resource implementations. -/
  implementationPackage : String
  deriving DecidableEq

namespace Config

/-- The core package of a configuration that names none. -/
def defaultCorePackage : String := "com.liferay.commerce.openapi.core"

/-- The values that must hold more than white space. -/
def required (config : Config) : List (Key × String) :=
  [(.applicationBase, config.applicationBase), (.applicationClass, config.applicationClass),
    (.applicationName, config.applicationName), (.author, config.author),
    (.bundleName, config.bundleName), (.bundleSymbolicName, config.bundleSymbolicName),
    (.bundleVersion, config.bundleVersion), (.corePackage, config.corePackage)]

/-- The values that must be package names. -/
def packages (config : Config) : List (Key × String) :=
  [(.apiPackage, config.apiPackage), (.corePackage, config.corePackage),
    (.modelPackage, config.modelPackage), (.interfacePackage, config.interfacePackage),
    (.implementationPackage, config.implementationPackage)]

/-- The first value that breaks a rule, with its flaw: blank values come first, then packages,
then the application class, then the output path. -/
def flaw? (config : Config) : Option (Key × Flaw) :=
  match config.required.find? fun (_, value) => Text.isAllBlank value with
  | some (key, _) => some (key, .empty)
  | none =>
    match config.packages.find? fun (_, value) => !Naming.isPackage value with
    | some (key, value) => some (key, .notPackage value)
    | none =>
      if !Naming.isIdentifier config.applicationClass then
        some (.applicationClass, .notIdentifier config.applicationClass)
      else if config.outputPath.text.isEmpty then some (.outputPath, .empty)
      else none

/-- Refuses a configuration that breaks a rule. -/
def validate (config : Config) : Except Error Unit :=
  match config.flaw? with
  | some (key, flaw) => .error (.invalidConfig key flaw)
  | none => .ok ()

/-- Root directory of the generated sources. -/
def sourceRoot (config : Config) : FilePath :=
  ((config.outputPath.join "src").join "main").join "java"

/-- Root directory of the module's resource files. -/
def resourceRoot (config : Config) : FilePath :=
  ((config.outputPath.join "src").join "main").join "resources"

/-- The directory of a package's sources. -/
def packageDir (config : Config) (package : String) : FilePath :=
  (Text.splitAt '.' package).foldl FilePath.join config.sourceRoot

end Config

end RestModule
