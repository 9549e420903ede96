/-!
# Configuration keys

The keys of a module configuration in the order in which the configuration lists its values.
-/

namespace RestModule.Config

/-- A key of the module configuration. -/
inductive Key where
  | apiPackage
  | applicationBase
  | applicationClass
  | applicationName
  | author
  | basicSecurity
  | bundleName
  | bundleSymbolicName
  | bundleVersion
  | corePackage
  | modelPackage
  | outputPath
  | overwriteImplementation
  | overwriteMetadata
  | interfacePackage
  | implementationPackage
  deriving DecidableEq

namespace Key

/-- A key as a configuration file writes it. -/
def text : Key → String
  | apiPackage => "api_package_path"
  | applicationBase => "application_base"
  | applicationClass => "application_class_name"
  | applicationName => "application_name"
  | author => "author"
  | basicSecurity => "basic_security_allowed"
  | bundleName => "bundle_name"
  | bundleSymbolicName => "bundle_symbolic_name"
  | bundleVersion => "bundle_version"
  | corePackage => "core_package_path"
  | modelPackage => "model_package_path"
  | outputPath => "module_output_path"
  | overwriteImplementation => "overwrite_implementation"
  | overwriteMetadata => "overwrite_metadata"
  | interfacePackage => "resource_interface_package_path"
  | implementationPackage => "resource_package_path"

/-- Every key, in the order of the configuration. -/
def all : List Key :=
  [apiPackage, applicationBase, applicationClass, applicationName, author, basicSecurity,
    bundleName, bundleSymbolicName, bundleVersion, corePackage, modelPackage, outputPath,
    overwriteImplementation, overwriteMetadata, interfacePackage, implementationPackage]

/-- The key that a text writes. -/
def ofText? (s : String) : Option Key :=
  all.find? (·.text == s)

theorem mem_all (key : Key) : key ∈ all := by
  cases key <;> decide

/-- No two keys are written alike. -/
theorem text_injective {a b : Key} (h : a.text = b.text) : a = b := by
  revert h
  cases a <;> cases b <;> decide

end Key

/-- What is wrong with a configuration value. -/
inductive Flaw where
  | empty
  | notPackage (value : String)
  | notIdentifier (value : String)
  deriving DecidableEq

/-- The text of a flaw. -/
def Flaw.message : Flaw → String
  | empty => "must not be empty"
  | notPackage value => "'" ++ value ++ "' is not a dotted Java package name"
  | notIdentifier value => "'" ++ value ++ "' is not a Java identifier"

end RestModule.Config
