import RestModule.Sheet.Model

/-!
# The sheets of the bundle

The application class that serves the resources, the bundle descriptor and the build descriptor.
-/

namespace RestModule.Sheet

/-- The application class. -/
def application (config : Config) (resources : List Resource) : Sheet where
  path := classFile config config.apiPackage config.applicationClass
  protection := .unprotected
  template := Template.applicationFile
  values :=
    [("PACKAGE", config.apiPackage), ("AUTHOR", config.author),
      ("APPLICATION_BASE", config.applicationBase), ("APPLICATION_NAME", config.applicationName),
      ("BASIC_AUTHENTICATION", ""), ("APPLICATION_CLASS", config.applicationClass),
      ("RESOURCES",
        String.intercalate ", " (resources.map fun resource => Naming.interfaceClass resource.name))]
  insertions :=
    if config.basicSecurity then [("BASIC_AUTHENTICATION", Template.basicAuthenticationFile)]
    else []

/-- The bundle descriptor, which a run keeps once it exists. -/
def bundle (config : Config) : Sheet where
  path := config.outputPath.join "bnd.bnd"
  protection := .metadata
  template := Template.bundleFile
  values :=
    [("BUNDLE_NAME", config.bundleName), ("BUNDLE_SYMBOLIC_NAME", config.bundleSymbolicName),
      ("BUNDLE_VERSION", config.bundleVersion)]
  insertions := []

/-- The build descriptor. -/
def build (config : Config) : Sheet where
  path := config.outputPath.join "build.gradle"
  protection := .unprotected
  template := Template.buildFile
  values := []
  insertions := []

end RestModule.Sheet
