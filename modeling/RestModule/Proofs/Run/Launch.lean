import RestModule.Proofs.Store.FileSystem
import RestModule.Proofs.Template.Library
import RestModule.Run.Generate

/-!
# Launches

A launch is what a run is given besides a file system: the configuration, the text of the
description, the templates, and which of its calls fail. -/

namespace RestModule

/-- What a run is given besides a file system. -/
structure Launch where
  config : Config
  /-- The text of the description. -/
  text : String
  library : Template.Library
  /-- What a file holds as the override of a template. -/
  look : FilePath → Template.Override
  /-- The fault with which a call fails, given how many were made before it. -/
  faults : Nat → Call → Option Fault

namespace Launch

/-- The text of a template, the same throughout a run. -/
def lookUp (launch : Launch) (name : String) : Except Error String :=
  launch.library.answer launch.look name

/-- The file of a sheet, or the error of the first template of it that cannot be read. -/
def rendered (launch : Launch) (sheet : Sheet) : Except Error Rendered :=
  sheet.render launch.lookUp

/-- The run of a launch, and the state that it leaves. -/
def run {σ : Type} (launch : Launch) (fs : FileSystem σ) (s : σ) : Finished × σ :=
  let (finished, state, _) :=
    Run.generate (fs.store launch.look launch.faults) launch.library launch.config
      (pure (.ok launch.text)) (s, 0)
  (finished, state)

/-- A launch for a description with one model and one resource. -/
def shop : Launch where
  config :=
    { apiPackage := "org.shop.rest", applicationBase := "/shop",
      applicationClass := "ShopApplication", applicationName := "Shop", author := "shop",
      basicSecurity := false, bundleName := "Shop REST", bundleSymbolicName := "org.shop.rest",
      bundleVersion := "1.0.0", corePackage := Config.defaultCorePackage,
      modelPackage := "org.shop.rest.dto", outputPath := ⟨"shop-rest"⟩,
      overwriteImplementation := false, overwriteMetadata := false,
      interfacePackage := "org.shop.rest.resource",
      implementationPackage := "org.shop.rest.internal.resource" }
  text :=
    "\x7b\"components\": \x7b\"schemas\": \x7b\"Product\": \x7b\x7d\x7d\x7d,"
      ++ "\"paths\": \x7b\"/products\": \x7b\"get\": \x7b\x7d\x7d\x7d\x7d"
  library := .ofDirectory none
  look _ := .absent
  faults _ _ := none

theorem validate_shop : shop.config.validate = .ok () := by
  decide +kernel

/-- A configuration with short names. -/
def plainConfig : Config :=
  { shop.config with
    apiPackage := "api", applicationClass := "Plain", modelPackage := "model", outputPath := ⟨"out"⟩
    interfacePackage := "resource", implementationPackage := "internal" }

end Launch

end RestModule
