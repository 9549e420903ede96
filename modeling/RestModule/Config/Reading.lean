import RestModule.Config.Basic
import RestModule.Toml.Reader

/-!
# Reading a configuration

A configuration is the table of a TOML document. Its keys are looked at in alphabetical order: the first
one that is unknown or has a value of another kind is the offence, and only without one the first key
that is missing.
-/

namespace RestModule.Config

/-- Why a text is not a configuration. -/
inductive Problem where
  /-- It is not TOML, or a value is of the wrong kind. -/
  | unreadable
  | missing (key : Key)
  | unknown (name : String)
  deriving DecidableEq

/-- The text of a problem. -/
def Problem.message : Problem → String
  | unreadable => "<toml>"
  | missing key => "missing field `" ++ key.text ++ "`"
  | unknown name => "unknown field `" ++ name ++ "`"

namespace Key

/-- Whether the value of a key is a truth value; any other is a text. -/
def isFlag : Key → Bool
  | basicSecurity | overwriteImplementation | overwriteMetadata => true
  | _ => false

/-- Whether a configuration may leave a key out. -/
def isOptional (key : Key) : Bool :=
  key.isFlag || key == corePackage

/-- Whether a value is of the kind that a key wants. -/
def accepts (key : Key) : Toml.Value → Bool
  | .text _ => !key.isFlag
  | .bool _ => key.isFlag
  | _ => false

end Key

/-- What is wrong with an entry. -/
def entryProblem? (entry : String × Toml.Value) : Option Problem :=
  match Key.ofText? entry.1 with
  | none => some (.unknown entry.1)
  | some key => if key.accepts entry.2 then none else some .unreadable

/-- The first required key that is not among the entries. -/
def missing? (entries : Toml.Entries) : Option Key :=
  Key.all.find? fun key => !key.isOptional && (entries.lookup key.text).isNone

/-- What is wrong with the entries of a document. -/
def problem? (entries : Toml.Entries) : Option Problem :=
  let sorted := entries.mergeSort fun a b => decide (a.1 ≤ b.1)
  match sorted.findSome? entryProblem? with
  | some problem => some problem
  | none => (missing? entries).map .missing

/-- The text of a key, or a given one. -/
def textOf (entries : Toml.Entries) (key : Key) (absent : String) : String :=
  match entries.lookup key.text with
  | some (.text value) => value
  | _ => absent

/-- The truth value of a key; false without one. -/
def flagOf (entries : Toml.Entries) (key : Key) : Bool :=
  match entries.lookup key.text with
  | some (.bool value) => value
  | _ => false

/-- The configuration that entries without a problem state. -/
def ofEntries (entries : Toml.Entries) : Config where
  apiPackage := textOf entries .apiPackage ""
  applicationBase := textOf entries .applicationBase ""
  applicationClass := textOf entries .applicationClass ""
  applicationName := textOf entries .applicationName ""
  author := textOf entries .author ""
  basicSecurity := flagOf entries .basicSecurity
  bundleName := textOf entries .bundleName ""
  bundleSymbolicName := textOf entries .bundleSymbolicName ""
  bundleVersion := textOf entries .bundleVersion ""
  corePackage := textOf entries .corePackage defaultCorePackage
  modelPackage := textOf entries .modelPackage ""
  outputPath := ⟨textOf entries .outputPath ""⟩
  overwriteImplementation := flagOf entries .overwriteImplementation
  overwriteMetadata := flagOf entries .overwriteMetadata
  interfacePackage := textOf entries .interfacePackage ""
  implementationPackage := textOf entries .implementationPackage ""

/-- The configuration that a text states. -/
def ofText (text : String) : Except Problem Config :=
  match Toml.read? text with
  | none => .error .unreadable
  | some entries =>
    match problem? entries with
    | some problem => .error problem
    | none => .ok (ofEntries entries)

/-- The configuration of a file: a relative output path starts at the directory of the file. -/
def inFile (config : Config) (file : FilePath) : Config :=
  if config.outputPath.isAbsolute then config
  else
    match file.parent? with
    | some directory => { config with outputPath := directory.join config.outputPath.text }
    | none => config

end RestModule.Config
