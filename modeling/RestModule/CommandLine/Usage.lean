import RestModule.FilePath
import RestModule.Text.Lines

/-!
# Commands and usage

The commands a user can give, and the ways in which the arguments can fail to give one.
-/

namespace RestModule.CommandLine

/-- What a module is generated from, and how. -/
structure GenerateOptions where
  spec : FilePath
  config : FilePath
  /-- Where the module goes, instead of where the configuration says. -/
  output : Option FilePath
  /-- Directory of the files that override templates. -/
  templates : Option FilePath
  overwriteImplementation : Bool
  overwriteMetadata : Bool
  /-- Whether nothing is written. -/
  dryRun : Bool

/-- A command. -/
inductive Command where
  | generate (options : GenerateOptions)
  | inspect (spec : FilePath)

/-- A command and whether its log is to be detailed. -/
structure Invocation where
  verbose : Bool
  command : Command

/-- Why arguments give no command. -/
inductive Usage where
  | missingRequired
  | unknownArgument
  | invalidSubcommand
  /-- The value of an option is missing or empty. -/
  | invalidValue
  /-- An option that takes no value has one. -/
  | tooManyValues
  /-- An option is given twice. -/
  | conflict
  | missingSubcommand
  /-- Nothing is given at all. -/
  | nothingGiven
  | help
  | version
  deriving DecidableEq

namespace Usage

/-- The exit code of the program. -/
def code : Usage → Nat
  | help | version => 0
  | _ => 2

/-- The name and version of the program. -/
def versionText : String := "restmodgen 0.1.0-alpha.1\n"

/-- How the program is used. -/
def helpText : String :=
  Text.ofLines
    ["OpenAPI to OSGi REST module generator",
      "",
      "Usage: restmodgen [-v] generate --spec <FILE> --config <FILE> [OPTIONS]",
      "       restmodgen [-v] inspect --spec <FILE>",
      "",
      "Options of generate:",
      "  -o, --output <DIR>          where the module goes",
      "      --template-dir <DIR>    directory of the files that override templates",
      "      --overwrite-implementation",
      "      --overwrite-metadata",
      "      --dry-run               show what would be written",
      "",
      "Options:",
      "  -v, --verbose  log at debug level",
      "  -h, --help     print help",
      "  -V, --version  print version"]

/-- What is wrong with the arguments. -/
def message : Usage → String
  | missingRequired => "a required option is missing"
  | unknownArgument => "unexpected argument"
  | invalidSubcommand => "unrecognized subcommand"
  | invalidValue => "an option needs a value"
  | tooManyValues => "an option takes no value"
  | conflict => "an option is given twice"
  | missingSubcommand => "a subcommand is missing"
  | nothingGiven | help | version => ""

/-- What the user is shown. -/
def text : Usage → String
  | version => versionText
  | help | nothingGiven => helpText
  | usage => "error: " ++ usage.message ++ "\n\n" ++ helpText

end Usage

end RestModule.CommandLine
