import RestModule.CommandLine.Usage
import RestModule.Text.Split

/-!
# Arguments

How arguments give a command. They are taken from left to right; the first one that does not fit decides.
The value of an option is settled when the next option is met, so that an argument that fits nowhere is
reported before an option without a value.
-/

namespace RestModule.CommandLine

/-- An option. -/
inductive Choice where
  | verbose
  | help
  | version
  | spec
  | config
  | output
  | templates
  | overwriteImplementation
  | overwriteMetadata
  | dryRun
  deriving DecidableEq

namespace Choice

/-- Whether an option takes a value. -/
def takesValue : Choice → Bool
  | spec | config | output | templates => true
  | _ => false

/-- The long name of an option. -/
def name : Choice → String
  | verbose => "verbose"
  | help => "help"
  | version => "version"
  | spec => "spec"
  | config => "config"
  | output => "output"
  | templates => "template-dir"
  | overwriteImplementation => "overwrite-implementation"
  | overwriteMetadata => "overwrite-metadata"
  | dryRun => "dry-run"

/-- The letter of an option. -/
def letter? : Choice → Option Char
  | verbose => some 'v'
  | help => some 'h'
  | version => some 'V'
  | spec => some 's'
  | config => some 'c'
  | output => some 'o'
  | _ => none

end Choice

/-- A place where options are given: before the command, or after one. -/
inductive Scope where
  | program
  | generate
  | inspect
  deriving DecidableEq

namespace Scope

/-- The options of a scope. -/
def choices : Scope → List Choice
  | program => [.verbose, .help, .version]
  | generate =>
    [.verbose, .help, .spec, .config, .output, .templates, .overwriteImplementation,
      .overwriteMetadata, .dryRun]
  | inspect => [.verbose, .help, .spec]

/-- The option of a long name. -/
def named? (scope : Scope) (name : String) : Option Choice :=
  scope.choices.find? (·.name == name)

/-- The option of a letter. -/
def lettered? (scope : Scope) (letter : Char) : Option Choice :=
  scope.choices.find? (·.letter? == some letter)

/-- The scope of a command. -/
def ofCommand? : String → Option Scope
  | "generate" => some generate
  | "inspect" => some inspect
  | _ => none

end Scope

/-- An option that is not settled yet. -/
inductive Pending where
  | none
  /-- The next argument is its value. -/
  | awaiting (choice : Choice)
  | filled (choice : Choice) (value : String)

/-- The options given so far. -/
structure Given where
  settled : List (Choice × String)
  pending : Pending

namespace Given

/-- No option has been given. -/
def empty : Given := ⟨[], .none⟩

/-- Whether an option is given. -/
def has (given : Given) (choice : Choice) : Bool :=
  (given.settled.lookup choice).isSome

/-- The path given with an option. -/
def path? (given : Given) (choice : Choice) : Option FilePath :=
  (given.settled.lookup choice).map FilePath.mk

/-- Adds an option; it may not be given twice, and its value may not be empty. -/
def add (given : Given) (choice : Choice) (value : String) : Except Usage Given :=
  if given.has choice then .error .conflict
  else if choice.takesValue && value.isEmpty then .error .invalidValue
  else .ok { given with settled := (choice, value) :: given.settled }

/-- Settles the pending option. -/
def settle (given : Given) : Except Usage Given :=
  match given.pending with
  | .none => .ok given
  | .awaiting _ => .error .invalidValue
  | .filled choice value => Given.add { given with pending := .none } choice value

/-- Adds an option after the pending one. -/
def addNext (given : Given) (choice : Choice) (value : String) : Except Usage Given :=
  (given.settle).bind fun given => given.add choice value

/-- Takes up an option without a value; help and version end the reading of arguments. -/
def raise (given : Given) (choice : Choice) : Except Usage Given :=
  given.settle.bind fun given =>
    match choice with
    | .help => .error .help
    | .version => .error .version
    | choice => given.add choice ""

/-- Waits for the value of an option. -/
def await (given : Given) (choice : Choice) : Except Usage Given :=
  given.settle.map fun given => { given with pending := .awaiting choice }

/-- Takes up a long option, given without its dashes. -/
def long (scope : Scope) (given : Given) (argument : List Char) : Except Usage Given :=
  let (name, value) := match Text.cutAt? '=' argument with
    | some (name, value) => (name, some value)
    | none => (argument, Option.none)
  match scope.named? (.ofList name), value with
  | none, _ => .error .unknownArgument
  | some choice, some value =>
    if choice.takesValue then given.addNext choice (.ofList value) else .error .tooManyValues
  | some choice, none => if choice.takesValue then given.await choice else given.raise choice

/-- Takes up the letters of short options; what follows the letter of an option with a value is that
value, which an equals sign may precede. -/
def short (scope : Scope) (given : Given) : List Char → Except Usage Given
  | [] => .ok given
  | letter :: rest =>
    match scope.lettered? letter with
    | none => .error .unknownArgument
    | some choice =>
      if choice.takesValue then
        match rest with
        | [] => given.await choice
        | '=' :: value => given.addNext choice (.ofList value)
        | value => given.addNext choice (.ofList value)
      else (given.raise choice).bind fun given => short scope given rest

end Given

/-- The shape of an argument. -/
inductive Shape where
  | dashes
  | long (text : List Char)
  | short (letters : List Char)
  | plain

/-- The shape of an argument. -/
def shapeOf (argument : String) : Shape :=
  match argument.toList with
  | '-' :: '-' :: [] => .dashes
  | '-' :: '-' :: rest => .long rest
  | '-' :: c :: rest => .short (c :: rest)
  | _ => .plain

/-- Takes the arguments of a command, none of which stands alone. -/
def readOptions (scope : Scope) (given : Given) : List String → Except Usage Given
  | [] => given.settle
  | argument :: rest =>
    match shapeOf argument with
    | .dashes =>
      if rest.isEmpty then given.settle else .error .unknownArgument
    | .long text => (given.long scope text).bind fun given => readOptions scope given rest
    | .short letters => (given.short scope letters).bind fun given => readOptions scope given rest
    | .plain =>
      match given.pending with
      | .awaiting choice =>
        readOptions scope { given with pending := .filled choice argument } rest
      | _ => .error .unknownArgument

/-- Adds the template directory of the environment unless the arguments give one. -/
def withEnvironment (templates : Option String) (given : Given) : Except Usage Given :=
  match templates with
  | some directory =>
    if given.has .templates then .ok given else given.add .templates directory
  | none => .ok given

/-- The command that the options of a scope make. -/
def commandOf (scope : Scope) (given : Given) : Except Usage Command :=
  match scope, given.path? .spec, given.path? .config with
  | .inspect, some spec, _ => .ok (.inspect spec)
  | .generate, some spec, some config =>
    .ok (.generate
      { spec
        config
        output := given.path? .output
        templates := given.path? .templates
        overwriteImplementation := given.has .overwriteImplementation
        overwriteMetadata := given.has .overwriteMetadata
        dryRun := given.has .dryRun })
  | _, _, _ => .error .missingRequired

/-- Reads the arguments after the name of a command. -/
def readCommand (templates : Option String) (scope : Scope) (verbose : Bool)
    (arguments : List String) : Except Usage Invocation := do
  let given ← readOptions scope .empty arguments
  let given ← if scope == .generate then withEnvironment templates given else .ok given
  let command ← commandOf scope given
  .ok { verbose := verbose || given.has .verbose, command }

/-- What help is asked for: the program itself or the command of a name. -/
def helpOn : List String → Usage
  | [] => .help
  | [name] => if (Scope.ofCommand? name).isSome || name == "help" then .help else .invalidSubcommand
  | _ => .invalidSubcommand

/-- What is wrong with an argument that stands where a command is expected. -/
def strayCommand (afterDashes : Bool) (argument : String) : Usage :=
  if afterDashes && ((Scope.ofCommand? argument).isSome || argument == "help") then .unknownArgument
  else .invalidSubcommand

/-- What is wrong with arguments that end without a command. -/
def withoutCommand (given : Given) : Usage :=
  if given.settled.isEmpty then .nothingGiven else .missingSubcommand

/-- Reads all arguments; `given` has the options before the command. -/
def readProgram (templates : Option String) (given : Given) :
    List String → Except Usage Invocation
  | [] => .error (withoutCommand given)
  | argument :: rest =>
    match Scope.ofCommand? argument with
    | some scope => readCommand templates scope (given.has .verbose) rest
    | none =>
      if argument == "help" then .error (helpOn rest)
      else
        match shapeOf argument with
        | .dashes =>
          match rest with
          | [] => .error (withoutCommand given)
          | next :: _ => .error (strayCommand true next)
        | .long text =>
          (given.long .program text).bind fun given => readProgram templates given rest
        | .short letters =>
          (given.short .program letters).bind fun given => readProgram templates given rest
        | .plain => .error (strayCommand false argument)

/-- The command that arguments give; `templates` is the template directory of the environment. -/
def read (templates : Option String) (arguments : List String) : Except Usage Invocation :=
  readProgram templates .empty arguments

end RestModule.CommandLine
