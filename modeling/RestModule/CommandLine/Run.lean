import RestModule.CommandLine.Usage
import RestModule.Config.Reading
import RestModule.Summary

/-!
# Running commands

What the commands do, over any host that reads files and has a store. The outcome is the text for the
user, or the chain of causes for which the command failed, outermost first.
-/

namespace RestModule.CommandLine

/-- What a command needs of the machine it runs on. -/
structure Host (m : Type → Type) where
  store : Store m
  readText : FilePath → m (Except Fault String)

/-- What a command leaves: its text or the causes of its failure, and the journal of its run. -/
structure Answer where
  result : Except (List String) String
  journal : List Entry

/-- An answer without a run. -/
def Answer.ofResult (result : Except (List String) String) : Answer := ⟨result, []⟩

variable {m : Type → Type} [Monad m]

/-- Fetches the text of a description. -/
def Host.source (host : Host m) (spec : FilePath) : m (Except Error String) := do
  match ← host.readText spec with
  | .ok text => return .ok text
  | .error fault => return .error (.specUnreadable spec fault)

/-- The configuration in a file, or the causes for which there is none. -/
def Host.config (host : Host m) (file : FilePath) : m (Except (List String) Config) := do
  match ← host.readText file with
  | .error fault =>
    return .error ["Failed to read module config: " ++ file.text, fault.message]
  | .ok text =>
    match Config.ofText text with
    | .ok config => return .ok (config.inFile file)
    | .error problem =>
      return .error ["Failed to parse module config: " ++ file.text, problem.message]

/-- Generates a module from the description in a file. -/
def Host.generate (host : Host m) (config : Config) (templates : Option FilePath)
    (spec : FilePath) : m Finished :=
  Run.generate host.store (.ofDirectory templates) config (host.source spec)

/-- Records what generating a module from the description in a file would do. -/
def Host.rehearse (host : Host m) (config : Config) (templates : Option FilePath)
    (spec : FilePath) : m (Finished × Recording) :=
  (Run.generate host.store.recorded (.ofDirectory templates) config (host.source spec)).run .empty

/-- The answer of a run. -/
def answerOf (spec : FilePath) (finished : Finished) (describe : Report → String) : Answer where
  result :=
    match finished.result with
    | .ok report => .ok (describe report)
    | .error error => .error (("Failed to generate module from " ++ spec.text) :: error.chain)
  journal := finished.progress.journal

/-- The configuration as the options of a command change it. -/
def GenerateOptions.adjust (options : GenerateOptions) (config : Config) : Config :=
  { config with
    outputPath := options.output.getD config.outputPath
    overwriteImplementation := config.overwriteImplementation || options.overwriteImplementation
    overwriteMetadata := config.overwriteMetadata || options.overwriteMetadata }

/-- Runs the command `generate`. -/
def runGenerate (host : Host m) (options : GenerateOptions) : m Answer := do
  match ← host.config options.config with
  | .error causes => return .ofResult (.error causes)
  | .ok config =>
    let config := options.adjust config
    match config.validate with
    | .error error =>
      return .ofResult
        (.error (("Invalid module config: " ++ options.config.text) :: error.chain))
    | .ok () =>
      if options.dryRun then
        let (finished, recording) ← host.rehearse config options.templates options.spec
        return answerOf options.spec finished (·.preview recording)
      else
        let finished ← host.generate config options.templates options.spec
        return answerOf options.spec finished (·.summary config.outputPath)

/-- Runs the command `inspect`. -/
def runInspect (host : Host m) (spec : FilePath) : m Answer := do
  match ← host.source spec with
  | .error error => return .ofResult (failed error)
  | .ok text =>
    let renamed := (Renaming.ofText text).map fun change => Entry.event (.renamed change)
    match Definition.ofText text with
    | .error error => return ⟨failed error, renamed⟩
    | .ok definition =>
      let imported : Event :=
        .imported definition.version definition.resources.length definition.components.length
      return ⟨.ok definition.summary, renamed ++ [.event imported]⟩
where
  /-- The causes of an error of the description. -/
  failed (error : Error) : Except (List String) String :=
    .error (("Failed to import spec: " ++ spec.text) :: error.chain)

/-- Runs a command. -/
def run (host : Host m) : Command → m Answer
  | .generate options => runGenerate host options
  | .inspect spec => runInspect host spec

end RestModule.CommandLine
