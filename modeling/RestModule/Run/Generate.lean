import RestModule.Run.Plan
import RestModule.Run.Progress

/-!
# Generating a module

A run validates the configuration, imports the description and takes the steps of its plan. The first
error ends it; what has been written before stays.
-/

namespace RestModule

/-- What a run that ended well has done. -/
structure Report where
  /-- The files written, in order. -/
  written : List FilePath
  /-- The protected files that existed. -/
  skipped : List Kept
  /-- The models that resources use, in order of first use. -/
  usedModels : List String
  /-- The models that no resource leads to. -/
  unreachable : List String
  deriving DecidableEq

/-- The report of a run over a definition. -/
def Progress.report (progress : Progress) (definition : Definition) : Report where
  written := progress.written
  skipped := progress.skipped
  usedModels := definition.usedModels
  unreachable := definition.unreachableModels.map (·.name)

/-- The result of a run and how far it came. -/
structure Finished where
  result : Except Error Report
  progress : Progress

namespace Run

variable {m : Type → Type} [Monad m]

/-- Takes a step of a plan. -/
def step (store : Store m) (config : Config) : Step → Run m Unit
  | .enter stage => enter stage
  | .directory path => ensureDirectory store path
  | .file sheet => make store config sheet
  | .announce component => note (.unreachable component)

/-- Takes the steps of a plan in order. -/
def steps (store : Store m) (config : Config) (plan : List Step) : Run m Unit :=
  plan.forM (step store config)

/-- Imports a description and reports what is notable about it. -/
def importText (text : String) : Run m Definition := do
  (Renaming.ofText text).forM fun change => note (.renamed change)
  let definition ← ofExcept (Definition.ofText text)
  note (.imported definition.version definition.resources.length definition.components.length)
  return definition

/-- A run up to its report; `source` fetches the text of the description. -/
def body (store : Store m) (config : Config) (source : m (Except Error String)) :
    Run m Report := do
  ofExcept config.validate
  enter .importing
  let text ← ofExcept (← source)
  let definition ← importText text
  steps store config (definition.plan config)
  return (← get).report definition

/-- What a run reports when it ends. -/
def close (result : Except Error Report) (progress : Progress) : Progress :=
  match result with
  | .ok report =>
    (progress.enter .done).record
      (.event (.completed report.written.length report.skipped.length))
  | .error error =>
    (progress.record (.event (.stopped progress.stage error))).enter .aborted

/-- Generates a module from the description that `source` fetches. -/
def generate (store : Store m) (library : Template.Library) (config : Config)
    (source : m (Except Error String)) : m Finished := do
  let (result, progress) ← (body store config source).run.run (.ofLibrary library)
  return ⟨result, close result progress⟩

end Run

end RestModule
