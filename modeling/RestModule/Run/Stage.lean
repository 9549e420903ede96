/-!
# Stages of a run

A run goes through its stages in order and ends as done, or as aborted at the first error.
-/

namespace RestModule

/-- A stage of a run. -/
inductive Stage where
  | start
  | importing
  | directories
  | metadata
  | resources
  | models
  | application
  | done
  | aborted
  deriving DecidableEq

namespace Stage

/-- The name by which events mention a stage. -/
def name : Stage → String
  | start => "Start"
  | importing => "ImportSpec"
  | directories => "EnsureOutputDirs"
  | metadata => "EmitMetadata"
  | resources => "EmitPerPathUnits"
  | models => "EmitPerComponentUnits"
  | application => "EmitApplication"
  | done => "Done"
  | aborted => "Aborted"

/-- The stages that a run enters before it is done, in order. -/
def working : List Stage :=
  [importing, directories, metadata, resources, models, application]

end Stage

end RestModule
