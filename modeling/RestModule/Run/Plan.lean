import RestModule.Run.Stage
import RestModule.Sheet.Bundle
import RestModule.Sheet.Resource
import RestModule.Spec.Reachable

/-!
# Plans

The steps that turn a definition into a module. A plan depends on the definition and the configuration
alone, never on what the store holds.
-/

namespace RestModule

/-- A step of a plan. -/
inductive Step where
  | enter (stage : Stage)
  /-- A directory is created unless it exists. -/
  | directory (path : FilePath)
  /-- A file is made. -/
  | file (sheet : Sheet)
  /-- A model that no resource leads to is announced. -/
  | announce (component : String)

namespace Plan

/-- The directories of a module. -/
def directories (config : Config) : List FilePath :=
  [config.outputPath, config.sourceRoot, config.resourceRoot]

/-- The interface and the implementation of a resource. -/
def ofResource (config : Config) (version : String) (resource : Resource) : List Step :=
  [.file (Sheet.interface config version resource),
    .file (Sheet.implementation config version resource)]

/-- The model of a component. -/
def ofModel (config : Config) (reachable : List String) (component : Component) : List Step :=
  (if component.name ∈ reachable then [] else [.announce component.name])
    ++ [.file (Sheet.model config component)]

end Plan

/-- The steps that turn a definition into a module. -/
def Definition.plan (definition : Definition) (config : Config) : List Step :=
  let reachable := definition.reachable definition.usedModels
  .enter .directories :: (Plan.directories config).map .directory
    ++ [.enter .metadata, .file (Sheet.bundle config), .file (Sheet.build config)]
    ++ .enter .resources :: definition.resources.flatMap (Plan.ofResource config definition.version)
    ++ .enter .models :: definition.models.flatMap (Plan.ofModel config reachable)
    ++ [.enter .application, .file (Sheet.application config definition.resources)]

end RestModule
