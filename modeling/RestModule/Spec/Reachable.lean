import RestModule.Distinct
import RestModule.Spec.Definition

/-!
# Reachable models

The models that some models lead to through the types of their properties, found breadth first.
-/

namespace RestModule

namespace Definition

/-- The schemas that the properties of a component lead to, in order. -/
def successors (definition : Definition) (name : String) : List String :=
  match definition.component? name with
  | some component => component.properties.filterMap (·.type.schemaName?)
  | none => []

/-- Visits the found names one by one from the `next`-th on, adding what each one leads to. -/
def explore (definition : Definition) (found : List String) (next : Nat) : Nat → List String
  | 0 => found
  | fuel + 1 =>
    match found[next]? with
    | none => found
    | some name =>
      explore definition (addNames found (definition.successors name)) (next + 1) fuel

/-- How many names can be found at most beyond the roots: every property leads to one. -/
def edgeCount (definition : Definition) : Nat :=
  definition.components.foldr (fun component count => component.properties.length + count) 0

/-- The distinct roots in their order, then every name reachable from them in order of discovery. -/
def reachable (definition : Definition) (roots : List String) : List String :=
  let roots := addNames [] roots
  definition.explore roots 0 (roots.length + definition.edgeCount)

/-- The models that the resources use, each once, in order of first use. -/
def usedModels (definition : Definition) : List String :=
  definition.resources.foldl (fun names resource => addNames names resource.models) []

/-- The models that no resource leads to. -/
def unreachableModels (definition : Definition) : List Component :=
  let reachable := definition.reachable definition.usedModels
  definition.models.filter (·.name ∉ reachable)

end Definition

end RestModule
