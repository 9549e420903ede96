import RestModule.Run.Stage
import RestModule.Sheet.Basic
import RestModule.Spec.Import

/-!
# Events of a run

What a run reports while it goes on, and the calls it makes to the store.
-/

namespace RestModule

/-- Something that happens during a run. -/
inductive Event where
  /-- The run goes from a stage to the next one. -/
  | entered (before after : Stage)
  /-- A method gets another name than it would have alone. -/
  | renamed (change : Renaming)
  /-- The description has been imported. -/
  | imported (version : String) (resources components : Nat)
  /-- A template is read from a file that overrides it. -/
  | overridden (template : String) (file : FilePath)
  /-- A directory of the module has been created. -/
  | createdDirectory (path : FilePath)
  /-- A file that exists is left as it is. -/
  | kept (path : FilePath) (protection : Protection)
  /-- A file has been written. -/
  | wrote (path : FilePath)
  /-- No resource leads to the model that is about to be generated. -/
  | unreachable (component : String)
  /-- The run has ended with so many files written and skipped. -/
  | completed (written skipped : Nat)
  /-- The run has stopped in a stage. -/
  | stopped (stage : Stage) (error : Error)

/-- A call to the store that changes it. -/
inductive Call where
  /-- A directory and those above it are created. -/
  | createDirectory (path : FilePath)
  | write (path : FilePath) (contents : String)
  deriving DecidableEq

/-- The path that a call changes. -/
def Call.path : Call → FilePath
  | createDirectory path => path
  | write path _ => path

/-- An entry of the journal of a run. -/
inductive Entry where
  | event (event : Event)
  | call (call : Call)

/-- The events among the entries of a journal. -/
def Entry.events (journal : List Entry) : List Event :=
  journal.filterMap fun
    | event e => some e
    | call _ => none

/-- The calls among the entries of a journal. -/
def Entry.calls (journal : List Entry) : List Call :=
  journal.filterMap fun
    | event _ => none
    | call c => some c

end RestModule
