import RestModule.Run.Event
import RestModule.Store.Basic

/-!
# Progress of a run

The state of a run and the actions that move it on. An action that fails leaves the journal of what
was done before it, the failing call included.
-/

namespace RestModule

/-- A protected file that was left as it is. -/
structure Kept where
  path : FilePath
  protection : Protection
  deriving DecidableEq

/-- What became of a file. -/
inductive Outcome where
  | written (path : FilePath)
  | skipped (kept : Kept)
  deriving DecidableEq

/-- How far a run has come. -/
structure Progress where
  stage : Stage
  library : Template.Library
  journal : List Entry
  written : List FilePath
  skipped : List Kept

namespace Progress

/-- A run that has not begun. -/
def ofLibrary (library : Template.Library) : Progress :=
  { stage := .start, library, journal := [], written := [], skipped := [] }

/-- Adds an entry to the journal. -/
def record (entry : Entry) (progress : Progress) : Progress :=
  { progress with journal := progress.journal ++ [entry] }

/-- Goes to a stage. -/
def enter (stage : Stage) (progress : Progress) : Progress :=
  { progress.record (.event (.entered progress.stage stage)) with stage }

/-- Adds what became of a file. -/
def add (progress : Progress) : Outcome → Progress
  | .written path => { progress with written := progress.written ++ [path] }
  | .skipped kept => { progress with skipped := progress.skipped ++ [kept] }

end Progress

/-- An action of a run over a store. -/
abbrev Run (m : Type → Type) (α : Type) : Type := ExceptT Error (StateT Progress m) α

namespace Run

variable {m : Type → Type} [Monad m]

/-- Reports an event. -/
def note (event : Event) : Run m Unit :=
  modify (Progress.record (.event event))

/-- Goes to a stage. -/
def enter (stage : Stage) : Run m Unit :=
  modify (Progress.enter stage)

/-- Stops the run at an error. -/
def ofExcept {α : Type} : Except Error α → Run m α
  | .ok a => pure a
  | .error error => throw error

/-- Makes a call to the store; a fault stops the run. -/
def request (call : Call) (effect : m (Except Fault Unit)) : Run m Unit := do
  modify (Progress.record (.call call))
  match ← effect with
  | .ok () => pure ()
  | .error fault => throw (.output call.path fault)

/-- Creates a directory unless it exists. -/
def ensureDirectory (store : Store m) (path : FilePath) : Run m Unit := do
  if !(← store.has path) then
    request (.createDirectory path) (store.createDirectory path)
    note (.createdDirectory path)

/-- The text of a template. -/
def template (store : Store m) (name : String) : Run m String := do
  let library := (← get).library
  let loading ← (library.load store.look name : m Template.Loading)
  modify fun progress => { progress with library := loading.library }
  if let some file := loading.file then note (.overridden name file)
  ofExcept loading.result

/-- Whether a file is left as it is: its protection is not lifted and it exists. -/
def isKept (store : Store m) (config : Config) (file : Rendered) : m Bool :=
  if file.protection.isLifted config then pure false else store.has file.path

/-- Writes a file, with the directory it is in, or leaves it as it is. -/
def place (store : Store m) (config : Config) (file : Rendered) : Run m Outcome := do
  if ← (isKept store config file : m Bool) then
    note (.kept file.path file.protection)
    return .skipped ⟨file.path, file.protection⟩
  else
    if let some directory := file.path.parent? then
      request (.createDirectory directory) (store.createDirectory directory)
    request (.write file.path file.contents) (store.write file.path file.contents)
    note (.wrote file.path)
    return .written file.path

/-- Makes the file of a sheet. -/
def make (store : Store m) (config : Config) (sheet : Sheet) : Run m Unit := do
  let file ← sheet.render (template store)
  let outcome ← place store config file
  modify (·.add outcome)

end Run

end RestModule
