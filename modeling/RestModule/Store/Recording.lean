import RestModule.Store.Basic

/-!
# Recordings

A store that changes nothing: it reads from another one and records what would be made there.
-/

namespace RestModule

/-- The directories and files that a recorded run would have made. -/
structure Recording where
  directories : List FilePath
  files : List FilePath

namespace Recording

/-- The recording of a run that has not begun. -/
def empty : Recording := ⟨[], []⟩

/-- A path added to others unless one of them names the same file. -/
def addPath (paths : List FilePath) (path : FilePath) : List FilePath :=
  if paths.any (·.same path) then paths else paths ++ [path]

/-- Records a directory. -/
def addDirectory (recording : Recording) (path : FilePath) : Recording :=
  { recording with directories := addPath recording.directories path }

/-- Records a file. -/
def addFile (recording : Recording) (path : FilePath) : Recording :=
  { recording with files := recording.files ++ [path] }

end Recording

/-- The store that records over another one. Recorded files exist from then on, recorded directories
do not; a directory that exists is not recorded. -/
def Store.recorded {m : Type → Type} [Monad m] (store : Store m) :
    Store (StateT Recording m) where
  has path := do
    if ← store.has path then return true
    else return (← get).files.any (·.same path)
  createDirectory path := do
    if ← store.has path then return .ok ()
    else
      modify (·.addDirectory path)
      return .ok ()
  write path _ := do
    modify (·.addFile path)
    return .ok ()
  look path := store.look path

end RestModule
