import RestModule.Template.Library

/-!
# Stores

What a run needs of the place it writes to. The effects of a store live in its own monad, so that a run
is the same over files in memory, over a recording that changes nothing, and over a disk.
-/

namespace RestModule

/-- A place where files are written. -/
structure Store (m : Type → Type) where
  /-- Whether a file or directory exists. -/
  has : FilePath → m Bool
  /-- Creates a directory and those above it. -/
  createDirectory : FilePath → m (Except Fault Unit)
  /-- Writes a file, replacing the one that is there. -/
  write : FilePath → String → m (Except Fault Unit)
  /-- What a path holds as the override of a template. -/
  look : FilePath → m Template.Override

end RestModule
