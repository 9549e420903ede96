import RestModule.Disk.Basic
import RestModule.Store.Basic

/-!
# A disk as a store
-/

namespace RestModule.Disk

/-- What a path holds as the override of a template: only a file counts. -/
def look (disk : Disk) (path : FilePath) : Template.Override :=
  match disk.find path with
  | .ok (_, .file (.text text)) => .text text
  | .ok (_, .file (.bytes _)) => .unreadable .notText
  | _ => .absent

/-- Writes a file where that is possible. -/
def write (disk : Disk) (path : FilePath) (contents : Contents) : Except Fault Unit × Disk :=
  match disk.withFile path contents with
  | .ok disk => (.ok (), disk)
  | .error fault => (.error fault, disk)

/-- A disk as a store. -/
def store : Store (StateM Disk) where
  has path := return (← get).has path
  createDirectory path := modifyGet (·.createDirectory path)
  write path contents := modifyGet (·.write path (.text contents))
  look path := return (← get).look path

end RestModule.Disk
