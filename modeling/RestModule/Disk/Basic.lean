import RestModule.Fault
import RestModule.FilePath

/-!
# Disks

A tree of directories and files as a list of entries by place, and how a path is followed in it. A path
is followed name by name; every name before the last one has to be that of a directory.
-/

namespace RestModule

/-- What a file holds. -/
inductive Contents where
  | text (value : String)
  /-- Bytes that are no text. -/
  | bytes (value : List UInt8)

/-- An entry of a disk. -/
inductive DiskEntry where
  | directory
  | file (contents : Contents)

/-- The names that lead from the root to an entry. -/
abbrev Place : Type := List String

/-- Entries by their places. The root is a directory without an entry of its own. -/
structure Disk where
  entries : List (Place × DiskEntry)
  /-- The directory in which relative paths start. -/
  working : Place

namespace Disk

/-- A disk that holds its working directory alone. -/
def empty : Disk := ⟨[(["work"], .directory)], ["work"]⟩

/-- The entry of a place. -/
def entryAt? (disk : Disk) (place : Place) : Option DiskEntry :=
  if place.isEmpty then some .directory else disk.entries.lookup place

/-- The entries with one of them set. -/
def put (place : Place) (entry : DiskEntry) :
    List (Place × DiskEntry) → List (Place × DiskEntry)
  | [] => [(place, entry)]
  | (other, old) :: rest =>
    if other == place then (place, entry) :: rest else (other, old) :: put place entry rest

/-- The disk with an entry set. -/
def withEntry (disk : Disk) (place : Place) (entry : DiskEntry) : Disk :=
  { disk with entries := put place entry disk.entries }

/-- The size that a name may have, in bytes. -/
def nameLimit : Nat := 255

/-- The size that a path may have, in bytes. -/
def pathLimit : Nat := 4095

/-- Goes from a directory to one of the directories in it. -/
def enter (disk : Disk) (place : Place) (name : String) : Except Fault Place :=
  if name == "." then .ok place
  else if name == ".." then .ok place.dropLast
  else if nameLimit < name.utf8ByteSize then .error .nameTooLong
  else
    match disk.entryAt? (place ++ [name]) with
    | none => .error .notFound
    | some (.file _) => .error .notDirectory
    | some .directory => .ok (place ++ [name])

/-- The directory in which a path starts. -/
def start (disk : Disk) (path : FilePath) : Place :=
  if path.isAbsolute then [] else disk.working

/-- The names of a path. -/
def names (path : FilePath) : List String :=
  (Text.splitAt '/' path.text).filter (!·.isEmpty)

/-- Follows a path up to its last name: the directory that the name is looked up in, and the name. A
path that ends in the root, in `.` or in `..` leads to a directory and leaves no name. -/
def locate (disk : Disk) (path : FilePath) : Except Fault (Place × Option String) :=
  if path.text.toList.contains '\x00' then .error .strayNul
  else if pathLimit < path.text.utf8ByteSize then .error .nameTooLong
  else if path.text.isEmpty then .error .notFound
  else
    match (names path).reverse with
    | [] => .ok (disk.start path, none)
    | last :: before =>
      (before.reverse.foldlM disk.enter (disk.start path)).bind fun place =>
        if last == "." then .ok (place, none)
        else if last == ".." then .ok (place.dropLast, none)
        else if nameLimit < last.utf8ByteSize then .error .nameTooLong
        else .ok (place, some last)

/-- Whether a path is written so that it can only lead to a directory. -/
def endsInSlash (path : FilePath) : Bool :=
  path.text.toList.getLast? == some '/'

/-- The entry that a path leads to. -/
def find (disk : Disk) (path : FilePath) : Except Fault (Place × DiskEntry) :=
  (disk.locate path).bind fun (place, name) =>
    match name with
    | none => .ok (place, .directory)
    | some name =>
      match disk.entryAt? (place ++ [name]) with
      | none => .error .notFound
      | some .directory => .ok (place ++ [name], .directory)
      | some (.file contents) =>
        if endsInSlash path then .error .notDirectory else .ok (place ++ [name], .file contents)

/-- Whether a path leads to an entry. -/
def has (disk : Disk) (path : FilePath) : Bool :=
  match disk.find path with
  | .ok _ => true
  | .error _ => false

/-- Whether a path leads to a directory. -/
def isDirectory (disk : Disk) (path : FilePath) : Bool :=
  match disk.find path with
  | .ok (_, .directory) => true
  | _ => false

/-- The text of a file. -/
def readText (disk : Disk) (path : FilePath) : Except Fault String :=
  match disk.find path with
  | .error fault => .error fault
  | .ok (_, .directory) => .error .isDirectory
  | .ok (_, .file (.bytes _)) => .error .notText
  | .ok (_, .file (.text text)) => .ok text

/-- The disk with a new directory. -/
def makeDirectory (disk : Disk) (path : FilePath) : Except Fault Disk :=
  (disk.locate path).bind fun (place, name) =>
    match name with
    | none => .error .alreadyExists
    | some name =>
      match disk.entryAt? (place ++ [name]) with
      | some _ => .error .alreadyExists
      | none => .ok (disk.withEntry (place ++ [name]) .directory)

/-- The disk with a file. -/
def withFile (disk : Disk) (path : FilePath) (contents : Contents) : Except Fault Disk :=
  (disk.locate path).bind fun (place, name) =>
    match name with
    | none => .error .isDirectory
    | some name =>
      if endsInSlash path then .error .isDirectory
      else
        match disk.entryAt? (place ++ [name]) with
        | some .directory => .error .isDirectory
        | _ => .ok (disk.withEntry (place ++ [name]) (.file contents))

/-- The disk without a file; none if the path does not lead to one. -/
def without? (disk : Disk) (path : FilePath) : Option Disk :=
  match disk.find path with
  | .ok (place, .file _) =>
    some { disk with entries := disk.entries.filter (·.1 != place) }
  | _ => none

/-- The directory of a path and those above it are created as far as they are missing. Directories
made before a fault stay. -/
def createAll : Nat → FilePath → Disk → Except Fault Unit × Disk
  | 0, _, disk => (.error .notFound, disk)
  | fuel + 1, path, disk =>
    if path.text.isEmpty then (.ok (), disk)
    else
      let settle (disk : Disk) : Except Fault Unit × Disk :=
        match disk.makeDirectory path with
        | .ok disk => (.ok (), disk)
        | .error fault => (if disk.isDirectory path then .ok () else .error fault, disk)
      match disk.makeDirectory path with
      | .error .notFound =>
        match path.parent? with
        | none => (.error (.system "failed to create whole tree"), disk)
        | some parent =>
          match createAll fuel parent disk with
          | (.ok (), disk) => settle disk
          | failed => failed
      | _ => settle disk

/-- Creates a directory and those above it; a path has fewer parents than characters. -/
def createDirectory (disk : Disk) (path : FilePath) : Except Fault Unit × Disk :=
  createAll (path.text.length + 1) path disk

/-- What stands under the working directory: relative paths, with a slash after directories. -/
def tree (disk : Disk) : List String :=
  let listed := disk.entries.filterMap fun (place, entry) =>
    match disk.working.isPrefixOf? place with
    | none | some [] => none
    | some names =>
      let path := String.intercalate "/" names
      some (match entry with
        | .directory => path ++ "/"
        | .file _ => path)
  listed.mergeSort fun a b => decide (a ≤ b)

end Disk

end RestModule
