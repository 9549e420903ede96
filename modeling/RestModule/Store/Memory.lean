import RestModule.Store.Basic

/-!
# Files in memory

A store that holds its files and directories by name. Names are compared by their components. A
directory is known by its own name alone, and every call on a name with a given ending can be made to
fail.
-/

namespace RestModule

/-- Files and directories in memory. -/
structure Memory where
  /-- The files with their contents, by name. -/
  files : List (String × String)
  directories : List String
  /-- The ending of the names on which calls fail. -/
  failing : Option String
  /-- The files that override templates. -/
  overrides : List (FilePath × Template.Override)

namespace Memory

/-- A store without files. -/
def empty : Memory := ⟨[], [], none, []⟩

/-- The contents of a file. -/
def read? (memory : Memory) (path : FilePath) : Option String :=
  memory.files.lookup path.normal.text

/-- Whether a name is that of a file or directory. -/
def has (memory : Memory) (path : FilePath) : Bool :=
  (memory.read? path).isSome || path.normal.text ∈ memory.directories

/-- Whether calls on a name fail. -/
def fails (memory : Memory) (path : FilePath) : Bool :=
  memory.failing.any fun ending => ending.toList.isSuffixOf path.normal.text.toList

/-- A value put under a name, at its place if the name is known. -/
def put (name contents : String) : List (String × String) → List (String × String)
  | [] => [(name, contents)]
  | (other, old) :: rest =>
    if other == name then (name, contents) :: rest else (other, old) :: put name contents rest

/-- The store with a file. -/
def withFile (memory : Memory) (path : FilePath) (contents : String) : Memory :=
  { memory with files := put path.normal.text contents memory.files }

/-- The store with a directory. -/
def withDirectory (memory : Memory) (path : FilePath) : Memory :=
  { memory with directories := addName memory.directories path.normal.text }

/-- The store without a file. -/
def without (memory : Memory) (path : FilePath) : Memory :=
  { memory with files := memory.files.filter (·.1 != path.normal.text) }

/-- What a path holds as the override of a template. -/
def look (memory : Memory) (path : FilePath) : Template.Override :=
  match memory.overrides.find? (·.1.same path) with
  | some (_, found) => found
  | none => .absent

/-- A call that changes the store, or fails and leaves it as it is. -/
def change (path : FilePath) (update : Memory → Memory) : StateM Memory (Except Fault Unit) := do
  if (← get).fails path then return .error .readOnly
  else
    modify update
    return .ok ()

/-- Files in memory as a store. -/
def store : Store (StateM Memory) where
  has path := return (← get).has path
  createDirectory path := change path (·.withDirectory path)
  write path contents := change path (·.withFile path contents)
  look path := return (← get).look path

end Memory

end RestModule
