import RestModule.Decimal.Layout
import RestModule.Document.Basic
import RestModule.Error

/-!
# Nodes and the documents they stand for

A reader of a notation delivers a tree of nodes. Where it met text it could not read, the tree has a
`broken` node and nothing after it. A node tree stands for a document unless a mapping has two keys of
one text, a number is not finite, or a node is broken; of several offences the first one in reading
order counts, and a repeated key is met before its value.
-/

namespace RestModule

/-- A key of a mapping as a reader delivers it. -/
inductive Key where
  | text (value : String)
  | bool (value : Bool)
  | int (value : Int)
  | float (value : Float)
  /-- No key of a mapping of a document, or one that could not be read. -/
  | broken

/-- The text that a key stands for. -/
def Key.text? : Key → Option String
  | text value => some value
  | bool value => some (if value then "true" else "false")
  | int value => some (toString value)
  | float value => some (Decimal.plainText value)
  | broken => none

/-- A value as a reader delivers it. -/
inductive Node where
  | null
  | bool (value : Bool)
  | int (value : Int)
  | float (value : Float)
  | text (value : String)
  | list (items : List Node)
  | map (entries : List (Key × Node))
  /-- A value under a tag that documents do not keep. -/
  | tagged (tag : String) (node : Node)
  /-- Reading stopped here. -/
  | broken

namespace Node

/-- The location of a key's value below a location. -/
def keyLocation (location key : String) : String :=
  if location.isEmpty then key else location ++ "." ++ key

/-- The location of an item below a location. -/
def itemLocation (location : String) (index : Nat) : String :=
  location ++ "[" ++ Nat.repr index ++ "]"

/-- The offence of text that could not be read, which is laid to the whole document. -/
def unreadable : Error :=
  .malformed "document" .unreadable

mutual

/-- The document that a node at a location stands for, or the first offence in it. -/
def document (location : String) : Node → Except Error Document
  | null => .ok .null
  | bool value => .ok (.bool value)
  | int value => .ok (.int value)
  | float value =>
    if Decimal.isFinite value then .ok (.float value)
    else .error (.malformed location (.nonFinite (Decimal.plainText value)))
  | text value => .ok (.text value)
  | list items => (documents location 0 items).map .list
  | map entries => (documentEntries location [] entries).map .map
  | tagged _ node => document location node
  | broken => .error unreadable

/-- The documents of the items from an index on. -/
def documents (location : String) (index : Nat) : List Node → Except Error (List Document)
  | [] => .ok []
  | item :: rest =>
    match document (itemLocation location index) item with
    | .error e => .error e
    | .ok first => (documents location (index + 1) rest).map (first :: ·)

/-- The entries of a mapping whose keys differ from each other and from the ones already seen. -/
def documentEntries (location : String) (seen : List String) :
    List (Key × Node) → Except Error (List (String × Document))
  | [] => .ok []
  | (key, value) :: rest =>
    match key.text? with
    | none => .error unreadable
    | some name =>
      let place := keyLocation location name
      if name ∈ seen then .error (.malformed place .declaredTwice)
      else
        match document place value with
        | .error e => .error e
        | .ok first => (documentEntries location (name :: seen) rest).map ((name, first) :: ·)

end

/-- Sets the value of a key: in its place if the key is there, else at the end. -/
def replace (key : String) (value : Document) :
    List (String × Document) → List (String × Document)
  | [] => [(key, value)]
  | (k, v) :: rest => if k == key then (k, value) :: rest else (k, v) :: replace key value rest

mutual

/-- The document that a node stands for when a repeated key keeps its first place and takes its last
value; none if a node is broken. -/
def lenient? : Node → Option Document
  | null => some .null
  | bool value => some (.bool value)
  | int value => some (.int value)
  | float value => some (.float value)
  | text value => some (.text value)
  | list items => (lenientItems? items).map .list
  | map entries => (lenientEntries? [] entries).map .map
  | tagged _ node => lenient? node
  | broken => none

/-- The documents of the items of a list. -/
def lenientItems? : List Node → Option (List Document)
  | [] => some []
  | item :: rest =>
    match lenient? item, lenientItems? rest with
    | some first, some more => some (first :: more)
    | _, _ => none

/-- The entries read so far, continued by the remaining ones. -/
def lenientEntries? (done : List (String × Document)) :
    List (Key × Node) → Option (List (String × Document))
  | [] => some done
  | (key, value) :: rest =>
    match key.text?, lenient? value with
    | some name, some first => lenientEntries? (replace name first done) rest
    | _, _ => none

end

end Node

/-- What a reader makes of a whole text: the tree it delivers, and whether the text then ends as it
must. -/
structure Reading where
  node : Node
  complete : Bool

/-- The document of a text: its tree's, if the text ends as it must and the root is a mapping. -/
def Reading.document (reading : Reading) : Except Error Document :=
  match reading.node.document "" with
  | .error e => .error e
  | .ok document =>
    if !reading.complete then .error Node.unreadable
    else if !document.isMap then .error (.malformed "document" .rootNotMapping)
    else .ok document

end RestModule
