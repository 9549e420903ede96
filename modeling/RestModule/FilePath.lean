import RestModule.Text.Split

/-!
# File paths

Slash-separated paths as they are written. Two paths name one file when their components agree:
empty components and inner `.` do not count, `..` does.
-/

namespace RestModule

/-- A path as it is written. -/
structure FilePath where
  text : String
  deriving DecidableEq

namespace FilePath

open Text

/-- Whether a path starts at the root. -/
def isAbsolute (path : FilePath) : Bool :=
  path.text.toList.head? == some '/'

/-- A path continued by a part: the part alone if that is absolute, else the part after a slash,
which an empty path and a path that ends in one do not need. -/
def join (base : FilePath) (part : String) : FilePath :=
  if (FilePath.mk part).isAbsolute then ⟨part⟩
  else
    match base.text.toList.getLast? with
    | none | some '/' => ⟨base.text ++ part⟩
    | some _ => ⟨base.text ++ "/" ++ part⟩

/-- A piece that names no file of its own. -/
def isIdle (piece : String) : Bool :=
  piece == "" || piece == "."

/-- The components of a path: `/` for the root, a leading `.`, then every piece that counts. -/
def components (path : FilePath) : List String :=
  let pieces := splitAt '/' path.text
  if path.isAbsolute then "/" :: pieces.filter (!isIdle ·)
  else
    match pieces with
    | "." :: rest => "." :: rest.filter (!isIdle ·)
    | pieces => pieces.filter (!isIdle ·)

/-- The path written from its components alone. -/
def normal (path : FilePath) : FilePath :=
  match path.components with
  | "/" :: rest => ⟨"/" ++ String.intercalate "/" rest⟩
  | parts => ⟨String.intercalate "/" parts⟩

/-- Whether two paths name one file. -/
def same (left right : FilePath) : Bool :=
  left.components == right.components

/-- Pieces without idle ones at their end. -/
def dropIdleTail (pieces : List String) : List String :=
  (pieces.reverse.dropWhile isIdle).reverse

/-- The written beginning that is no ordinary piece: the root or a leading `.`. -/
def anchor (path : FilePath) : String :=
  if path.isAbsolute then "/"
  else if (splitAt '/' path.text).head? == some "." then "."
  else ""

/-- The path without its last component; none for the root and the empty path. -/
def parent? (path : FilePath) : Option FilePath :=
  let anchor := path.anchor
  let body := splitAt '/' (.ofList (path.text.toList.drop anchor.length))
  match (dropIdleTail body).reverse with
  | [] => if anchor == "." then some ⟨""⟩ else none
  | _ :: before =>
    some ⟨anchor ++ String.intercalate "/" (dropIdleTail before.reverse)⟩

end FilePath

end RestModule
