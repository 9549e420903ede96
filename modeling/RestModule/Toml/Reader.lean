import RestModule.Toml.Scalar
import RestModule.Toml.Text

/-!
# Reading TOML

The statements of a document, and the table they build. There is no answer for a text that is not
TOML.
-/

namespace RestModule.Toml

/-- How deep lists and inline tables may nest. -/
def depthLimit : Nat := 80

/-- The text after blanks, line breaks and comments; none if a comment holds a control character. -/
def skipGap (inComment : Bool) : List Char → Option (List Char)
  | [] => some []
  | '\n' :: rest => skipGap false rest
  | '\r' :: '\n' :: rest => skipGap false rest
  | c :: rest =>
    if inComment then if isLineChar c then skipGap true rest else none
    else if isBlank c then skipGap false rest
    else if c == '#' then skipGap true rest
    else some (c :: rest)

/-- The text after the end of a line, which blanks and a comment may precede. -/
def endLine (text : List Char) : Option (List Char) :=
  let text := text.dropWhile isBlank
  let text := match text with
    | '#' :: comment => comment.dropWhile isLineChar
    | text => text
  match text with
  | [] => some []
  | text => afterBreak? text

/-- A character of a key without quotes. -/
def isKeyChar (c : Char) : Bool :=
  c.isAlphanum || c == '_' || c == '-'

/-- Reads a single key. -/
def readKey (text : List Char) : Option (String × List Char) :=
  match text with
  | '"' :: rest => (readBasic (rest.length + 1) rest).map fun (key, rest) => (.ofList key, rest)
  | '\'' :: rest => (readLiteral rest).map fun (key, rest) => (.ofList key, rest)
  | text =>
    let key := text.takeWhile isKeyChar
    if key.isEmpty then none else some (.ofList key, text.drop key.length)

/-- Reads keys between dots. -/
def readPath : Nat → List Char → Option (Path × List Char)
  | 0, _ => none
  | fuel + 1, text =>
    match readKey text with
    | none => none
    | some (key, rest) =>
      match rest.dropWhile isBlank with
      | '.' :: more =>
        match readPath fuel (more.dropWhile isBlank) with
        | some (path, rest) => some (⟨key :: path.before, path.last⟩, rest)
        | none => none
      | rest => some (⟨[], key⟩, rest)

mutual

/-- Reads a value at a depth. -/
def readValue : Nat → Nat → List Char → Option (Value × List Char)
  | 0, _, _ => none
  | fuel + 1, depth, text =>
    match text with
    | '[' :: rest =>
      if depth == depthLimit then none
      else
        match skipGap false rest with
        | some rest =>
          (readItems fuel (depth + 1) rest).map fun (items, rest) => (.list items, rest)
        | none => none
    | '\x7b' :: rest =>
      if depth == depthLimit then none
      else
        match (skipGap false rest).bind (readPairs fuel (depth + 1)) with
        | some (pairs, rest) =>
          (inlineEntries? pairs).map fun entries => (.table .inline entries, rest)
        | none => none
    | c :: _ =>
      if c == '"' || c == '\'' then
        (readQuoted text).map fun (chars, rest) => (.text (.ofList chars), rest)
      else readPlain text
    | [] => none

/-- Reads the items of a list up to its closing bracket. -/
def readItems : Nat → Nat → List Char → Option (List Value × List Char)
  | 0, _, _ => none
  | fuel + 1, depth, text =>
    match text with
    | ']' :: rest => some ([], rest)
    | text =>
      match readValue fuel depth text with
      | none => none
      | some (item, rest) =>
        match skipGap false rest with
        | some (',' :: rest) =>
          match (skipGap false rest).bind (readItems fuel depth) with
          | some (items, rest) => some (item :: items, rest)
          | none => none
        | some (']' :: rest) => some ([item], rest)
        | _ => none

/-- Reads the pairs of an inline table up to its closing brace. -/
def readPairs : Nat → Nat → List Char → Option (List (Path × Value) × List Char)
  | 0, _, _ => none
  | fuel + 1, depth, text =>
    match text with
    | '\x7d' :: rest => some ([], rest)
    | text =>
      match readPair fuel depth text with
      | none => none
      | some (pair, rest) =>
        match skipGap false rest with
        | some (',' :: rest) =>
          match (skipGap false rest).bind (readPairs fuel depth) with
          | some (pairs, rest) => some (pair :: pairs, rest)
          | none => none
        | some ('\x7d' :: rest) => some ([pair], rest)
        | _ => none

/-- Reads a key with its value. -/
def readPair : Nat → Nat → List Char → Option ((Path × Value) × List Char)
  | 0, _, _ => none
  | fuel + 1, depth, text =>
    match readPath fuel text with
    | some (path, '=' :: rest) =>
      (readValue fuel depth (rest.dropWhile isBlank)).map fun (value, rest) => ((path, value), rest)
    | _ => none

end

/-- Reads a header after its opening brackets, of which there are as many as closing ones. -/
def readHeader (fuel : Nat) (closing : List Char) (text : List Char) :
    Option (Path × List Char) :=
  match readPath fuel (text.dropWhile isBlank) with
  | none => none
  | some (path, rest) => (closing.isPrefixOf? rest).map (path, ·)

/-- Reads one statement. -/
def readStatement (fuel : Nat) (text : List Char) : Option (Statement × List Char) :=
  match text with
  | '[' :: '[' :: rest =>
    (readHeader fuel [']', ']'] rest).map fun (path, rest) => (.item path, rest)
  | '[' :: rest => (readHeader fuel [']'] rest).map fun (path, rest) => (.header path, rest)
  | text => (readPair fuel 0 text).map fun ((path, value), rest) => (.assign path value, rest)

/-- Reads the statements of a document. -/
def readStatements : Nat → List Char → Option (List Statement)
  | 0, _ => none
  | fuel + 1, text =>
    match skipGap false text with
    | none => none
    | some [] => some []
    | some text =>
      match readStatement (3 * text.length + 3) text with
      | none => none
      | some (statement, rest) =>
        match (endLine rest).bind (readStatements fuel) with
        | some statements => some (statement :: statements)
        | none => none

/-- The text without the mark of its byte order. -/
def dropMark : List Char → List Char
  | '\uFEFF' :: rest => rest
  | text => text

/-- The table that a document writes. -/
def read? (text : String) : Option Entries :=
  let text := dropMark text.toList
  (readStatements (text.length + 1) text).bind (Statement.perform [] [])

end RestModule.Toml
