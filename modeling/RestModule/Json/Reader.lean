import RestModule.Json.Number
import RestModule.Json.Text

/-!
# Reading JSON

A reader that delivers the nodes of a JSON text in reading order and leaves a broken node where the
text stops being JSON. Lists and mappings nest up to 127 deep.
-/

namespace RestModule.Json

/-- How deep lists and mappings may nest. -/
def depthLimit : Nat := 127

/-- White space of JSON: space, tab, line feed and carriage return only. -/
def isSpace (c : Char) : Bool :=
  c == ' ' || c == '\t' || c == '\n' || c == '\r'

/-- A text without white space in front. -/
def skipSpace (text : List Char) : List Char :=
  text.dropWhile isSpace

/-- Reads a fixed word that stands for a node. -/
def readWord (word : String) (node : Node) (text : List Char) : Node × Option (List Char) :=
  match word.toList.isPrefixOf? text with
  | some rest => (node, some rest)
  | none => (.broken, none)

mutual

/-- Reads a value: its node, and the text after it unless the node is broken. The fuel bounds the
count of values and entries, `depth` the nesting that is left. -/
def readValue (fuel depth : Nat) (text : List Char) : Node × Option (List Char) :=
  match fuel with
  | 0 => (.broken, none)
  | fuel + 1 =>
    match skipSpace text with
    | '"' :: rest =>
      match readText rest with
      | some (value, after) => (.text value, some after)
      | none => (.broken, none)
    | '[' :: rest =>
      match depth with
      | 0 => (.broken, none)
      | depth + 1 =>
        let (items, after) := readItems fuel depth true rest
        (.list items, after)
    | '\x7b' :: rest =>
      match depth with
      | 0 => (.broken, none)
      | depth + 1 =>
        let (entries, after) := readEntries fuel depth true rest
        (.map entries, after)
    | 'n' :: rest => readWord "null" .null ('n' :: rest)
    | 't' :: rest => readWord "true" (.bool true) ('t' :: rest)
    | 'f' :: rest => readWord "false" (.bool false) ('f' :: rest)
    | other =>
      match readNumber other with
      | some (node, after) => (node, some after)
      | none => (.broken, none)

/-- Reads the items of a list that are left, up to its closing bracket. -/
def readItems (fuel depth : Nat) (first : Bool) (text : List Char) :
    List Node × Option (List Char) :=
  match fuel with
  | 0 => ([.broken], none)
  | fuel + 1 =>
    match skipSpace text, first with
    | ']' :: rest, _ => ([], some rest)
    | ',' :: rest, false =>
      match skipSpace rest with
      | ']' :: _ => ([.broken], none)
      | next => readItem fuel depth next
    | next, true => readItem fuel depth next
    | _, false => ([.broken], none)

/-- Reads one item and the ones after it. -/
def readItem (fuel depth : Nat) (text : List Char) : List Node × Option (List Char) :=
  match fuel with
  | 0 => ([.broken], none)
  | fuel + 1 =>
    match readValue fuel depth text with
    | (node, none) => ([node], none)
    | (node, some rest) =>
      let (items, after) := readItems fuel depth false rest
      (node :: items, after)

/-- Reads the entries of a mapping that are left, up to its closing brace. -/
def readEntries (fuel depth : Nat) (first : Bool) (text : List Char) :
    List (Key × Node) × Option (List Char) :=
  match fuel with
  | 0 => ([(.broken, .broken)], none)
  | fuel + 1 =>
    match skipSpace text, first with
    | '\x7d' :: rest, _ => ([], some rest)
    | ',' :: rest, false => readEntry fuel depth (skipSpace rest)
    | next, true => readEntry fuel depth next
    | _, false => ([(.broken, .broken)], none)

/-- Reads one entry and the ones after it. The key is delivered even if its value is broken. -/
def readEntry (fuel depth : Nat) (text : List Char) : List (Key × Node) × Option (List Char) :=
  match fuel with
  | 0 => ([(.broken, .broken)], none)
  | fuel + 1 =>
    match text with
    | '"' :: rest =>
      match readText rest with
      | none => ([(.broken, .broken)], none)
      | some (key, after) =>
        match skipSpace after with
        | ':' :: value =>
          match readValue fuel depth value with
          | (node, none) => ([(.text key, node)], none)
          | (node, some rest) =>
            let (entries, after) := readEntries fuel depth false rest
            ((.text key, node) :: entries, after)
        | _ => ([(.text key, .broken)], none)
    | _ => ([(.broken, .broken)], none)

end

/-- Reads a JSON text; nothing but white space may follow its value. -/
def read (text : String) : Reading :=
  let chars := text.toList
  let (node, rest) := readValue (3 * chars.length + 3) depthLimit chars
  { node
    complete := match rest with
      | some rest => (skipSpace rest).isEmpty
      | none => false }

end RestModule.Json
