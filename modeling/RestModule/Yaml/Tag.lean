import RestModule.Json.Text
import RestModule.Yaml.Cursor

/-!
# Anchors, tags and directives

The names that may stand before a node, and the directive lines before a document.
-/

namespace RestModule.Yaml

/-- What starts the tags of the core kinds. -/
def coreTagStart : String := "tag:yaml.org,2002:"

/-- Reads the name of an anchor or alias after its indicator. -/
def readAnchor (cursor : Cursor) : Option (String × Cursor) :=
  let (name, next) := cursor.takeWhile isWordChar
  let ends := next.seesGap 0 || (next.peek 0).any fun c =>
    c == '?' || c == ':' || c == ',' || c == ']' || c == '\x7d' || c == '%' || c == '@'
      || c == '\x60'
  if name.isEmpty || !ends then none else some (.ofList name, next)

/-- A character that a tag may hold; the last three only where no flow collection can end. -/
def isTagChar (verbatim : Bool) (c : Char) : Bool :=
  isWordChar c || c == ';' || c == '/' || c == '?' || c == ':' || c == '@' || c == '&' || c == '='
    || c == '+' || c == '$' || c == '.' || c == '%' || c == '!' || c == '~' || c == '*' || c == '\''
    || c == '(' || c == ')' || (verbatim && (c == ',' || c == '[' || c == ']'))

/-- The octet that a percent sign and two hexadecimal digits write. -/
def octetAt? (cursor : Cursor) : Option Nat := do
  guard (cursor.sees '%' 0)
  let high ← Json.hexValue? (← cursor.peek 1)
  let low ← Json.hexValue? (← cursor.peek 2)
  some (high * 16 + low)

/-- How many octets a character has by its first one. -/
def octetCount? (octet : Nat) : Option Nat :=
  if octet < 0x80 then some 1
  else if 0xC0 ≤ octet && octet < 0xE0 then some 2
  else if 0xE0 ≤ octet && octet < 0xF0 then some 3
  else if 0xF0 ≤ octet && octet < 0xF8 then some 4
  else none

/-- Reads the octets of a character after its first one. -/
def readOctets (cursor : Cursor) : Nat → Option (List Char × Cursor)
  | 0 => some ([], cursor)
  | count + 1 =>
    match octetAt? cursor with
    | none => none
    | some octet =>
      if octet / 0x40 == 2 then
        (readOctets (cursor.skip 3) count).map fun (more, next) => (Char.ofNat octet :: more, next)
      else none

/-- Reads the characters of a tag. -/
def tagChars (verbatim : Bool) : Nat → Cursor → Option (List Char × Cursor)
  | 0, cursor => some ([], cursor)
  | fuel + 1, cursor =>
    match cursor.peek 0 with
    | none => some ([], cursor)
    | some c =>
      if !isTagChar verbatim c then some ([], cursor)
      else if c == '%' then
        match octetAt? cursor with
        | none => none
        | some octet =>
          match octetCount? octet with
          | none => none
          | some count =>
            match readOctets (cursor.skip 3) (count - 1) with
            | none => none
            | some (octets, next) =>
              (tagChars verbatim fuel next).map fun (more, after) =>
                (Char.ofNat octet :: octets ++ more, after)
      else
        (tagChars verbatim fuel (cursor.skip 1)).map fun (more, after) => (c :: more, after)

/-- Reads a handle: an exclamation mark, word characters, and another mark if one follows. -/
def readHandle (cursor : Cursor) : Option (List Char × Cursor) :=
  if !cursor.sees '!' 0 then none
  else
    let (name, next) := (cursor.skip 1).takeWhile isWordChar
    if next.sees '!' 0 then some ('!' :: name ++ ['!'], next.skip 1) else some ('!' :: name, next)

/-- Whether a handle has a mark at either end. -/
def isNamedHandle (handle : List Char) : Bool :=
  handle.length > 1 && handle.getLast? == some '!'

/-- Reads a tag: its handle, which is empty for a tag in full, and the rest of it. -/
def readTag (limit : Nat) (flow : Bool) (cursor : Cursor) : Option ((String × String) × Cursor) := do
  let (tag, next) ←
    if cursor.sees '<' 1 then do
      let (chars, next) ← tagChars true limit (cursor.skip 2)
      guard (!chars.isEmpty && next.sees '>' 0)
      some (([], chars), next.skip 1)
    else do
      let (handle, next) ← readHandle cursor
      let (chars, after) ← tagChars false limit next
      if isNamedHandle handle then
        guard !chars.isEmpty
        some ((handle, chars), after)
      else
        let suffix := handle.drop 1 ++ chars
        some (if suffix.isEmpty then ([], ['!']) else (['!'], suffix), after)
  guard (next.seesGap 0 || (flow && next.sees ',' 0))
  some ((.ofList tag.1, .ofList tag.2), next)

/-- A directive line. -/
inductive Directive where
  | version (major minor : Nat)
  | tag (handle start : String)

/-- Reads a number of a version, which has one to nine digits. -/
def readVersionNumber (cursor : Cursor) : Option (Nat × Cursor) :=
  let (digits, next) := cursor.takeWhile Char.isDigit
  if digits.isEmpty || digits.length > 9 then none
  else some (digits.foldl (fun n c => n * 10 + (c.toNat - '0'.toNat)) 0, next)

/-- Reads a directive line. -/
def readDirective (limit : Nat) (cursor : Cursor) : Option (Directive × Cursor) := do
  let (name, next) := (cursor.skip 1).takeWhile isWordChar
  guard (!name.isEmpty && next.seesGap 0)
  let next := next.skipWhile isBlank
  let (directive, next) ←
    if name == "YAML".toList then do
      let (major, next) ← readVersionNumber next
      guard (next.sees '.' 0)
      let (minor, next) ← readVersionNumber (next.skip 1)
      some (Directive.version major minor, next)
    else if name == "TAG".toList then do
      let (handle, next) ← readHandle next
      guard (handle.length == 1 || handle.getLast? == some '!')
      guard ((next.peek 0).any isBlank)
      let (start, next) ← tagChars true limit (next.skipWhile isBlank)
      guard (!start.isEmpty && next.seesGap 0)
      some (Directive.tag (.ofList handle) (.ofList start), next)
    else none
  let next ← next.endLine?
  some (directive, next)

end RestModule.Yaml
