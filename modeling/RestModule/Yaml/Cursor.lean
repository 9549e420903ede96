/-!
# Places in a YAML text

A cursor is a place in a text: the characters that are left, and the place's index, line and column. A
text is taken in chunks, and a character that YAML does not allow ends it before the chunk it is in.
-/

namespace RestModule.Yaml

/-- Whether YAML allows a character in a text. -/
def isAllowed (c : Char) : Bool :=
  let n := c.toNat
  n == 0x9 || n == 0xA || n == 0xD || (0x20 ≤ n && n ≤ 0x7E) || n == 0x85
    || (0xA0 ≤ n && n ≤ 0xD7FF) || (0xE000 ≤ n && n ≤ 0xFFFD) || 0x10000 ≤ n

/-- How many bytes a chunk of a text has at most. -/
def chunkSize : Nat := 16384

/-- The characters of a text that can be read, and whether that is all of them. -/
structure Source where
  chars : List Char
  intact : Bool

/-- Reads chunk after chunk. `done` has the characters of the chunks before the current one and
`chunk` the current one's so far, both reversed; `room` is the space left in the current chunk. -/
def Source.load (done chunk : List Char) (room : Nat) : List Char → Source
  | [] => ⟨(chunk ++ done).reverse, true⟩
  | c :: rest =>
    if c.utf8Size ≤ room then
      if isAllowed c then load done (c :: chunk) (room - c.utf8Size) rest
      else ⟨done.reverse, false⟩
    else if isAllowed c then load (chunk ++ done) [c] (chunkSize - c.utf8Size) rest
    else ⟨(chunk ++ done).reverse, false⟩

/-- The readable part of a text. -/
def Source.ofText (text : String) : Source :=
  load [] [] chunkSize text.toList

/-- A place in a text. -/
structure Cursor where
  rest : List Char
  index : Nat
  line : Nat
  column : Nat

/-- Space or tab. -/
def isBlank (c : Char) : Bool :=
  c == ' ' || c == '\t'

/-- A line break; a carriage return and a line feed after it are one. -/
def isBreak (c : Char) : Bool :=
  c == '\r' || c == '\n' || c == '\u0085' || c == '\u2028' || c == '\u2029'

/-- A character of names of anchors and tags. -/
def isWordChar (c : Char) : Bool :=
  c.isAlphanum || c == '_' || c == '-'

/-- The byte order mark. -/
def byteOrderMark : Char := '\ufeff'

namespace Cursor

/-- The character `n` places ahead; none past the end. -/
def peek (cursor : Cursor) (n : Nat) : Option Char :=
  cursor.rest[n]?

/-- Whether a given character is `n` places ahead. -/
def sees (cursor : Cursor) (c : Char) (n : Nat) : Bool :=
  cursor.peek n == some c

/-- Whether a line break or the end is `n` places ahead. -/
def seesBreakOrEnd (cursor : Cursor) (n : Nat) : Bool :=
  (cursor.peek n).all isBreak

/-- Whether a blank, a line break or the end is `n` places ahead. -/
def seesGap (cursor : Cursor) (n : Nat) : Bool :=
  (cursor.peek n).all fun c => isBlank c || isBreak c

/-- Whether a blank or a line break comes next. -/
def seesGapChar (cursor : Cursor) : Bool :=
  (cursor.peek 0).any fun c => isBlank c || isBreak c

/-- Whether the text ends here. -/
def atEnd (cursor : Cursor) : Bool :=
  cursor.rest.isEmpty

/-- The place `n` characters ahead on the same line. -/
def skip (cursor : Cursor) (n : Nat) : Cursor :=
  { cursor with
    rest := cursor.rest.drop n, index := cursor.index + n, column := cursor.column + n }

/-- The characters ahead that satisfy a condition, and the place after them. -/
def takeWhile (cursor : Cursor) (p : Char → Bool) : List Char × Cursor :=
  let taken := cursor.rest.takeWhile p
  (taken, cursor.skip taken.length)

/-- The place after the characters ahead that satisfy a condition. -/
def skipWhile (cursor : Cursor) (p : Char → Bool) : Cursor :=
  (cursor.takeWhile p).2

/-- The place `n` characters ahead, at the beginning of the next line. -/
def breakLine (cursor : Cursor) (n : Nat) : Cursor :=
  ⟨cursor.rest.drop n, cursor.index + n, cursor.line + 1, 0⟩

/-- The line break ahead as the text of a scalar has it, and the place after it. Only the two
separators beyond ASCII stay as they are. -/
def readBreak (cursor : Cursor) : List Char × Cursor :=
  match cursor.rest with
  | '\r' :: '\n' :: _ => (['\n'], cursor.breakLine 2)
  | c :: _ =>
    if c == '\u2028' || c == '\u2029' then ([c], cursor.breakLine 1)
    else if isBreak c then (['\n'], cursor.breakLine 1)
    else ([], cursor)
  | [] => ([], cursor)

/-- The place after the line break ahead, if there is one. -/
def skipBreak (cursor : Cursor) : Cursor :=
  cursor.readBreak.2

/-- The place after a comment, which starts with `#` and ends before the line break. -/
def skipComment (cursor : Cursor) : Cursor :=
  if cursor.sees '#' 0 then cursor.skipWhile (!isBreak ·) else cursor

/-- Whether a line begins here with three of a character and a gap. -/
def seesMarker (cursor : Cursor) (c : Char) : Bool :=
  cursor.column == 0 && cursor.sees c 0 && cursor.sees c 1 && cursor.sees c 2 && cursor.seesGap 3

/-- Whether a line that separates documents begins here. -/
def seesDocumentMarker (cursor : Cursor) : Bool :=
  cursor.seesMarker '-' || cursor.seesMarker '.'

/-- The place after the rest of a line that holds nothing but a comment; none if it holds more. -/
def endLine? (cursor : Cursor) : Option Cursor :=
  let cursor := (cursor.skipWhile isBlank).skipComment
  if cursor.seesBreakOrEnd 0 then some cursor.skipBreak else none

end Cursor

end RestModule.Yaml
