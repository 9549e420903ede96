import RestModule.Json.Text
import RestModule.Yaml.Cursor

/-!
# The text of scalars

Plain, quoted and block scalars: where each of them ends, and how its lines are joined. A line break
inside a plain or quoted scalar is a space, and further ones after it stay.
-/

namespace RestModule.Yaml

/-- The blanks and line breaks between two words of a scalar. -/
structure Gap where
  /-- The blanks before the first line break. -/
  blanks : List Char
  /-- Whether the gap goes over the end of a line. -/
  broken : Bool
  firstBreak : List Char
  moreBreaks : List Char

/-- A gap in which nothing has been read yet. -/
def Gap.empty : Gap := ⟨[], false, [], []⟩

/-- The text that a gap leaves between the words: its blanks, or its line breaks folded. -/
def Gap.text (gap : Gap) : List Char :=
  if !gap.broken then gap.blanks
  else if gap.firstBreak.head? == some '\n' then
    if gap.moreBreaks.isEmpty then [' '] else gap.moreBreaks
  else gap.firstBreak ++ gap.moreBreaks

/-- Reads the rest of a gap. Below a given column a tab after a line break is refused. -/
def Gap.read (gap : Gap) (indent : Option Int) : Nat → Cursor → Option (Gap × Cursor)
  | 0, cursor => some (gap, cursor)
  | fuel + 1, cursor =>
    match cursor.peek 0 with
    | none => some (gap, cursor)
    | some c =>
      if isBlank c then
        if gap.broken then
          if c == '\t' && indent.any ((cursor.column : Int) < ·) then none
          else Gap.read gap indent fuel (cursor.skip 1)
        else Gap.read { gap with blanks := gap.blanks ++ [c] } indent fuel (cursor.skip 1)
      else if isBreak c then
        let (line, next) := cursor.readBreak
        if gap.broken then
          Gap.read { gap with moreBreaks := gap.moreBreaks ++ line } indent fuel next
        else Gap.read { gap with blanks := [], broken := true, firstBreak := line } indent fuel next
      else some (gap, cursor)

/-- A scalar that has been read: its text, the place after it, and whether a line break came last. -/
structure Scanned where
  text : List Char
  cursor : Cursor
  broken : Bool

/-! ## Plain scalars -/

/-- A character that separates the entries of a flow collection. -/
def isFlowIndicator (c : Char) : Bool :=
  c == ',' || c == '[' || c == ']' || c == '\x7b' || c == '\x7d'

/-- Reads the characters of a plain scalar up to a gap or an indicator that ends it, in reverse. In a
flow collection a colon right before an indicator is refused. -/
def plainWord (flow : Bool) (word : List Char) : Nat → Cursor → Option (List Char × Cursor)
  | 0, cursor => some (word, cursor)
  | fuel + 1, cursor =>
    match cursor.peek 0 with
    | none => some (word, cursor)
    | some c =>
      if isBlank c || isBreak c then some (word, cursor)
      else if flow && c == ':' && (cursor.peek 1).any (fun d => isFlowIndicator d || d == '?') then
        none
      else if (c == ':' && cursor.seesGap 1) || (flow && isFlowIndicator c) then
        some (word, cursor)
      else plainWord flow (c :: word) fuel (cursor.skip 1)

/-- Reads a plain scalar in a block of the given indentation. `text` is what has been read, in
reverse, and `gap` what lies before the cursor. `limit` is more than the length of the text. -/
def readPlain (limit : Nat) (flow : Bool) (indent : Int) (text : List Char) (gap : Gap) :
    Nat → Cursor → Option Scanned
  | 0, cursor => some ⟨text.reverse, cursor, gap.broken⟩
  | fuel + 1, cursor =>
    if cursor.seesDocumentMarker || cursor.sees '#' 0 then
      some ⟨text.reverse, cursor, gap.broken⟩
    else
      match plainWord flow [] limit cursor with
      | none => none
      | some (word, after) =>
        let joined := if word.isEmpty then text else word ++ gap.text.reverse ++ text
        let gap := if word.isEmpty then gap else Gap.empty
        if !after.seesGapChar then some ⟨joined.reverse, after, gap.broken⟩
        else
          match gap.read (some (indent + 1)) limit after with
          | none => none
          | some (gap, next) =>
            if !flow && (next.column : Int) < indent + 1 then
              some ⟨joined.reverse, next, gap.broken⟩
            else readPlain limit flow indent joined gap fuel next

/-! ## Quoted scalars -/

/-- The characters that one-letter escapes stand for. -/
def simpleEscape? : Char → Option Char
  | '0' => some '\x00'
  | 'a' => some '\x07'
  | 'b' => some '\x08'
  | 't' => some '\t'
  | '\t' => some '\t'
  | 'n' => some '\n'
  | 'v' => some '\x0b'
  | 'f' => some '\x0c'
  | 'r' => some '\r'
  | 'e' => some '\x1b'
  | ' ' => some ' '
  | '"' => some '"'
  | '/' => some '/'
  | '\\' => some '\\'
  | 'N' => some '\u0085'
  | '_' => some '\u00a0'
  | 'L' => some '\u2028'
  | 'P' => some '\u2029'
  | _ => none

/-- The count of digits of a numeric escape. -/
def escapeLength? : Char → Option Nat
  | 'x' => some 2
  | 'u' => some 4
  | 'U' => some 8
  | _ => none

/-- The number that hexadecimal digits write. -/
def hexNumber? (digits : List Char) : Option Nat :=
  digits.foldl (fun value c => do return (← value) * 16 + (← Json.hexValue? c)) (some 0)

/-- Reads an escape after its backslash. -/
def readEscape (cursor : Cursor) : Option (Char × Cursor) := do
  let letter ← cursor.peek 0
  match simpleEscape? letter with
  | some c => some (c, cursor.skip 1)
  | none =>
    let length ← escapeLength? letter
    let digits := (cursor.rest.drop 1).take length
    if digits.length < length then none
    else
      let value ← hexNumber? digits
      if (0xD800 ≤ value && value ≤ 0xDFFF) || value > 0x10FFFF then none
      else some (Char.ofNat value, cursor.skip (1 + length))

/-- Reads the characters of a quoted scalar up to a gap or its closing quote, in reverse, and whether
an escaped line break ended them. -/
def quotedWord (single : Bool) (word : List Char) :
    Nat → Cursor → Option (List Char × Cursor × Bool)
  | 0, cursor => some (word, cursor, false)
  | fuel + 1, cursor =>
    match cursor.peek 0 with
    | none => some (word, cursor, false)
    | some c =>
      if isBlank c || isBreak c then some (word, cursor, false)
      else if single && c == '\'' && cursor.sees '\'' 1 then
        quotedWord single ('\'' :: word) fuel (cursor.skip 2)
      else if c == (if single then '\'' else '"') then some (word, cursor, false)
      else if !single && c == '\\' then
        if (cursor.peek 1).any isBreak then some (word, (cursor.skip 1).skipBreak, true)
        else
          match readEscape (cursor.skip 1) with
          | some (char, next) => quotedWord single (char :: word) fuel next
          | none => none
      else quotedWord single (c :: word) fuel (cursor.skip 1)

/-- Reads a quoted scalar after its opening quote; `text` is what has been read, in reverse. -/
def readQuoted (limit : Nat) (single : Bool) (text : List Char) : Nat → Cursor → Option Scanned
  | 0, _ => none
  | fuel + 1, cursor =>
    if cursor.seesDocumentMarker || cursor.atEnd then none
    else
      match quotedWord single [] limit cursor with
      | none => none
      | some (word, after, escaped) =>
        if after.sees (if single then '\'' else '"') 0 then
          some ⟨(word ++ text).reverse, after.skip 1, false⟩
        else
          match Gap.read { Gap.empty with broken := escaped } none limit after with
          | none => none
          | some (gap, next) =>
            readQuoted limit single (gap.text.reverse ++ word ++ text) fuel next

/-! ## Block scalars -/

/-- What becomes of the line breaks at the end of a block scalar. -/
inductive Chomping where
  | strip
  | clip
  | keep

/-- The chomping that an indicator asks for. -/
def chomping? : Char → Option Chomping
  | '+' => some .keep
  | '-' => some .strip
  | _ => none

/-- The indicators after the mark of a block scalar, in either order; an indentation of zero is
refused. -/
def blockHeader (cursor : Cursor) : Option (Chomping × Nat × Cursor) :=
  match (cursor.peek 0).bind chomping? with
  | some chomping =>
    match indentation (cursor.skip 1) with
    | none => none
    | some (indent, next) => some (chomping, indent, next)
  | none =>
    match indentation cursor with
    | none => none
    | some (0, next) => some (.clip, 0, next)
    | some (indent, next) =>
      match (next.peek 0).bind chomping? with
      | some chomping => some (chomping, indent, next.skip 1)
      | none => some (.clip, indent, next)
where
  indentation (cursor : Cursor) : Option (Nat × Cursor) :=
    match cursor.peek 0 with
    | some '0' => none
    | some c => if c.isDigit then some (c.toNat - '0'.toNat, cursor.skip 1) else some (0, cursor)
    | none => some (0, cursor)

/-- Reads the empty lines before a line of a block scalar and the line's indentation. Without a
given indentation the widest of these lines gives it. -/
def blockBreaks (indent : Option Nat) (breaks : List Char) (widest : Nat) :
    Nat → Cursor → Option (List Char × Nat × Cursor)
  | 0, cursor => some (breaks, widest, cursor)
  | fuel + 1, cursor =>
    let spaces := (cursor.takeWhile (· == ' ')).1.length
    let room := match indent with
      | some indent => indent - cursor.column
      | none => spaces
    let cursor := cursor.skip (min spaces room)
    let widest := max widest cursor.column
    if indent.all (cursor.column < ·) && cursor.sees '\t' 0 then none
    else if (cursor.peek 0).any isBreak then
      let (line, next) := cursor.readBreak
      blockBreaks indent (breaks ++ line) widest fuel next
    else some (breaks, widest, cursor)

/-- Reads the lines of a block scalar; `text` is what has been read, in reverse. `lastBreak` is the
line break before the current line, `breaks` the empty lines after it, and `indented` says whether
the previous line began with a blank. -/
def blockLines (limit : Nat) (folded : Bool) (indent : Nat) (text lastBreak breaks : List Char)
    (indented : Bool) : Nat → Cursor → Option (List Char × List Char × List Char × Cursor)
  | 0, cursor => some (text, lastBreak, breaks, cursor)
  | fuel + 1, cursor =>
    if cursor.column != indent || cursor.atEnd then some (text, lastBreak, breaks, cursor)
    else
      let blankFirst := (cursor.peek 0).any isBlank
      let joint :=
        if folded && lastBreak.head? == some '\n' && !indented && !blankFirst then
          if breaks.isEmpty then [' '] else []
        else lastBreak
      let (line, after) := cursor.takeWhile (!isBreak ·)
      let (lineBreak, next) := after.readBreak
      match blockBreaks (some indent) [] 0 limit next with
      | none => none
      | some (empty, _, next) =>
        blockLines limit folded indent (line.reverse ++ (joint ++ breaks).reverse ++ text) lineBreak
          empty blankFirst fuel next

/-- Reads a block scalar after its mark in a block of the given indentation. -/
def readBlock (limit : Nat) (folded : Bool) (outer : Int) (cursor : Cursor) : Option Scanned :=
  match blockHeader cursor with
  | none => none
  | some (chomping, increment, next) =>
    match next.endLine? with
    | none => none
    | some start =>
      let given := if increment == 0 then none else some (outer.toNat + increment)
      match blockBreaks given [] 0 limit start with
      | none => none
      | some (breaks, widest, next) =>
        let indent := given.getD (max (max widest (outer + 1).toNat) 1)
        match blockLines limit folded indent [] [] breaks false limit next with
        | none => none
        | some (text, lastBreak, breaks, after) =>
          let tail := match chomping with
            | .strip => []
            | .clip => lastBreak
            | .keep => lastBreak ++ breaks
          some ⟨text.reverse ++ tail, after, false⟩

end RestModule.Yaml
