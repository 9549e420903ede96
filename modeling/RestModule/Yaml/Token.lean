import RestModule.Yaml.Scalar
import RestModule.Yaml.Tag

/-!
# Tokens of a YAML text

The tokens of a text, read one by one. Whether a node is a key shows only at the colon after it, so
the tokens since the place where a key may have begun are kept back until that is known; a key of
this kind has to end on its line and within 1024 characters. In blocks the columns of tokens open and
close collections.
-/

namespace RestModule.Yaml

/-- A token. -/
inductive Token where
  | streamStart
  | streamEnd
  | directive (directive : Directive)
  | documentStart
  | documentEnd
  | blockSequenceStart
  | blockMappingStart
  | blockEnd
  | flowSequenceStart
  | flowSequenceEnd
  | flowMappingStart
  | flowMappingEnd
  | blockEntry
  | flowEntry
  | key
  | value
  | alias (name : String)
  | anchor (name : String)
  | tag (handle suffix : String)
  | scalar (text : String) (plain : Bool)

/-- A place where a key may have begun. -/
structure KeyPlace where
  /-- The number of the token that would begin the key. -/
  number : Nat
  index : Nat
  line : Nat
  column : Nat
  /-- Whether nothing but a key may stand here. -/
  required : Bool

/-- The state between two tokens. -/
structure Scanner where
  cursor : Cursor
  /-- More than the length of the text. -/
  limit : Nat
  /-- Whether the text is readable to its end. -/
  intact : Bool
  started : Bool
  /-- The tokens read and not yet taken. -/
  queue : List Token
  /-- How many tokens have been taken. -/
  taken : Nat
  /-- The column of the innermost block collection; -1 outside. -/
  indent : Int
  /-- The columns of the collections around it. -/
  outer : List Int
  /-- Whether a key may begin at the cursor. -/
  keyAllowed : Bool
  /-- The open key place of each level of flow collections, innermost first. -/
  keys : List (Option KeyPlace)
  /-- How many flow collections are open. -/
  flow : Nat

namespace Scanner

/-- The state before a text. -/
def start (source : Source) : Scanner where
  cursor := ⟨source.chars, 0, 0, 0⟩
  limit := source.chars.length + 1
  intact := source.intact
  started := false
  queue := []
  taken := 0
  indent := -1
  outer := []
  keyAllowed := true
  keys := [none]
  flow := 0

/-- Whether a flow collection is open. -/
def inFlow (s : Scanner) : Bool :=
  s.flow > 0

/-- Adds a token at the end. -/
def push (token : Token) (s : Scanner) : Scanner :=
  { s with queue := s.queue ++ [token] }

/-- Adds a token before the one with the given number. -/
def insert (number : Nat) (token : Token) (s : Scanner) : Scanner :=
  { s with queue := s.queue.insertIdx (number - s.taken) token }

/-- Moves over the indicator ahead and adds its token. -/
def pushIndicator (token : Token) (length : Nat) (s : Scanner) : Scanner :=
  { s.push token with cursor := s.cursor.skip length }

/-- Gives up the key places that can no longer turn out to be keys; none if one of them had to. -/
def dropStaleKeys (s : Scanner) : Option Scanner :=
  (s.keys.mapM check).map fun keys => { s with keys }
where
  check : Option KeyPlace → Option (Option KeyPlace)
    | none => some none
    | some key =>
      if key.line < s.cursor.line || key.index + 1024 < s.cursor.index then
        if key.required then none else some none
      else some (some key)

/-- Gives up the innermost key place; none if it had to be a key. -/
def dropKey (s : Scanner) : Option Scanner :=
  match s.keys with
  | some key :: rest => if key.required then none else some { s with keys := none :: rest }
  | _ => some s

/-- Notes that a key may begin here. -/
def noteKey (s : Scanner) : Option Scanner :=
  if s.keyAllowed then
    let key : KeyPlace :=
      { number := s.taken + s.queue.length
        index := s.cursor.index
        line := s.cursor.line
        column := s.cursor.column
        required := !s.inFlow && s.indent == s.cursor.column }
    (s.dropKey).map fun s => { s with keys := some key :: s.keys.drop 1 }
  else some s

/-- Opens a block collection at a column that lies to the right of the current one, with its token
before the one with the given number. -/
def openBlock (column : Nat) (number : Nat) (token : Token) (s : Scanner) : Scanner :=
  if !s.inFlow && s.indent < column then
    { s.insert number token with indent := column, outer := s.indent :: s.outer }
  else s

/-- Closes the block collections that lie to the right of a column. -/
def closeBlocks (column : Int) (s : Scanner) : Scanner :=
  if s.inFlow then s else go s.outer s
where
  go : List Int → Scanner → Scanner
    | [], s => s
    | before :: rest, s =>
      if s.indent > column then go rest { s.push .blockEnd with indent := before, outer := rest }
      else s

/-- Moves over white space, comments and line breaks to the next token. -/
def skipToToken : Nat → Scanner → Scanner
  | 0, s => s
  | fuel + 1, s =>
    let cursor := s.cursor
    let cursor :=
      if cursor.column == 0 && cursor.sees byteOrderMark 0 then cursor.skip 1 else cursor
    let cursor := cursor.skipWhile fun c => c == ' ' || (c == '\t' && (s.inFlow || !s.keyAllowed))
    let cursor := cursor.skipComment
    if (cursor.peek 0).any isBreak then
      skipToToken fuel
        { s with cursor := cursor.skipBreak, keyAllowed := s.keyAllowed || !s.inFlow }
    else { s with cursor }

/-- Ends the stream on a line of its own. -/
def endStream (s : Scanner) : Option Scanner :=
  let cursor := if s.cursor.column == 0 then s.cursor else s.cursor.breakLine 0
  ((s.closeBlocks (-1)).dropKey).map fun s =>
    { s.push .streamEnd with cursor, keyAllowed := false }

/-- Reads a directive line. -/
def readDirectiveLine (s : Scanner) : Option Scanner := do
  let s ← (s.closeBlocks (-1)).dropKey
  let (directive, cursor) ← readDirective s.limit s.cursor
  some { s.push (.directive directive) with cursor, keyAllowed := false }

/-- Reads a line that separates documents. -/
def readDocumentMarker (token : Token) (s : Scanner) : Option Scanner :=
  ((s.closeBlocks (-1)).dropKey).map fun s => { s.pushIndicator token 3 with keyAllowed := false }

/-- Opens a flow collection. -/
def openFlow (token : Token) (s : Scanner) : Option Scanner :=
  (s.noteKey).map fun s =>
    { s.pushIndicator token 1 with
      keyAllowed := true, keys := none :: s.keys, flow := s.flow + 1 }

/-- Closes a flow collection. -/
def closeFlow (token : Token) (s : Scanner) : Option Scanner :=
  (s.dropKey).map fun s =>
    { s.pushIndicator token 1 with
      keyAllowed := false
      keys := if s.inFlow then s.keys.drop 1 else s.keys
      flow := s.flow - 1 }

/-- Reads the comma between entries of a flow collection. -/
def readFlowEntry (s : Scanner) : Option Scanner :=
  (s.dropKey).map fun s => { s.pushIndicator .flowEntry 1 with keyAllowed := true }

/-- The number of the next token to be read. -/
def nextNumber (s : Scanner) : Nat :=
  s.taken + s.queue.length

/-- Reads the dash before an item of a block sequence. -/
def readBlockEntry (s : Scanner) : Option Scanner :=
  if !s.inFlow && !s.keyAllowed then none
  else
    ((s.openBlock s.cursor.column s.nextNumber .blockSequenceStart).dropKey).map fun s =>
      { s.pushIndicator .blockEntry 1 with keyAllowed := true }

/-- Reads the question mark before a key. -/
def readKey (s : Scanner) : Option Scanner :=
  if !s.inFlow && !s.keyAllowed then none
  else
    ((s.openBlock s.cursor.column s.nextNumber .blockMappingStart).dropKey).map fun s =>
      { s.pushIndicator .key 1 with keyAllowed := !s.inFlow }

/-- Reads the colon before a value. If a key place is open, what began there is the key. -/
def readValue (s : Scanner) : Option Scanner :=
  match s.keys with
  | some key :: rest =>
    let s := (s.insert key.number .key).openBlock key.column key.number .blockMappingStart
    some { s.pushIndicator .value 1 with keyAllowed := false, keys := none :: rest }
  | _ =>
    if !s.inFlow && !s.keyAllowed then none
    else
      let s := s.openBlock s.cursor.column s.nextNumber .blockMappingStart
      some { s.pushIndicator .value 1 with keyAllowed := !s.inFlow }

/-- Reads an alias or an anchor. -/
def readName (token : String → Token) (s : Scanner) : Option Scanner := do
  let s ← s.noteKey
  let (name, cursor) ← readAnchor (s.cursor.skip 1)
  some { s.push (token name) with cursor, keyAllowed := false }

/-- Reads a tag. -/
def readTagToken (s : Scanner) : Option Scanner := do
  let s ← s.noteKey
  let ((handle, suffix), cursor) ← readTag s.limit s.inFlow s.cursor
  some { s.push (.tag handle suffix) with cursor, keyAllowed := false }

/-- Reads a block scalar. -/
def readBlockScalar (folded : Bool) (s : Scanner) : Option Scanner := do
  let s ← s.dropKey
  let scanned ← readBlock s.limit folded s.indent (s.cursor.skip 1)
  some { s.push (.scalar (.ofList scanned.text) false) with
    cursor := scanned.cursor, keyAllowed := true }

/-- Reads a quoted scalar. -/
def readQuotedScalar (single : Bool) (s : Scanner) : Option Scanner := do
  let s ← s.noteKey
  let scanned ← readQuoted s.limit single [] s.limit (s.cursor.skip 1)
  some { s.push (.scalar (.ofList scanned.text) false) with
    cursor := scanned.cursor, keyAllowed := false }

/-- Reads a plain scalar. A line break at its end allows a key again. -/
def readPlainScalar (s : Scanner) : Option Scanner := do
  let s ← s.noteKey
  let scanned ← readPlain s.limit s.inFlow s.indent [] Gap.empty s.limit s.cursor
  some { s.push (.scalar (.ofList scanned.text) true) with
    cursor := scanned.cursor, keyAllowed := scanned.broken }

/-- A character that starts another token or none, so that no plain scalar starts with it. -/
def isIndicator (c : Char) : Bool :=
  "-?:,[]\x7b\x7d#&*!|>'\"%@\x60".toList.contains c

/-- Whether a plain scalar starts at the cursor. -/
def seesPlainScalar (s : Scanner) : Bool :=
  match s.cursor.peek 0 with
  | none => false
  | some c =>
    (!(isBlank c || isBreak c) && !isIndicator c)
      || (c == '-' && !(s.cursor.peek 1).any isBlank)
      || (!s.inFlow && (c == '?' || c == ':') && !s.cursor.seesGap 1)

/-- Reads the token at the cursor. -/
def readToken (s : Scanner) : Option Scanner :=
  match s.cursor.peek 0 with
  | none => s.endStream
  | some c =>
    if s.cursor.column == 0 && c == '%' then s.readDirectiveLine
    else if s.cursor.seesMarker '-' then s.readDocumentMarker .documentStart
    else if s.cursor.seesMarker '.' then s.readDocumentMarker .documentEnd
    else if c == '[' then s.openFlow .flowSequenceStart
    else if c == '\x7b' then s.openFlow .flowMappingStart
    else if c == ']' then s.closeFlow .flowSequenceEnd
    else if c == '\x7d' then s.closeFlow .flowMappingEnd
    else if c == ',' then s.readFlowEntry
    else if c == '-' && s.cursor.seesGap 1 then s.readBlockEntry
    else if c == '?' && (s.inFlow || s.cursor.seesGap 1) then s.readKey
    else if c == ':' && (s.inFlow || s.cursor.seesGap 1) then s.readValue
    else if c == '*' then s.readName .alias
    else if c == '&' then s.readName .anchor
    else if c == '!' then s.readTagToken
    else if c == '|' && !s.inFlow then s.readBlockScalar false
    else if c == '>' && !s.inFlow then s.readBlockScalar true
    else if c == '\'' then s.readQuotedScalar true
    else if c == '"' then s.readQuotedScalar false
    else if s.seesPlainScalar then s.readPlainScalar
    else none

/-- Reads the next token and whatever block ends come before it; none where the text is no YAML or
cannot be read on. -/
def fetch (s : Scanner) : Option Scanner :=
  if !s.started then some { s.push .streamStart with started := true }
  else do
    let s ← (s.skipToToken s.limit).dropStaleKeys
    let s := s.closeBlocks s.cursor.column
    guard (s.intact || !s.cursor.atEnd)
    let s ← s.readToken
    guard (s.intact || !s.cursor.atEnd)
    some s

/-- Whether the first token of the queue may still become part of a key. -/
def headUndecided (s : Scanner) : Bool :=
  s.keys.any fun key => key.any (·.number == s.taken)

/-- Reads tokens until the first one is known. -/
def ready : Nat → Scanner → Option Scanner
  | 0, s => some s
  | fuel + 1, s =>
    if s.queue.isEmpty then (s.fetch).bind (ready fuel)
    else
      match s.dropStaleKeys with
      | none => none
      | some s => if s.headUndecided then (s.fetch).bind (ready fuel) else some s

/-- The next token, still in the queue. -/
def peek (s : Scanner) : Option (Token × Scanner) :=
  match ready (s.limit + 2) s with
  | none => none
  | some s => s.queue.head?.map (·, s)

/-- Takes the token that `peek` showed. -/
def drop (s : Scanner) : Scanner :=
  { s with queue := s.queue.drop 1, taken := s.taken + 1 }

end Scanner

end RestModule.Yaml
