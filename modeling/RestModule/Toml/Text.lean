import RestModule.Json.Text

/-!
# Texts in TOML

Quoted texts of one line or several, with escapes between double quotes and none between single ones.
-/

namespace RestModule.Toml

/-- A blank between the parts of a line. -/
def isBlank (c : Char) : Bool :=
  c == ' ' || c == '\t'

/-- A character that a line may hold: no control character but the tab. -/
def isLineChar (c : Char) : Bool :=
  c == '\t' || (' ' ≤ c && c != '\x7f')

/-- The number that hexadecimal digits write. -/
def hexNumber? (digits : List Char) : Option Nat :=
  digits.foldlM (fun n c => (Json.hexValue? c).map (16 * n + ·)) 0

/-- The character of a code point written in so many hexadecimal digits, and the text after it. -/
def readCode (count : Nat) (text : List Char) : Option (Char × List Char) :=
  if text.length < count then none
  else
    match hexNumber? (text.take count) with
    | some n => if n.isValidChar then some (Char.ofNat n, text.drop count) else none
    | none => none

/-- The character that an escape stands for, read after its backslash. -/
def readEscape : List Char → Option (Char × List Char)
  | 'b' :: rest => some ('\x08', rest)
  | 't' :: rest => some ('\t', rest)
  | 'n' :: rest => some ('\n', rest)
  | 'f' :: rest => some ('\x0c', rest)
  | 'r' :: rest => some ('\r', rest)
  | 'e' :: rest => some ('\x1b', rest)
  | '"' :: rest => some ('"', rest)
  | '\\' :: rest => some ('\\', rest)
  | 'x' :: rest => readCode 2 rest
  | 'u' :: rest => readCode 4 rest
  | 'U' :: rest => readCode 8 rest
  | _ => none

/-- Puts a character in front of what is read after it. -/
def before (c : Char) (more : Option (List Char × List Char)) : Option (List Char × List Char) :=
  more.map fun (chars, rest) => (c :: chars, rest)

/-- Reads a text of one line up to its closing double quote. -/
def readBasic : Nat → List Char → Option (List Char × List Char)
  | 0, _ => none
  | _, [] => none
  | fuel + 1, c :: rest =>
    if c == '"' then some ([], rest)
    else if c == '\\' then
      match readEscape rest with
      | some (c, rest) => before c (readBasic fuel rest)
      | none => none
    else if isLineChar c then before c (readBasic fuel rest)
    else none

/-- Reads a text of one line up to its closing single quote. -/
def readLiteral : List Char → Option (List Char × List Char)
  | [] => none
  | c :: rest =>
    if c == '\'' then some ([], rest)
    else if isLineChar c then before c (readLiteral rest)
    else none

/-- The text after the line break it begins with, if it begins with one. -/
def afterBreak? : List Char → Option (List Char)
  | '\n' :: rest => some rest
  | '\r' :: '\n' :: rest => some rest
  | _ => none

/-- The text after the blanks and line breaks it begins with. -/
def skipBreaks : List Char → List Char
  | '\n' :: rest => skipBreaks rest
  | '\r' :: '\n' :: rest => skipBreaks rest
  | c :: rest => if isBlank c then skipBreaks rest else c :: rest
  | [] => []

/-- The end of a text of several lines, if the text stands at one: three quotes, which up to two
quotes of the text itself may precede. -/
def readEnd (quote : Char) (text : List Char) : Option (Option (List Char × List Char)) :=
  let run := (text.takeWhile (· == quote)).length
  if run < 3 then none
  else if run ≤ 5 then some (some (List.replicate (run - 3) quote, text.drop run))
  else some none

/-- Reads a text of several lines up to its closing double quotes. -/
def readLongBasic : Nat → List Char → Option (List Char × List Char)
  | 0, _ => none
  | fuel + 1, text =>
    match readEnd '"' text with
    | some result => result
    | none =>
      match text with
      | [] => none
      | '\\' :: rest =>
        match afterBreak? (rest.dropWhile isBlank) with
        | some rest => readLongBasic fuel (skipBreaks rest)
        | none =>
          match readEscape rest with
          | some (c, rest) => before c (readLongBasic fuel rest)
          | none => none
      | '\r' :: '\n' :: rest => before '\r' (before '\n' (readLongBasic fuel rest))
      | c :: rest =>
        if isLineChar c || c == '\n' then before c (readLongBasic fuel rest) else none

/-- Reads a text of several lines up to its closing single quotes. -/
def readLongLiteral : Nat → List Char → Option (List Char × List Char)
  | 0, _ => none
  | fuel + 1, text =>
    match readEnd '\'' text with
    | some result => result
    | none =>
      match text with
      | [] => none
      | '\r' :: '\n' :: rest => before '\r' (before '\n' (readLongLiteral fuel rest))
      | c :: rest =>
        if isLineChar c || c == '\n' then before c (readLongLiteral fuel rest) else none

/-- Reads a quoted text; the first line break of a text of several lines does not belong to it. -/
def readQuoted (text : List Char) : Option (List Char × List Char) :=
  let inner (rest : List Char) := (afterBreak? rest).getD rest
  match text with
  | '"' :: '"' :: '"' :: rest => readLongBasic (rest.length + 1) (inner rest)
  | '"' :: rest => readBasic (rest.length + 1) rest
  | '\'' :: '\'' :: '\'' :: rest => readLongLiteral (rest.length + 1) (inner rest)
  | '\'' :: rest => readLiteral rest
  | _ => none

end RestModule.Toml
