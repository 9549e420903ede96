import RestModule.Distinct

/-!
# Templates

A template is a text with placeholders `$\x7bNAME\x7d`, whose names are made of capital letters, digits
and underscores. Rendering replaces each placeholder that has a value, in a single pass: values are not
looked through again, and placeholders without a value stay as they are.
-/

namespace RestModule.Template

/-- A character of a placeholder's name. -/
def isNameChar (c : Char) : Bool :=
  c.isUpper || c.isDigit || c == '_'

/-- A part of a template. -/
inductive Piece where
  | char (c : Char)
  | placeholder (name : List Char)

/-- The beginning of a placeholder that has been seen so far. -/
inductive Opening where
  | none
  | dollar
  | brace (name : List Char)

/-- The text of a beginning. -/
def Opening.text : Opening → List Char
  | none => []
  | dollar => ['$']
  | brace name => '$' :: '\x7b' :: name

/-- The pieces of a template after a beginning of a placeholder. -/
def piecesAfter (opening : Opening) : List Char → List Piece
  | [] => opening.text.map .char
  | c :: rest =>
    match opening with
    | .none =>
      if c == '$' then piecesAfter .dollar rest else .char c :: piecesAfter .none rest
    | .dollar =>
      if c == '\x7b' then piecesAfter (.brace []) rest
      else if c == '$' then .char '$' :: piecesAfter .dollar rest
      else .char '$' :: .char c :: piecesAfter .none rest
    | .brace name =>
      if c == '\x7d' && !name.isEmpty then .placeholder name :: piecesAfter .none rest
      else if isNameChar c then piecesAfter (.brace (name ++ [c])) rest
      else if c == '$' then opening.text.map .char ++ piecesAfter .dollar rest
      else opening.text.map .char ++ .char c :: piecesAfter .none rest

/-- The pieces of a template. -/
def pieces (template : String) : List Piece :=
  piecesAfter .none template.toList

/-- The text of a piece as a template has it. -/
def Piece.source : Piece → List Char
  | char c => [c]
  | placeholder name => '$' :: '\x7b' :: name ++ ['\x7d']

/-- The text that a piece is replaced with. -/
def Piece.rendered (values : List (String × String)) : Piece → List Char
  | char c => [c]
  | placeholder name =>
    match values.lookup (.ofList name) with
    | some value => value.toList
    | none => (placeholder name).source

/-- A template with its placeholders replaced. -/
def render (template : String) (values : List (String × String)) : String :=
  .ofList ((pieces template).flatMap (·.rendered values))

/-- The name of a placeholder. -/
def Piece.name? : Piece → Option String
  | char _ => none
  | placeholder name => some (.ofList name)

/-- The names of a template's placeholders, each once, in order of appearance. -/
def placeholders (template : String) : List String :=
  addNames [] ((pieces template).filterMap (·.name?))

end RestModule.Template
