import RestModule.Text.Case
import RestModule.Text.Split

/-!
# Names in generated sources

Identifiers made from arbitrary names of an API description, the class names built on them, and the
first free name among numbered variants.
-/

namespace RestModule.Naming

open Text

/-- `s` with its first character in upper case. -/
def capitalize (s : String) : String :=
  .ofList (upperFirst s.toList)

/-- `s` with its first character in lower case. -/
def decapitalize (s : String) : String :=
  .ofList (lowerFirst s.toList)

/-- An ASCII letter or digit. -/
def isAsciiAlphanum (c : Char) : Bool :=
  c.isAlphanum

/-- The words of a name: its longest runs of ASCII letters and digits. -/
def words (s : List Char) : List (List Char) :=
  (pieces (!isAsciiAlphanum ·) s).filter (!·.isEmpty)

/-- `_` in front of a text that begins with a digit. -/
def guardDigit : List Char → List Char
  | [] => []
  | c :: rest => if c.isDigit then '_' :: c :: rest else c :: rest

/-- The words of a name in lower camel case (`product-option` becomes `productOption`). -/
def camelCase (s : String) : String :=
  match words s.toList with
  | [] => ""
  | first :: rest => .ofList (guardDigit (lowerFirst first ++ rest.flatMap upperFirst))

/-- The words that Java keeps for itself, the lone underscore among them. -/
def reserved : List String :=
  ["_", "abstract", "assert", "boolean", "break", "byte", "case", "catch", "char", "class",
    "const", "continue", "default", "do", "double", "else", "enum", "extends", "false", "final",
    "finally", "float", "for", "goto", "if", "implements", "import", "instanceof", "int",
    "interface", "long", "native", "new", "null", "package", "private", "protected", "public",
    "return", "short", "static", "strictfp", "super", "switch", "synchronized", "this", "throw",
    "throws", "transient", "true", "try", "void", "volatile", "while"]

/-- A character an identifier may begin with. -/
def isIdentifierStart (c : Char) : Bool :=
  c.isAlpha || c == '_' || c == '$'

/-- A character an identifier may go on with. -/
def isIdentifierPart (c : Char) : Bool :=
  c.isAlphanum || c == '_' || c == '$'

/-- Whether a text is made of identifier characters and does not begin with a digit. -/
def isIdentifier (s : String) : Bool :=
  match s.toList with
  | [] => false
  | c :: rest => isIdentifierStart c && rest.all isIdentifierPart

/-- Whether a text is a dotted sequence of identifiers. -/
def isPackage (s : String) : Bool :=
  (splitAt '.' s).all isIdentifier

/-- A name itself if it is made of identifier characters, else its words in camel case, else
`value`. -/
def identifierBase (name : String) : String :=
  if isIdentifier name then name
  else
    let camel := camelCase name
    if camel.isEmpty then "value" else camel

/-- A Java identifier for a name; reserved words get an underscore in front. -/
def identifier (name : String) : String :=
  let base := identifierBase name
  if base ∈ reserved then "_" ++ base else base

/-- The class generated for a component. -/
def modelClass (component : String) : String :=
  capitalize (identifierBase component) ++ "DTO"

/-- The interface generated for a resource. -/
def interfaceClass (resource : String) : String :=
  capitalize resource ++ "Resource"

/-- The implementation generated for a resource. -/
def implementationClass (resource : String) : String :=
  capitalize resource ++ "ResourceImpl"

/-- The variants of a name: the name itself, then the name with `_1`, `_2`, .. after it. -/
def variant (name : String) : Nat → String
  | 0 => name
  | k + 1 => name ++ "_" ++ Nat.repr (k + 1)

/-- The first variant from the `k`-th on, among `fuel` many, whose key is not taken. -/
def searchFree (key : String → String) (taken : List String) (name : String) : Nat → Nat → String
  | 0, k => variant name k
  | fuel + 1, k =>
    if key (variant name k) ∈ taken then searchFree key taken name fuel (k + 1)
    else variant name k

/-- The first variant of a name whose key is not taken; one more candidate than taken keys is
enough, as variants have distinct keys. -/
def firstFreeBy (key : String → String) (taken : List String) (name : String) : String :=
  searchFree key taken name taken.length 0

/-- The first variant of a name that is not taken. -/
def firstFree (taken : List String) (name : String) : String :=
  firstFreeBy id taken name

/-- Each name replaced by its first variant whose key no earlier result has. -/
def distinctBy (key : String → String) : List String → List String → List String
  | _, [] => []
  | taken, name :: rest =>
    let chosen := firstFreeBy key taken name
    chosen :: distinctBy key (key chosen :: taken) rest

end RestModule.Naming
