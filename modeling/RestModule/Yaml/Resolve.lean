import RestModule.Document.Node
import RestModule.Json.Number
import RestModule.Json.Text
import RestModule.Yaml.Tag

/-!
# What a scalar stands for

A plain scalar is null, a truth value or a number if it is written like one, and a text otherwise; a
tag of the core kinds asks for one of these, and a quoted scalar is a text.
-/

namespace RestModule.Yaml

/-- Whether a scalar is written as null. -/
def isNullText (s : String) : Bool :=
  s == "null" || s == "Null" || s == "NULL" || s == "~"

/-- The truth value that a scalar writes. -/
def boolOf? (s : String) : Option Bool :=
  if s == "true" || s == "True" || s == "TRUE" then some true
  else if s == "false" || s == "False" || s == "FALSE" then some false
  else none

/-- The number that digits of a base write; there must be at least one. -/
def numberIn? (base : Nat) (digits : List Char) : Option Nat :=
  if digits.isEmpty then none
  else digits.foldl (fun value c => do return (← value) * base + (← digit c)) (some 0)
where
  digit (c : Char) : Option Nat :=
    (Json.hexValue? c).bind fun value => if value < base then some value else none

/-- The magnitude that a scalar without a sign writes, in base two, eight, ten or sixteen. -/
def magnitude? : List Char → Option Nat
  | '0' :: 'x' :: digits => numberIn? 16 digits
  | '0' :: 'o' :: digits => numberIn? 8 digits
  | '0' :: 'b' :: digits => numberIn? 2 digits
  | digits => numberIn? 10 digits

/-- A text without one sign in front. -/
def dropSign : List Char → List Char
  | '+' :: rest | '-' :: rest => rest
  | text => text

/-- Whether a scalar has digits only, the first of several a zero; it is a text. -/
def hasLeadingZero (text : List Char) : Bool :=
  match dropSign text with
  | '0' :: c :: rest => (c :: rest).all Char.isDigit
  | _ => false

/-- The whole number that a scalar writes. -/
def intOf? (text : List Char) : Option Int :=
  if hasLeadingZero text then none
  else
    match text with
    | '+' :: rest => (magnitude? rest).map Int.ofNat
    | '-' :: rest => (magnitude? rest).map fun n => -(n : Int)
    | _ => (magnitude? text).map Int.ofNat

/-- Digits with decimals and an exponent, as digits without a point and their power of ten. -/
def decimalOf? (text : List Char) : Option (Nat × Int) :=
  let whole := text.takeWhile Char.isDigit
  let rest := text.dropWhile Char.isDigit
  let (decimals, rest) := match rest with
    | '.' :: rest => (rest.takeWhile Char.isDigit, rest.dropWhile Char.isDigit)
    | _ => ([], rest)
  if whole.isEmpty && decimals.isEmpty then none
  else
    let digits := Json.digitsValue (whole ++ decimals)
    let places : Int := decimals.length
    match rest with
    | [] => some (digits, -places)
    | mark :: rest =>
      if mark != 'e' && mark != 'E' then none
      else
        let exponent := dropSign rest
        if exponent.isEmpty || !exponent.all Char.isDigit then none
        else
          let power : Int := Json.digitsValue exponent
          some (digits, (if rest.head? == some '-' then -power else power) - places)

/-- The finite double that a scalar with at most one sign writes. -/
def finiteOf? (text : List Char) : Option Float :=
  match decimalOf? (dropSign text) with
  | none => none
  | some (digits, exponent) =>
    let value := Decimal.ofDecimal (text.head? == some '-') digits exponent
    if Decimal.isFinite value then some value else none

/-- The double that a scalar writes. -/
def floatOf? (text : List Char) : Option Float :=
  let s := String.ofList text
  if [".inf", ".Inf", ".INF", "+.inf", "+.Inf", "+.INF"].contains s then
    some (Decimal.assemble false 2047 0)
  else if ["-.inf", "-.Inf", "-.INF"].contains s then some (Decimal.assemble true 2047 0)
  else if [".nan", ".NaN", ".NAN"].contains s then some (Decimal.assemble false 2047 (Nat.pow 2 51))
  else finiteOf? text

/-- Whether a whole number fits 64 bits, with or without a sign. -/
def fitsWord (n : Int) : Bool :=
  -Int.ofNat (Nat.pow 2 63) ≤ n && n < Int.ofNat (Nat.pow 2 64)

/-- Whether a whole number fits 128 bits, with or without a sign. -/
def fitsDoubleWord (n : Int) : Bool :=
  -Int.ofNat (Nat.pow 2 127) ≤ n && n < Int.ofNat (Nat.pow 2 128)

/-- The node of a whole number, if it is one: a number of more than 64 bits that fits 128 is refused
(the inner `none`), and a longer one is not taken as whole. -/
def intNode? (text : List Char) : Option (Option Node) :=
  match intOf? text with
  | none => none
  | some n =>
    if fitsWord n then some (some (.int n))
    else if fitsDoubleWord n then some none
    else none

/-- The node of a plain scalar without a tag; none if it is a number that is refused. -/
def plainNode? (s : String) : Option Node :=
  if s.isEmpty || isNullText s then some .null
  else
    match boolOf? s with
    | some b => some (.bool b)
    | none =>
      match intNode? s.toList with
      | some node => node
      | none =>
        if hasLeadingZero s.toList then some (.text s)
        else
          match floatOf? s.toList with
          | some value => some (.float value)
          | none => some (.text s)

/-- The name of a local tag, one that starts with an exclamation mark. -/
def localTag? (tag : String) : Option String :=
  match tag.toList with
  | ['!'] => some "!"
  | '!' :: rest => some (.ofList rest)
  | _ => none

/-- The node of a scalar with a tag that is not local; none if the scalar does not fit it. -/
def taggedNode? (tag s : String) : Option Node :=
  if tag == coreTagStart ++ "bool" then (boolOf? s).map .bool
  else if tag == coreTagStart ++ "int" then (intNode? s.toList).bind id
  else if tag == coreTagStart ++ "float" then (floatOf? s.toList).map .float
  else if tag == coreTagStart ++ "null" then if isNullText s then some .null else none
  else some (.text s)

/-- The node of a scalar; none if it is refused. A local tag is kept apart from the value below
it. -/
def scalarNode? (tag : Option String) (s : String) (plain : Bool) : Option Node :=
  match tag with
  | some tag =>
    match localTag? tag with
    | some name => (untagged s plain).map (.tagged name)
    | none => taggedNode? tag s
  | none => untagged s plain
where
  untagged (s : String) (plain : Bool) : Option Node :=
    if plain then plainNode? s else some (.text s)

end RestModule.Yaml
