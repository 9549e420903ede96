import RestModule.Document.Node

/-!
# Numbers in JSON

A number without decimals and exponent is whole as long as it fits 64 bits. Any other one is a
double, computed from at most nineteen or twenty leading digits by one multiplication or division
with a power of ten; digits that no longer fit only count for the exponent.
-/

namespace RestModule.Json

/-- The value of a decimal digit. -/
def digitValue (c : Char) : Nat :=
  c.toNat - '0'.toNat

/-- Whether a text begins with a digit. -/
def startsWithDigit : List Char → Bool
  | c :: _ => c.isDigit
  | [] => false

/-- Appends digits to a number as long as it stays below `2 ^ 64`: the number, the count of digits
appended, and the text that follows. -/
def takeDigits (significand : Nat) : List Char → Nat × Nat × List Char
  | [] => (significand, 0, [])
  | c :: rest =>
    if c.isDigit && significand * 10 + digitValue c < Nat.pow 2 64 then
      let (final, count, after) := takeDigits (significand * 10 + digitValue c) rest
      (final, count + 1, after)
    else (significand, 0, c :: rest)

/-- `10 ^ n` as a double. -/
def powerOfTen (n : Nat) : Float :=
  Decimal.nearest false (Nat.pow 10 n) 1

/-- Multiplies or divides by a power of ten, in steps of `1e308` while it is too small for one
division; none if the result is too large. -/
def scale (value : Float) (exponent : Int) : Nat → Option Float
  | 0 => some value
  | fuel + 1 =>
    if exponent.natAbs ≤ 308 then
      if exponent ≥ 0 then
        let product := value * powerOfTen exponent.toNat
        if Decimal.isFinite product then some product else none
      else some (value / powerOfTen exponent.natAbs)
    else if value == 0 then some value
    else if exponent ≥ 0 then none
    else scale (value / powerOfTen 308) (exponent + 308) fuel

/-- The double for a significand and an exponent. -/
def compose (negative : Bool) (significand : Nat) (exponent : Int) : Option Float :=
  (scale (Decimal.nearest false significand 1) exponent (exponent.natAbs / 308 + 2)).map fun value =>
    if negative then -value else value

/-- The number that a sequence of digits writes. -/
def digitsValue (digits : List Char) : Nat :=
  digits.foldl (fun value c => value * 10 + digitValue c) 0

/-- Reads what follows an exponent mark. An exponent beyond 32 bits makes zero of a zero and of a
negative exponent, and is refused otherwise. -/
def readExponent (negative : Bool) (significand : Nat) (start : Int) (text : List Char) :
    Option (Float × List Char) :=
  let (down, text) :=
    match text with
    | '+' :: rest => (false, rest)
    | '-' :: rest => (true, rest)
    | _ => (false, text)
  let digits := text.takeWhile Char.isDigit
  let rest := text.dropWhile Char.isDigit
  let exponent := digitsValue digits
  if digits.isEmpty then none
  else if exponent ≥ Nat.pow 2 31 then
    if significand != 0 && !down then none
    else some (Decimal.assemble negative 0 0, rest)
  else
    (compose negative significand (if down then start - exponent else start + exponent)).map
      (·, rest)

/-- Reads an exponent if there is one. -/
def readScaled (negative : Bool) (significand : Nat) (exponent : Int) (text : List Char) :
    Option (Float × List Char) :=
  match text with
  | 'e' :: rest | 'E' :: rest => readExponent negative significand exponent rest
  | _ => (compose negative significand exponent).map (·, text)

/-- Reads what follows a decimal point. -/
def readDecimals (negative : Bool) (significand : Nat) (exponent : Int) (text : List Char) :
    Option (Float × List Char) :=
  let (significand, count, rest) := takeDigits significand text
  if count == 0 && !startsWithDigit rest then none
  else readScaled negative significand (exponent - count) (rest.dropWhile Char.isDigit)

/-- A whole number as a node: within 64 bits it stays whole, but a negative zero does not. -/
def wholeNode (negative : Bool) (significand : Nat) : Node :=
  if !negative then .int significand
  else if significand == 0 || significand > Nat.pow 2 63 then
    .float (-(Decimal.nearest false significand 1))
  else .int (-significand)

/-- Reads a number after its sign. -/
def readUnsigned (negative : Bool) (text : List Char) : Option (Node × List Char) :=
  match text with
  | '0' :: c :: _ => if c.isDigit then none else number text
  | _ => if startsWithDigit text then number text else none
where
  number (text : List Char) : Option (Node × List Char) :=
    let (significand, _, rest) := takeDigits 0 text
    let skipped := rest.takeWhile Char.isDigit
    let after := rest.dropWhile Char.isDigit
    let exponent : Int := skipped.length
    match after with
    | '.' :: more =>
      (readDecimals negative significand exponent more).map fun (value, rest) => (.float value, rest)
    | 'e' :: more | 'E' :: more =>
      (readExponent negative significand exponent more).map fun (value, rest) => (.float value, rest)
    | _ =>
      if skipped.isEmpty then some (wholeNode negative significand, after)
      else (compose negative significand exponent).map fun value => (.float value, after)

/-- Reads a number. -/
def readNumber : List Char → Option (Node × List Char)
  | '-' :: rest => readUnsigned true rest
  | text => readUnsigned false text

end RestModule.Json
