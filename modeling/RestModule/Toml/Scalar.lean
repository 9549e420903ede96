import RestModule.Text.Split
import RestModule.Toml.Table

/-!
# Plain values in TOML

Truth values, numbers and moments, which are written without quotes.
-/

namespace RestModule.Toml

/-- Digits in groups with single underscores between them. -/
def isGrouped (isDigit : Char → Bool) (text : List Char) : Bool :=
  (Text.pieces (· == '_') text).all fun group => !group.isEmpty && group.all isDigit

/-- The text without a sign in front. -/
def dropSign : List Char → List Char
  | '+' :: rest => rest
  | '-' :: rest => rest
  | text => text

/-- A number without sign, fraction and exponent; no zero stands in front of other digits. -/
def isWhole : List Char → Bool
  | ['0'] => true
  | '0' :: _ => false
  | text => isGrouped Char.isDigit text

/-- The exponent of a number, after its letter. -/
def isExponent (text : List Char) : Bool :=
  isGrouped Char.isDigit (dropSign text)

/-- Whether a letter begins an exponent. -/
def isExponentLetter (c : Char) : Bool :=
  c == 'e' || c == 'E'

/-- The part of a number before the exponent. -/
def isMantissa (text : List Char) : Bool :=
  match Text.cutAt? '.' text with
  | some (whole, fraction) => isWhole whole && isGrouped Char.isDigit fraction
  | none => isWhole text

/-- A number in base ten without its sign. -/
def isDecimal (text : List Char) : Bool :=
  let mantissa := text.takeWhile (!isExponentLetter ·)
  match text.drop mantissa.length with
  | [] => isMantissa mantissa
  | _ :: exponent => isMantissa mantissa && isExponent exponent

/-- A hexadecimal digit. -/
def isHexDigit (c : Char) : Bool :=
  c.isDigit || ('a' ≤ c && c ≤ 'f') || ('A' ≤ c && c ≤ 'F')

/-- A number. -/
def isNumber (text : List Char) : Bool :=
  match text with
  | '0' :: 'x' :: digits => isGrouped isHexDigit digits
  | '0' :: 'o' :: digits => isGrouped (fun c => '0' ≤ c && c ≤ '7') digits
  | '0' :: 'b' :: digits => isGrouped (fun c => c == '0' || c == '1') digits
  | text =>
    let bare := dropSign text
    bare == "inf".toList || bare == "nan".toList || isDecimal bare

/-- The number that two digits write. -/
def twoDigits? (a b : Char) : Option Nat :=
  if a.isDigit && b.isDigit then some (10 * (a.toNat - '0'.toNat) + (b.toNat - '0'.toNat)) else none

/-- Whether two digits write a number between two bounds. -/
def isBetween (low high : Nat) (a b : Char) : Bool :=
  (twoDigits? a b).any fun n => low ≤ n && n ≤ high

/-- The days of a month. -/
def daysIn (year month : Nat) : Nat :=
  if month == 2 then
    if (year % 4 == 0 && year % 100 != 0) || year % 400 == 0 then 29 else 28
  else if month == 4 || month == 6 || month == 9 || month == 11 then 30
  else 31

/-- A date: year, month and day. -/
def isDate : List Char → Bool
  | [y1, y2, y3, y4, '-', m1, m2, '-', d1, d2] =>
    match twoDigits? y1 y2, twoDigits? y3 y4, twoDigits? m1 m2 with
    | some high, some low, some month =>
      1 ≤ month && month ≤ 12 && isBetween 1 (daysIn (100 * high + low) month) d1 d2
    | _, _, _ => false
  | _ => false

/-- A time of the day; seconds may be missing. -/
def isTime : List Char → Bool
  | [h1, h2, ':', m1, m2] => isBetween 0 23 h1 h2 && isBetween 0 59 m1 m2
  | h1 :: h2 :: ':' :: m1 :: m2 :: ':' :: s1 :: s2 :: fraction =>
    isBetween 0 23 h1 h2 && isBetween 0 59 m1 m2 && isBetween 0 60 s1 s2
      && match fraction with
        | [] => true
        | '.' :: digits => !digits.isEmpty && digits.all Char.isDigit
        | _ => false
  | _ => false

/-- A distance from universal time. -/
def isOffset : List Char → Bool
  | ['Z'] => true
  | ['z'] => true
  | [sign, h1, h2, ':', m1, m2] =>
    (sign == '+' || sign == '-') && isBetween 0 23 h1 h2 && isBetween 0 59 m1 m2
  | _ => false

/-- A time of the day that an offset may follow. -/
def isOffsetTime (text : List Char) : Bool :=
  let time := text.takeWhile fun c => c.isDigit || c == ':' || c == '.'
  let offset := text.drop time.length
  isTime time && (offset.isEmpty || isOffset offset)

/-- A date, a time, or both with a letter between them. -/
def isMoment (text : List Char) : Bool :=
  isDate text || isTime text
    || (isDate (text.take 10)
      && match text.drop 10 with
        | c :: time => (c == 'T' || c == 't') && isOffsetTime time
        | [] => false)

/-- A character of a plain value. -/
def isPlainChar (c : Char) : Bool :=
  c.isAlphanum || c == '+' || c == '-' || c == '_' || c == '.' || c == ':'

/-- The time after a date that a single blank separates from it. -/
def timeAfterDate? (rest : List Char) : Option (List Char) :=
  match rest with
  | ' ' :: c :: more => if c.isDigit then some ((c :: more).takeWhile isPlainChar) else none
  | _ => none

/-- Reads a plain value. -/
def readPlain (text : List Char) : Option (Value × List Char) :=
  let word := text.takeWhile isPlainChar
  let rest := text.drop word.length
  if word == "true".toList then some (.bool true, rest)
  else if word == "false".toList then some (.bool false, rest)
  else if isDate word then
    match timeAfterDate? rest with
    | some time =>
      if isOffsetTime time then some (.moment, rest.drop (time.length + 1)) else none
    | none => some (.moment, rest)
  else if isMoment word then some (.moment, rest)
  else if isNumber word then some (.number, rest)
  else none

end RestModule.Toml
