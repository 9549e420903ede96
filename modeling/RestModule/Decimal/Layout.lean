import RestModule.Decimal.Shortest

/-!
# Numbers as text

The two layouts in which a double is written: as a number of a document, which always shows that it is
no whole number type, and plainly, without an exponent.
-/

namespace RestModule.Decimal

/-- `n` zeros. -/
def zeros (n : Nat) : List Char :=
  List.replicate n '0'

/-- Digits written positionally: the whole part and the decimals. -/
def Digits.positional (d : Digits) : List Char × List Char :=
  let text := Nat.toDigits 10 d.digits
  if d.exponent ≥ 0 then (text ++ zeros d.exponent.toNat, [])
  else
    let places := (-d.exponent).toNat
    if places < text.length then (text.take (text.length - places), text.drop (text.length - places))
    else (['0'], zeros (places - text.length) ++ text)

/-- The power of ten of the first digit. -/
def Digits.leading (d : Digits) : Int :=
  (Nat.toDigits 10 d.digits).length - 1 + d.exponent

/-- A whole number with its sign always written. -/
def signed (n : Int) : List Char :=
  (if n < 0 then '-' else '+') :: Nat.toDigits 10 n.natAbs

/-- Digits with an exponent: one digit before the point, no point without decimals. -/
def Digits.scientific (d : Digits) : List Char :=
  match Nat.toDigits 10 d.digits with
  | [] => []
  | [digit] => digit :: 'e' :: signed d.leading
  | digit :: more => digit :: '.' :: more ++ 'e' :: signed d.leading

/-- The sign of a double, as a text. -/
def signText (x : Float) : List Char :=
  if isNegative x then ['-'] else []

/-- A finite double as a number of a document: positional with at least one decimal from `1e-5` up to
below `1e16`, and with an exponent elsewhere. -/
def numberText (x : Float) : String :=
  let d := shortest x
  .ofList <| signText x ++
    if d.digits == 0 then "0.0".toList
    else if -5 ≤ d.leading && d.leading < 16 then
      let (whole, decimals) := d.positional
      whole ++ '.' :: (if decimals.isEmpty then ['0'] else decimals)
    else d.scientific

/-- A double without an exponent and without needless decimals; the non-finite ones by name. -/
def plainText (x : Float) : String :=
  if isNotNumber x then "NaN"
  else .ofList <| signText x ++
    if !isFinite x then "inf".toList
    else
      let (whole, decimals) := (shortest x).positional
      if decimals.isEmpty then whole else whole ++ '.' :: decimals

end RestModule.Decimal
