/-!
# Binary floating point numbers and exact fractions

A finite double is a whole number times a power of two. This module takes doubles apart and rounds an
exact fraction to the nearest double, a tie going to the even neighbour.
-/

namespace RestModule.Decimal

/-- The number `mantissa * 2 ^ exponent`. -/
structure Dyadic where
  mantissa : Nat
  exponent : Int

/-- Whether the sign bit of a double is set. -/
def isNegative (x : Float) : Bool :=
  x.toBits.toNat ≥ Nat.pow 2 63

/-- The biased exponent of a double. -/
def biasedExponent (x : Float) : Nat :=
  x.toBits.toNat / Nat.pow 2 52 % Nat.pow 2 11

/-- The fraction bits of a double. -/
def fractionBits (x : Float) : Nat :=
  x.toBits.toNat % Nat.pow 2 52

/-- Whether a double is neither infinite nor a non-number. -/
def isFinite (x : Float) : Bool :=
  biasedExponent x < 2047

/-- Whether a double is a non-number. -/
def isNotNumber (x : Float) : Bool :=
  biasedExponent x == 2047 && fractionBits x != 0

/-- The magnitude of a finite double. -/
def magnitude (x : Float) : Dyadic :=
  if biasedExponent x == 0 then ⟨fractionBits x, -1074⟩
  else ⟨Nat.pow 2 52 + fractionBits x, biasedExponent x - 1075⟩

/-- The double with a given sign, biased exponent and fraction; an overflowing fraction carries
into the exponent. -/
def assemble (negative : Bool) (biased fraction : Nat) : Float :=
  let sign := if negative then Nat.pow 2 63 else 0
  Float.ofBits (UInt64.ofNat (sign + biased * Nat.pow 2 52 + fraction))

/-- The quotient of two numbers rounded to the nearest whole number, a tie to the even one. -/
def roundHalfEven (num den : Nat) : Nat :=
  let whole := num / den
  let rest := 2 * (num % den)
  if rest > den || (rest == den && whole % 2 == 1) then whole + 1 else whole

/-- The fraction `num / den` times `2 ^ shift`, rounded. -/
def roundScaled (num den : Nat) (shift : Int) : Nat :=
  if shift ≥ 0 then roundHalfEven (num * Nat.pow 2 shift.toNat) den
  else roundHalfEven num (den * Nat.pow 2 (-shift).toNat)

/-- Whether `num / den` is at least `2 ^ e`. -/
def atLeastPower (num den : Nat) (e : Int) : Bool :=
  if e ≥ 0 then num ≥ den * Nat.pow 2 e.toNat else num * Nat.pow 2 (-e).toNat ≥ den

/-- The exponent of the largest power of two that is at most `num / den`. -/
def floorLog2 (num den : Nat) : Int :=
  let guess : Int := (num.log2 : Int) - den.log2
  if atLeastPower num den guess then guess else guess - 1

/-- The double nearest to a fraction, a tie going to the even one; too large a fraction is
infinite. -/
def nearest (negative : Bool) (num den : Nat) : Float :=
  if num == 0 then assemble negative 0 0
  else
    let e := floorLog2 num den
    if e > 1024 then assemble negative 2047 0
    else if e < -1022 then assemble negative 0 (roundScaled num den 1074)
    else
      let mantissa := roundScaled num den (52 - e)
      let biased := (e + 1023).toNat
      if biased ≥ 2047 || (biased == 2046 && mantissa ≥ Nat.pow 2 53) then assemble negative 2047 0
      else assemble negative biased (mantissa - Nat.pow 2 52)

/-- The double nearest to `digits * 10 ^ exponent`. The cut-offs only spare work: beyond them the
number is infinite, or less than half the smallest double. -/
def ofDecimal (negative : Bool) (digits : Nat) (exponent : Int) : Float :=
  if digits == 0 then assemble negative 0 0
  else
    let size : Int := digits.log2 / 4 + exponent
    let width : Int := digits.log2 / 3 + 1 + exponent
    if size > 310 then assemble negative 2047 0
    else if width < -330 then assemble negative 0 0
    else if exponent ≥ 0 then nearest negative (digits * Nat.pow 10 exponent.toNat) 1
    else nearest negative digits (Nat.pow 10 (-exponent).toNat)

end RestModule.Decimal
