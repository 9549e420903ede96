import RestModule.Decimal.Binary

/-!
# Shortest decimal digits

The fewest decimal digits that read back as a given double, and of those the ones nearest to it. For
each digit count the two neighbours of the number on that decimal grid are tested against the
interval of reals that round to the double.
-/

namespace RestModule.Decimal

/-- The number `digits * 10 ^ exponent`. -/
structure Digits where
  digits : Nat
  exponent : Int

/-- The reals that round to a double: `low / den` to `high / den` around `mid / den`, the ends
included when `closed`. -/
structure Interval where
  low : Nat
  mid : Nat
  high : Nat
  den : Nat
  closed : Bool

/-- The interval of a positive double. Below a power of two the lower neighbour is half as far. -/
def Interval.of (x : Dyadic) : Interval :=
  let narrow := x.mantissa == Nat.pow 2 52 && x.exponent > -1074
  let low := 4 * x.mantissa - (if narrow then 1 else 2)
  let e := x.exponent - 2
  let scale := Nat.pow 2 e.toNat
  { low := low * scale
    mid := 4 * x.mantissa * scale
    high := (4 * x.mantissa + 2) * scale
    den := Nat.pow 2 (-e).toNat
    closed := x.mantissa % 2 == 0 }

/-- Whether `digits * 10 ^ exponent` lies in an interval. -/
def Interval.has (i : Interval) (digits : Nat) (exponent : Int) : Bool :=
  let num := digits * Nat.pow 10 exponent.toNat * i.den
  let scale := Nat.pow 10 (-exponent).toNat
  if i.closed then i.low * scale ≤ num && num ≤ i.high * scale
  else i.low * scale < num && num < i.high * scale

/-- The exponent of the smallest power of ten above the middle of an interval. The middle is moved
up by 330 places, which makes a whole number of at least one digit of every double. -/
def Interval.width (i : Interval) : Int :=
  (Nat.toDigits 10 (i.mid * Nat.pow 10 330 / i.den)).length - 330

/-- The neighbour of the middle on the grid `10 ^ exponent` that lies in the interval, the nearer
one if both do, the even one if they are equally near. -/
def Interval.onGrid? (i : Interval) (exponent : Int) : Option Nat :=
  let num := i.mid * Nat.pow 10 (-exponent).toNat
  let den := i.den * Nat.pow 10 exponent.toNat
  let below := num / den
  let rest := 2 * (num % den)
  match i.has below exponent && below != 0, i.has (below + 1) exponent with
  | true, true =>
    if rest < den || (rest == den && below % 2 == 0) then some below else some (below + 1)
  | true, false => some below
  | false, true => some (below + 1)
  | false, false => none

/-- The first grid hit with `count` digits or more, among `fuel` counts. -/
def Interval.search (i : Interval) (width : Int) : Nat → Nat → Digits
  | 0, _ => ⟨0, 0⟩
  | fuel + 1, count =>
    match i.onGrid? (width - count) with
    | some digits => ⟨digits, width - count⟩
    | none => i.search width fuel (count + 1)

/-- Digits without zeros at their end; at most `fuel` are removed. -/
def dropZeros : Nat → Digits → Digits
  | 0, d => d
  | fuel + 1, d =>
    if d.digits != 0 && d.digits % 10 == 0 then dropZeros fuel ⟨d.digits / 10, d.exponent + 1⟩
    else d

/-- The shortest digits of the magnitude of a finite double; seventeen are always enough. -/
def shortest (x : Float) : Digits :=
  let m := magnitude x
  if m.mantissa == 0 then ⟨0, 0⟩
  else
    let i := Interval.of m
    dropZeros 20 (i.search i.width 17 1)

end RestModule.Decimal
