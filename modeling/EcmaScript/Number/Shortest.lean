import EcmaScript.Number.Decimal

/-!
# Shortest decimals

The decimal number with the fewest digits that is read back as a given double. The decimals
that are read back as it form an interval around the double, whose ends belong to it if the
mantissa is even. For each number of digits only the two neighbours of the double among the
decimals with so many digits have to be tried.
-/

namespace EcmaScript.Shortest

/-- The number of decimal digits of a natural number. -/
def digitCount (n : Nat) : Nat := (Nat.toDigits 10 n).length

/-- A positive double with the interval of the numbers that are rounded to it, all as multiples
of a quarter of the unit of doubles. -/
structure Target where
  /-- The double itself. -/
  value : Nat
  /-- The lower end of the interval. -/
  low : Nat
  /-- The upper end of the interval. -/
  high : Nat
  /-- Whether the ends belong to the interval. -/
  closed : Bool

/-- How many quarters of a unit are one. -/
def quartersPerOne : Nat := 4 * Double.unitsPerOne

/-- The interval around a positive double. Below a power of two the doubles lie twice as
close. -/
def Target.ofDouble (mantissa scale : Nat) : Target :=
  let unit := Double.twoPow scale
  let below := if mantissa = Double.twoPow 52 && scale != 0 then unit else 2 * unit
  { value := 4 * mantissa * unit
    low := 4 * mantissa * unit - below
    high := 4 * mantissa * unit + 2 * unit
    closed := mantissa % 2 == 0 }

/-- The number of digits before the decimal point; for a fraction, zero or less by the number
of zeros behind the point. -/
def Target.magnitude (t : Target) : Int :=
  if quartersPerOne ≤ t.value then digitCount (t.value / quartersPerOne)
  else 1 - (digitCount ((quartersPerOne + t.value - 1) / t.value - 1) : Int)

/-- Whether `candidate / den` times the quarters that make one lies in the interval. -/
def Target.contains (t : Target) (candidate num den : Nat) : Bool :=
  let place := candidate * quartersPerOne * den
  if t.closed then t.low * num ≤ place && place ≤ t.high * num
  else t.low * num < place && place < t.high * num

/-- The nearer neighbour with `n` digits that is read back as the double, if there is one; of
two that are equally near, the even one. -/
def Target.withDigits? (t : Target) (n : Nat) : Option Decimal.Scientific :=
  let exponent := t.magnitude - n
  let num := Decimal.tenPow (-exponent).toNat
  let den := Decimal.tenPow exponent.toNat
  let whole := quartersPerOne * den
  let below := t.value * num / whole
  let gap := t.value * num % whole
  let belowFirst := 2 * gap < whole || (2 * gap == whole && below % 2 == 0)
  let order := if belowFirst then [below, below + 1] else [below + 1, below]
  (order.find? (t.contains · num den)).map (⟨·, exponent⟩)

/-- A decimal without zeros at the end of its digits. -/
def trim : Nat → Decimal.Scientific → Decimal.Scientific
  | 0, d => d
  | fuel + 1, d =>
    if d.mantissa % 10 = 0 then trim fuel ⟨d.mantissa / 10, d.exponent + 1⟩ else d

/-- The shortest decimal that is read back as a positive double; seventeen digits always
suffice. -/
def ofDouble (mantissa scale : Nat) : Decimal.Scientific :=
  let t := Target.ofDouble mantissa scale
  trim 17 (((List.range 17).findSome? fun n => t.withDigits? (n + 1)).getD ⟨0, 0⟩)

end EcmaScript.Shortest
