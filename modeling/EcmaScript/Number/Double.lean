/-!
# Double-precision numbers

Numbers of the binary format with 53 significant bits, as exact fractions: a finite number
is a mantissa times a power of two, counted in units of the smallest positive number. All
arithmetic is done on the exact values and rounded once, to the nearest number, with a tie
going to the even mantissa.
-/

namespace EcmaScript

/-- A double-precision number. In `finite` the value is `mantissa * 2 ^ scale` units; the
mantissa has at most 53 bits, and exactly 53 unless the scale is zero. -/
inductive Double where
  | nan
  | infinite (negative : Bool)
  | finite (negative : Bool) (mantissa scale : Nat)
deriving Repr, DecidableEq, Inhabited

namespace Double

/-- A power of two. -/
def twoPow (n : Nat) : Nat := Nat.pow 2 n

/-- One divided by the smallest positive number. -/
def unitsPerOne : Nat := twoPow 1074

/-- The quotient of two numbers, rounded to the nearest integer, a half to the even one. -/
def roundDiv (num den : Nat) : Nat :=
  let q := num / den
  let r := num % den
  if den < 2 * r || (2 * r == den && q % 2 == 1) then q + 1 else q

/-- The number nearest to `num / den`, infinite when it is out of range. -/
def ofRatio (negative : Bool) (num den : Nat) : Double :=
  let units := num * unitsPerOne
  let scale := Nat.log2 (units / den) - 52
  let mantissa := roundDiv units (den * twoPow scale)
  let (mantissa, scale) :=
    if mantissa = twoPow 53 then (twoPow 52, scale + 1) else (mantissa, scale)
  if scale ≤ 2045 then finite negative mantissa scale else infinite negative

/-- The number nearest to a natural number. -/
def ofNat (n : Nat) : Double := ofRatio false n 1

/-- The product with a natural number. -/
def mulNat (x : Double) (n : Nat) : Double :=
  match x with
  | finite negative mantissa scale => ofRatio negative (mantissa * twoPow scale * n) unitsPerOne
  | other => other

/-- The sum of a number that is not negative and a natural number. -/
def addNat (x : Double) (n : Nat) : Double :=
  match x with
  | finite negative mantissa scale =>
    ofRatio negative (mantissa * twoPow scale + n * unitsPerOne) unitsPerOne
  | other => other

/-- The value of a number that is an integer. -/
def toInt? : Double → Option Int
  | finite negative mantissa scale =>
    let units := mantissa * twoPow scale
    if units % unitsPerOne = 0 then
      let n : Int := (units / unitsPerOne : Nat)
      some (if negative then -n else n)
    else none
  | _ => none

/-- The 64 bits of the interchange format. -/
def bits : Double → Nat
  | nan => 0x7ff8 * twoPow 48
  | infinite negative => negative.toNat * twoPow 63 + 0x7ff * twoPow 52
  | finite negative mantissa scale =>
    negative.toNat * twoPow 63 +
      if mantissa < twoPow 52 then mantissa
      else (scale + 1) * twoPow 52 + (mantissa - twoPow 52)

end Double

end EcmaScript
