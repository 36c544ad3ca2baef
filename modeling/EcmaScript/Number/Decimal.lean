import EcmaScript.Character.Class
import EcmaScript.Number.Double

/-!
# Decimal numbers

Reading a number in decimal notation: an optional sign, digits with at most one dot among
or around them, and an optional exponent; or one of the words for infinity and for what is
no number, in any case. The result is the double nearest to the number that is written.
-/

namespace EcmaScript.Decimal

open Character

/-- The number that decimal digits spell, behind those that spell `value`. -/
def digitsValue (value : Nat) : List Char → Nat
  | [] => value
  | d :: ds => digitsValue (value * 10 + (d.toNat - '0'.toNat)) ds

/-- A text without the sign it starts with, and whether that is a minus. -/
def splitSign : List Char → Bool × List Char
  | '-' :: cs => (true, cs)
  | '+' :: cs => (false, cs)
  | cs => (false, cs)

/-- The exponent that a text consists of: nothing at all, or the letter `e` and an integer. -/
def exponent? : List Char → Option Int
  | [] => some 0
  | e :: cs =>
    if e == 'e' || e == 'E' then
      let (negative, ds) := splitSign cs
      if ds.isEmpty || !ds.all isDigit then none
      else
        let n : Int := digitsValue 0 ds
        some (if negative then -n else n)
    else none

/-- A power of ten. -/
def tenPow (n : Nat) : Nat := Nat.pow 10 n

/-- An unsigned decimal number: `mantissa * 10 ^ exponent`. -/
structure Scientific where
  /-- The digits before and behind the dot, as one number. -/
  mantissa : Nat
  /-- The power of ten to multiply them by. -/
  exponent : Int

/-- Reads an unsigned number, which has a digit before or behind the dot. -/
def scientific? (cs : List Char) : Option Scientific :=
  let whole := cs.takeWhile isDigit
  let rest := cs.dropWhile isDigit
  let (fraction, rest) :=
    match rest with
    | '.' :: more => (more.takeWhile isDigit, more.dropWhile isDigit)
    | _ => ([], rest)
  if whole.isEmpty && fraction.isEmpty then none
  else
    (exponent? rest).map fun e => ⟨digitsValue 0 (whole ++ fraction), e - fraction.length⟩

/-- The double nearest to a decimal number. Numbers that are out of range whatever their
digits are not worked out. -/
def Scientific.toDouble (n : Scientific) (negative : Bool) : Double :=
  if n.mantissa = 0 then .finite negative 0 0
  else
    let digitCount : Int := (Nat.toDigits 10 n.mantissa).length
    if 400 < digitCount + n.exponent then .infinite negative
    else if digitCount + n.exponent < -400 then .finite negative 0 0
    else if 0 ≤ n.exponent then .ofRatio negative (n.mantissa * tenPow n.exponent.toNat) 1
    else .ofRatio negative n.mantissa (tenPow (-n.exponent).toNat)

/-- Reads a signed number; nothing when the text is no number. -/
def parse? (cs : List Char) : Option Double :=
  let (negative, rest) := splitSign cs
  match scientific? rest with
  | some n => some (n.toDouble negative)
  | none =>
    let letters := rest.map Char.toLower
    if letters = "inf".toList || letters = "infinity".toList then some (.infinite negative)
    else if letters = "nan".toList then some .nan
    else none

end EcmaScript.Decimal
