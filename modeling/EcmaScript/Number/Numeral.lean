import EcmaScript.Number.Decimal

/-!
# Values of numerals

The value of the text of a number literal. A radix marker, or a leading zero before octal
digits only, decides the radix; such a number is summed up digit by digit with rounding at
each step. All other texts are read as decimal numbers. The function is defined on any
text; what is no number has no value.
-/

namespace EcmaScript.Numeral

open Character

/-- The value of a digit of the given radix. -/
def digitValue? (radix : Nat) (c : Char) : Option Nat :=
  (hexValue? c).filter (· < radix)

/-- Sums up the digits of a radix, leaving out every other character. -/
def radixValue (radix : Nat) (cs : List Char) : Double :=
  (cs.filterMap (digitValue? radix)).foldl (fun acc d => (acc.mulNat radix).addNat d)
    (.finite false 0 0)

/-- The value of a text as a number literal. -/
def value (raw : String) : Double :=
  let cs := raw.toList.filter (· != '_')
  let decimal := (Decimal.parse? cs).getD .nan
  match cs with
  | '0' :: marker :: digits =>
    if marker == 'x' || marker == 'X' then radixValue 16 digits
    else if marker == 'o' || marker == 'O' then radixValue 8 digits
    else if marker == 'b' || marker == 'B' then radixValue 2 digits
    else if cs.all isOctalDigit then radixValue 8 (marker :: digits)
    else decimal
  | _ => decimal

end EcmaScript.Numeral
