import EcmaScript.Json.Basic
import EcmaScript.Number.Shortest

/-!
# JSON as text

JSON on one line, or spread over lines with two blanks for each level. In strings only
quotes, backslashes and control characters are escaped. A double has the fewest digits that
are read back as it; it is written with a point when the digits start at most five places
behind the point or end at most sixteen places before it, and with an exponent otherwise.
An exponent always has a sign.
-/

namespace EcmaScript.Json

/-- A hexadecimal digit in lower case. -/
def hexDigit (n : Nat) : Char := (Nat.toDigits 16 n).headD '0'

/-- A character as it is written in a string. -/
def escapeChar (c : Char) : List Char :=
  match c with
  | '"' => ['\\', '"']
  | '\\' => ['\\', '\\']
  | '\x08' => ['\\', 'b']
  | '\x0c' => ['\\', 'f']
  | '\n' => ['\\', 'n']
  | '\r' => ['\\', 'r']
  | '\t' => ['\\', 't']
  | c =>
    if c.toNat < 0x20 then
      ['\\', 'u', '0', '0', hexDigit (c.toNat / 16), hexDigit (c.toNat % 16)]
    else [c]

/-- A string in quotes. -/
def quote (s : String) : String :=
  "\"" ++ String.ofList (s.toList.flatMap escapeChar) ++ "\""

/-- An exponent with its sign. -/
def exponentText (n : Int) : List Char :=
  ['e', if n < 0 then '-' else '+'] ++ Nat.toDigits 10 n.natAbs

/-- Digits with a point or an exponent. -/
def decimalText (d : Decimal.Scientific) : String :=
  let digits := Nat.toDigits 10 d.mantissa
  let count : Int := digits.length
  let point := count + d.exponent
  let zeros (n : Int) := List.replicate n.toNat '0'
  String.ofList <|
    if 0 ≤ d.exponent && point ≤ 16 then digits ++ zeros d.exponent ++ ['.', '0']
    else if 0 < point && point ≤ 16 then
      digits.take point.toNat ++ '.' :: digits.drop point.toNat
    else if -5 < point && point ≤ 0 then '0' :: '.' :: zeros (-point) ++ digits
    else
      let power := exponentText (point - 1)
      match digits with
      | [digit] => digit :: power
      | digit :: more => digit :: '.' :: more ++ power
      | [] => power

/-- A double; what is not finite has no JSON form but `null`. -/
def doubleText : Double → String
  | .finite negative mantissa scale =>
    let sign := if negative then "-" else ""
    if mantissa = 0 then sign ++ "0.0" else sign ++ decimalText (Shortest.ofDouble mantissa scale)
  | _ => "null"

/-- A value without parts. -/
def scalarText : Json → String
  | null => "null"
  | bool b => if b then "true" else "false"
  | integer n => toString n
  | double x => doubleText x
  | string s => quote s
  | array _ | object _ => ""

mutual

/-- JSON on one line. -/
def compact : Json → String
  | array items => "[" ++ compactItems items ++ "]"
  | object members => "\x7b" ++ compactMembers members ++ "\x7d"
  | scalar => scalar.scalarText

/-- Items with commas between them. -/
def compactItems : List Json → String
  | [] => ""
  | [item] => item.compact
  | item :: more => item.compact ++ "," ++ compactItems more

/-- Members with commas between them. -/
def compactMembers : List (String × Json) → String
  | [] => ""
  | [(key, value)] => quote key ++ ":" ++ value.compact
  | (key, value) :: more => quote key ++ ":" ++ value.compact ++ "," ++ compactMembers more

end

/-- A new line at a given level. -/
def newLine (level : Nat) : String := "\n" ++ String.ofList (List.replicate (2 * level) ' ')

mutual

/-- JSON over several lines; empty arrays and objects take none. -/
def pretty (level : Nat) : Json → String
  | array [] => "[]"
  | array items => "[" ++ prettyItems (level + 1) items ++ newLine level ++ "]"
  | object [] => "\x7b\x7d"
  | object members => "\x7b" ++ prettyMembers (level + 1) members ++ newLine level ++ "\x7d"
  | scalar => scalar.scalarText

/-- Items, each on a new line. -/
def prettyItems (level : Nat) : List Json → String
  | [] => ""
  | [item] => newLine level ++ item.pretty level
  | item :: more => newLine level ++ item.pretty level ++ "," ++ prettyItems level more

/-- Members, each on a new line. -/
def prettyMembers (level : Nat) : List (String × Json) → String
  | [] => ""
  | [(key, value)] => newLine level ++ quote key ++ ": " ++ value.pretty level
  | (key, value) :: more =>
    newLine level ++ quote key ++ ": " ++ value.pretty level ++ "," ++ prettyMembers level more

end

end EcmaScript.Json
