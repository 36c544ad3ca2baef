import EcmaScript.Character.Class

/-!
# Scanning JSON

Moving over JSON values without keeping them, and reading the strings that matter. A string
that is skipped may have escapes for halves of surrogate pairs; in a string that is read,
they must come in pairs.
-/

namespace EcmaScript.Json.Scan

open Character

/-- The blanks between the tokens of JSON. -/
def isBlank (c : Char) : Bool := c == ' ' || c == '\n' || c == '\t' || c == '\r'

/-- What comes behind blanks. -/
def skipBlanks (cs : List Char) : List Char := cs.dropWhile isBlank

/-- What comes behind a given text. -/
def expect? (text : String) (cs : List Char) : Option (List Char) :=
  if text.toList.isPrefixOf cs then some (cs.drop text.length) else none

/-- What comes behind at least one digit. -/
def skipDigits? (cs : List Char) : Option (List Char) :=
  if cs.head?.any isDigit then some (cs.dropWhile isDigit) else none

/-- What comes behind an exponent, if there is one. -/
def skipExponent? : List Char → Option (List Char)
  | c :: cs =>
    if c == 'e' || c == 'E' then
      match cs with
      | '+' :: ds | '-' :: ds => skipDigits? ds
      | ds => skipDigits? ds
    else some (c :: cs)
  | [] => some []

/-- What comes behind a number without its sign. A zero is not followed by digits. -/
def skipUnsigned? (cs : List Char) : Option (List Char) := do
  let whole ← skipDigits? cs
  if cs.head? == some '0' && cs.tail.head?.any isDigit then none
  match whole with
  | '.' :: fraction => skipExponent? (← skipDigits? fraction)
  | rest => skipExponent? rest

/-- What comes behind a string, from behind its opening quote on. -/
def skipString? : List Char → Option (List Char)
  | '"' :: cs => some cs
  | '\\' :: 'u' :: a :: b :: c :: d :: cs =>
    if [a, b, c, d].all isHexDigit then skipString? cs else none
  | '\\' :: c :: cs => if "\"\\/bfnrt".toList.contains c then skipString? cs else none
  | c :: cs => if c == '\\' || c.toNat < 0x20 then none else skipString? cs
  | [] => none

/-- What comes behind a value that has no parts. -/
def skipScalar? (cs : List Char) : Option (List Char) :=
  match cs with
  | '"' :: more => skipString? more
  | '-' :: more => skipUnsigned? more
  | 'n' :: _ => expect? "null" cs
  | 't' :: _ => expect? "true" cs
  | 'f' :: _ => expect? "false" cs
  | _ => skipUnsigned? cs

/-- The two kinds of values that have parts. -/
inductive Bracket where
  | array | object
deriving DecidableEq

/-- The character that closes a value. -/
def Bracket.close : Bracket → Char
  | array => ']'
  | object => '\x7d'

/-- The value that a character opens. -/
def Bracket.ofOpen? : Char → Option Bracket
  | '[' => some array
  | '\x7b' => some object
  | _ => none

/-- What comes behind the key of a member and its colon. -/
def skipKey? (cs : List Char) : Option (List Char) := do
  let inner ← expect? "\"" (skipBlanks cs)
  expect? ":" (skipBlanks (← skipString? inner))

/-- Where the next part of a value of a given kind starts. -/
def skipToPart? (bracket : Bracket) (cs : List Char) : Option (List Char) :=
  match bracket with
  | .array => some cs
  | .object => skipKey? cs

mutual

/-- What comes behind a value and the values that it stands in, the innermost first. Each step
takes a character, so that `fuel` need not exceed their number. -/
def skipParts? : Nat → List Bracket → List Char → Option (List Char)
  | 0, _, _ => none
  | fuel + 1, around, cs =>
    match skipBlanks cs with
    | [] => none
    | c :: more =>
      match Bracket.ofOpen? c with
      | none => do closeParts? fuel around (← skipScalar? (c :: more))
      | some bracket =>
        if (skipBlanks more).head? == some bracket.close then
          closeParts? fuel around (skipBlanks more).tail
        else do skipParts? fuel (bracket :: around) (← skipToPart? bracket more)

/-- What comes behind the values around one that has just ended. -/
def closeParts? : Nat → List Bracket → List Char → Option (List Char)
  | _, [], cs => some cs
  | 0, _ :: _, _ => none
  | fuel + 1, bracket :: around, cs =>
    match skipBlanks cs with
    | [] => none
    | c :: more =>
      if c == ',' then do skipParts? fuel (bracket :: around) (← skipToPart? bracket more)
      else if c == bracket.close then closeParts? fuel around more
      else none

end

/-- What comes behind a value. -/
def skipValue? (cs : List Char) : Option (List Char) := skipParts? (cs.length + 1) [] cs

/-- The number that four hexadecimal digits spell, and what comes behind them. -/
def readUnit? : List Char → Option (Nat × List Char)
  | a :: b :: c :: d :: cs => do
    let digits ← [a, b, c, d].mapM hexValue?
    return (digits.foldl (· * 16 + ·) 0, cs)
  | _ => none

/-- The character that an escape means, from behind its backslash on. -/
def readEscape? : List Char → Option (Char × List Char)
  | 'u' :: cs => do
    let (unit, rest) ← readUnit? cs
    if 0xdc00 ≤ unit && unit ≤ 0xdfff then none
    else if 0xd800 ≤ unit && unit ≤ 0xdbff then
      let (low, rest) ← readUnit? (← expect? "\\u" rest)
      if 0xdc00 ≤ low && low ≤ 0xdfff then
        some (Char.ofNat (0x10000 + (unit - 0xd800) * 0x400 + (low - 0xdc00)), rest)
      else none
    else some (Char.ofNat unit, rest)
  | 'b' :: cs => some ('\x08', cs)
  | 'f' :: cs => some ('\x0c', cs)
  | 'n' :: cs => some ('\n', cs)
  | 'r' :: cs => some ('\r', cs)
  | 't' :: cs => some ('\t', cs)
  | c :: cs => if c == '"' || c == '\\' || c == '/' then some (c, cs) else none
  | [] => none

/-- The characters of a string, from behind its opening quote on, and what comes behind it.
Each character that is meant takes at least one that is written, so `fuel` need not exceed
their number. -/
def readString? : Nat → List Char → Option (List Char × List Char)
  | 0, _ => none
  | _ + 1, [] => none
  | fuel + 1, c :: cs =>
    if c == '"' then some ([], cs)
    else if c.toNat < 0x20 then none
    else do
      let (meant, rest) ← if c == '\\' then readEscape? cs else some (c, cs)
      let (text, rest) ← readString? fuel rest
      return (meant :: text, rest)

end EcmaScript.Json.Scan
