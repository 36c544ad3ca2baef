/-!
# Character classes

The classes of characters that the lexer distinguishes. All of them are decided by the
character alone. Which characters beyond ASCII belong in names is a matter of the Unicode
data; the two classes in question are taken as given, with what is known about them.
-/

namespace EcmaScript.Character

/-- Line terminators: line feed, carriage return, line separator, paragraph separator. -/
def isLineBreak (c : Char) : Bool :=
  c == '\n' || c == '\r' || c == '\u2028' || c == '\u2029'

/-- White space that does not end a line; the byte order mark is among it. -/
def isBlank (c : Char) : Bool :=
  c == ' ' || c == '\t' || c == '\x0b' || c == '\x0c' || c == '\u00a0' || c == '\u1680' ||
    ('\u2000' ≤ c && c ≤ '\u200a') || c == '\u202f' || c == '\u205f' || c == '\u3000' ||
    c == '\ufeff'

/-- Decimal digits. -/
def isDigit (c : Char) : Bool := '0' ≤ c && c ≤ '9'

/-- Octal digits. -/
def isOctalDigit (c : Char) : Bool := '0' ≤ c && c ≤ '7'

/-- Binary digits. -/
def isBinaryDigit (c : Char) : Bool := c == '0' || c == '1'

/-- The value of a hexadecimal digit of either case. -/
def hexValue? (c : Char) : Option Nat :=
  if '0' ≤ c && c ≤ '9' then some (c.toNat - '0'.toNat)
  else if 'a' ≤ c && c ≤ 'f' then some (c.toNat - 'a'.toNat + 10)
  else if 'A' ≤ c && c ≤ 'F' then some (c.toNat - 'A'.toNat + 10)
  else none

/-- Hexadecimal digits of either case. -/
def isHexDigit (c : Char) : Bool := (hexValue? c).isSome

/-- ASCII letters. -/
def isAsciiLetter (c : Char) : Bool := ('a' ≤ c && c ≤ 'z') || ('A' ≤ c && c ≤ 'Z')

/-- The classes of Unicode from which the characters of names beyond ASCII are taken. -/
class NameClasses where
  /-- The property `XID_Start`. -/
  isXidStart : Char → Bool
  /-- The property `XID_Continue`. -/
  isXidContinue : Char → Bool

/-- What the Unicode data warrants about the two classes. -/
class NameClasses.Lawful [NameClasses] : Prop where
  /-- What may begin a name may also continue one. -/
  continue_of_start : ∀ c, isXidStart c = true → isXidContinue c = true
  /-- White space does not begin a name. -/
  not_blank_of_start : ∀ c, isXidStart c = true → isBlank c = false
  /-- A line terminator does not begin a name. -/
  not_lineBreak_of_start : ∀ c, isXidStart c = true → isLineBreak c = false

section

variable [NameClasses]

/-- Characters that may begin a name. -/
def isNameStart (c : Char) : Bool :=
  c == '_' || c == '$' || isAsciiLetter c || (0x7F < c.toNat && NameClasses.isXidStart c)

/-- Characters that may continue a name; the two zero-width joiners are among them. -/
def isNamePart (c : Char) : Bool :=
  c == '_' || c == '$' || isAsciiLetter c || isDigit c || c == '\u200c' || c == '\u200d' ||
    (0x7F < c.toNat && NameClasses.isXidContinue c)

/-- What begins a name may stand anywhere in one. -/
theorem isNamePart_of_isNameStart [NameClasses.Lawful] {c : Char} (h : isNameStart c = true) :
    isNamePart c = true := by
  have hc := NameClasses.Lawful.continue_of_start c
  simp only [isNameStart, isNamePart, Bool.or_eq_true, Bool.and_eq_true] at h ⊢
  grind

end

end EcmaScript.Character
