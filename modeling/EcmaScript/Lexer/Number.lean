import EcmaScript.Character.Class
import EcmaScript.Lexer.Lexeme

/-!
# Numbers

Decimal numbers with fraction and exponent, numbers with a radix marker, and octal numbers
marked by a leading zero alone. Digits may be separated by single underscores; a misplaced
one is a fault but does not end the number. A number that runs into a name is no token.
-/

namespace EcmaScript.Lexer

open Character

/-- A run of digits and separators. -/
structure DigitRun where
  /-- How many digits there are. -/
  count : Nat
  /-- Whether there is a separator. -/
  separated : Bool
  /-- Misplaced separators. -/
  faults : List Fault
  /-- The place behind the run. -/
  stop : Cursor

/-- Reads digits that satisfy `valid`, behind `count` digits of the same run; `dangling` tells
whether the last character was a separator, `faults` holds the faults so far, the last
first. -/
def digitRun (valid : Char → Bool) (count : Nat) (separated dangling : Bool)
    (faults : List Fault) (offset : Nat) : List Char → DigitRun
  | [] => finish []
  | ch :: cs =>
    if ch == '_' then
      digitRun valid count true true
        (if count == 0 || dangling then ⟨.misplacedSeparator, offset⟩ :: faults else faults)
        (offset + 1) cs
    else if valid ch then
      digitRun valid (count + 1) separated false faults (offset + ch.utf8Size) cs
    else finish (ch :: cs)
where
  /-- The run ends here; a separator may not be the last of it. -/
  finish (rest : List Char) : DigitRun :=
    let faults := if dangling then ⟨.misplacedSeparator, offset - 1⟩ :: faults else faults
    ⟨count, separated, faults.reverse, ⟨offset, rest⟩⟩

/-- A run of digits leaves no more characters than there were. -/
theorem length_digitRun_le (valid : Char → Bool) (count : Nat) (separated dangling : Bool)
    (faults : List Fault) (offset : Nat) (cs : List Char) :
    (digitRun valid count separated dangling faults offset cs).stop.rest.length ≤ cs.length := by
  induction cs generalizing count separated dangling faults offset with
  | nil => simp [digitRun, digitRun.finish]
  | cons ch cs ih =>
    unfold digitRun
    split
    · exact Nat.le_succ_of_le (ih _ _ _ _ _)
    · split
      · exact Nat.le_succ_of_le (ih _ _ _ _ _)
      · simp [digitRun.finish]

private theorem length_digitRun_lt {valid : Char → Bool} {ch : Char} (h : valid ch = true)
    (count : Nat) (separated dangling : Bool) (faults : List Fault) (offset : Nat)
    (cs : List Char) :
    (digitRun valid count separated dangling faults offset (ch :: cs)).stop.rest.length <
      cs.length + 1 := by
  unfold digitRun
  have hl := length_digitRun_le
  grind

/-- The digits at a place. -/
def digits (valid : Char → Bool) (c : Cursor) : DigitRun :=
  digitRun valid 0 false false [] c.offset c.rest

/-- Digits leave no more characters than there were. -/
theorem length_digits_le (valid : Char → Bool) (c : Cursor) :
    (digits valid c).stop.rest.length ≤ c.rest.length :=
  length_digitRun_le ..

/-- Digits that are there leave fewer characters. -/
theorem length_digits_lt {valid : Char → Bool} {c : Cursor} {ch : Char} {cs : List Char}
    (h : c.rest = ch :: cs) (hv : valid ch = true) :
    (digits valid c).stop.rest.length < c.rest.length := by
  unfold digits
  rw [h]
  exact length_digitRun_lt hv ..

/-- A number as far as it is read. -/
structure NumberScan where
  /-- Whether it has neither fraction nor exponent. -/
  integer : Bool := true
  /-- What is remarkable about its spelling. -/
  flags : TokenFlags := {}
  /-- What is wrong with its spelling. -/
  faults : List Fault := []
  /-- The place behind what was read. -/
  stop : Cursor

namespace NumberScan

/-- The number with a run of digits behind it. -/
def withDigits (scan : NumberScan) (run : DigitRun) : NumberScan :=
  { scan with
    flags := { scan.flags with separated := scan.flags.separated || run.separated }
    faults := scan.faults ++ run.faults
    stop := run.stop }

/-- The number with a fraction, if a dot follows; a dot without digits is one too. -/
def fraction (scan : NumberScan) : NumberScan :=
  match scan.stop.rest with
  | '.' :: cs =>
    let behind := { scan with integer := false, stop := scan.stop.next }
    if cs.head?.any fun ch => isDigit ch || ch == '_' then
      behind.withDigits (digits isDigit behind.stop)
    else behind
  | _ => scan

/-- The place behind the letter of an exponent and its sign, if digits follow there. -/
def exponentStart? (c : Cursor) : Option Cursor :=
  match c.rest with
  | ch :: _ =>
    if ch == 'e' || ch == 'E' then
      let behind := c.next
      let behind :=
        if behind.rest.head?.any fun s => s == '+' || s == '-' then behind.next else behind
      if behind.rest.head?.any isDigit then some behind else none
    else none
  | [] => none

/-- The number with an exponent, if one follows; the letter alone is left over. -/
def exponent (scan : NumberScan) : NumberScan :=
  match exponentStart? scan.stop with
  | some start =>
    let scan := scan.withDigits (digits isDigit start)
    { scan with integer := false, flags := { scan.flags with scientific := true } }
  | none => scan

/-- A fraction leaves no more characters than there were. -/
theorem length_fraction_le (scan : NumberScan) :
    scan.fraction.stop.rest.length ≤ scan.stop.rest.length := by
  have hn := scan.stop.length_next_le
  have hd := length_digits_le isDigit scan.stop.next
  unfold fraction withDigits
  grind

/-- The mark of an exponent leaves no more characters than there were. -/
theorem length_exponentStart_le {c start : Cursor} (h : exponentStart? c = some start) :
    start.rest.length ≤ c.rest.length := by
  have hn := c.length_next_le
  have hnn := c.next.length_next_le
  unfold exponentStart? at h
  grind

/-- An exponent leaves no more characters than there were. -/
theorem length_exponent_le (scan : NumberScan) :
    scan.exponent.stop.rest.length ≤ scan.stop.rest.length := by
  unfold exponent
  split
  · rename_i start h
    exact Nat.le_trans (length_digits_le isDigit start) (length_exponentStart_le h)
  · simp

private theorem length_fraction_lt {scan : NumberScan} {cs : List Char}
    (h : scan.stop.rest = '.' :: cs) : scan.fraction.stop.rest.length < scan.stop.rest.length := by
  have hn := Cursor.length_next_lt h
  have hd := length_digits_le isDigit scan.stop.next
  unfold NumberScan.fraction NumberScan.withDigits
  grind

variable [NameClasses]

/-- The number that no token can be made of, with all that clings to it. -/
def illegal (scan : NumberScan) (start : Cursor) : Lexeme :=
  { kind := .illegal
    flags := scan.flags
    faults := scan.faults ++ [⟨.illegalToken, start.offset⟩]
    stop := scan.stop.skipWhile fun ch => isNamePart ch || ch == '\\' }

/-- The token of a number that was read from `start` on. A suffix makes it a big integer,
where one is allowed; a name, a digit or an escape must not follow. -/
def finish (scan : NumberScan) (start : Cursor) (bigIntAllowed : Bool) : Lexeme :=
  let isBig := bigIntAllowed && scan.stop.peek? == some 'n'
  let scan := if isBig then { scan with stop := scan.stop.next } else scan
  if scan.stop.peek?.any fun ch => isNameStart ch || isDigit ch || ch == '\\' then
    scan.illegal start
  else
    { kind := if isBig then .bigInt else .number
      value := start.textUntil scan.stop
      flags := scan.flags
      faults := scan.faults
      stop := scan.stop }

/-- What is illegal behind a number leaves no more characters than there were. -/
theorem length_illegal_le (scan : NumberScan) (start : Cursor) :
    (scan.illegal start).stop.rest.length ≤ scan.stop.rest.length :=
  Cursor.length_skipWhile_le _ _

/-- The end of a number leaves no more characters than there were. -/
theorem length_finish_le (scan : NumberScan) (start : Cursor) (bigIntAllowed : Bool) :
    (scan.finish start bigIntAllowed).stop.rest.length ≤ scan.stop.rest.length := by
  have hn := scan.stop.length_next_le
  have hi := length_illegal_le
  unfold finish
  grind

end NumberScan

variable [NameClasses]

/-- Reads a number behind a radix marker of two characters; at least one digit must follow. -/
def radixNumber (start : Cursor) (valid : Char → Bool) (flags : TokenFlags) : Lexeme :=
  let marker : NumberScan := { flags, stop := start.advance 2 }
  let run := digits valid marker.stop
  let scan := marker.withDigits run
  if run.count == 0 then scan.illegal start else scan.finish start true

/-- Reads a number with a leading zero before another digit: octal if all its digits are, a
decimal number otherwise. -/
def leadingZeroNumber (start : Cursor) : Lexeme :=
  let stop := start.skipWhile isDigit
  if (start.charsUntil stop).all isOctalDigit then
    NumberScan.finish { flags := { legacyOctal := true }, stop } start false
  else
    (NumberScan.fraction { stop }).exponent.finish start false

/-- Reads a decimal number, which may start with its dot. -/
def decimalNumber (start : Cursor) : Lexeme :=
  let whole : NumberScan :=
    if start.peek? == some '.' then { stop := start }
    else NumberScan.withDigits { stop := start } (digits isDigit start)
  let scan := whole.fraction.exponent
  scan.finish start scan.integer

/-- Reads a number from its first digit, or from the dot before it, on. -/
def numberLiteral (c : Cursor) : Lexeme :=
  match c.rest with
  | '0' :: ch :: _ =>
    if ch == 'x' || ch == 'X' then radixNumber c isHexDigit { hexadecimal := true }
    else if ch == 'o' || ch == 'O' then radixNumber c isOctalDigit { octal := true }
    else if ch == 'b' || ch == 'B' then radixNumber c isBinaryDigit { binary := true }
    else if isDigit ch then leadingZeroNumber c
    else decimalNumber c
  | _ => decimalNumber c

private theorem length_radixNumber_lt {start : Cursor} {ch : Char} {cs : List Char}
    (h : start.rest = ch :: cs) (valid : Char → Bool) (flags : TokenFlags) :
    (radixNumber start valid flags).stop.rest.length < start.rest.length := by
  have hn := Cursor.length_next_lt h
  have ha : (start.advance 2).rest.length ≤ start.next.rest.length :=
    Cursor.length_advance_le 1 start.next
  have hd := length_digits_le valid (start.advance 2)
  have hi := NumberScan.length_illegal_le
  have hf := NumberScan.length_finish_le
  unfold radixNumber NumberScan.withDigits
  grind

private theorem length_leadingZeroNumber_lt {start : Cursor} {ch : Char} {cs : List Char}
    (h : start.rest = ch :: cs) (hd : isDigit ch = true) :
    (leadingZeroNumber start).stop.rest.length < start.rest.length := by
  have hs := Cursor.length_skipWhile_lt h hd
  have hf := NumberScan.length_finish_le
  have hx := NumberScan.length_exponent_le
  have hr := NumberScan.length_fraction_le
  unfold leadingZeroNumber
  grind

private theorem length_decimalNumber_lt {start : Cursor} {ch : Char} {cs : List Char}
    (h : start.rest = ch :: cs) (hd : isDigit ch = true ∨ ch = '.') :
    (decimalNumber start).stop.rest.length < start.rest.length := by
  have hs := fun hv => @length_digits_lt isDigit start ch cs h hv
  have hf := NumberScan.length_finish_le
  have hx := NumberScan.length_exponent_le
  have hr := NumberScan.length_fraction_le
  have hp := fun h => @NumberScan.length_fraction_lt { stop := start } cs h
  unfold decimalNumber NumberScan.withDigits Cursor.peek?
  grind

/-- A number leaves fewer characters. -/
theorem length_numberLiteral_lt {c : Cursor} {ch : Char} {cs : List Char} (h : c.rest = ch :: cs)
    (hd : isDigit ch = true ∨ ch = '.') :
    (numberLiteral c).stop.rest.length < c.rest.length := by
  have hr := length_radixNumber_lt h
  have hz := length_leadingZeroNumber_lt h
  have hm := length_decimalNumber_lt h hd
  unfold numberLiteral
  grind

end EcmaScript.Lexer
