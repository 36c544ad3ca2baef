import EcmaScript.Character.Class
import EcmaScript.Lexer.Lexeme

/-!
# Regular expressions

A regular expression literal ends at the first slash that is neither escaped nor inside a
character class. Its content is not looked at; of its flags only the letters are checked.
-/

namespace EcmaScript.Lexer

open Character

/-- Moves to the slash that closes a regular expression, or to the line break or the end of
the text that comes before it. -/
def regexBody (inClass : Bool) (offset : Nat) : List Char → Cursor
  | [] => ⟨offset, []⟩
  | '\\' :: c :: cs =>
    if isLineBreak c then ⟨offset + 1, c :: cs⟩
    else regexBody inClass (offset + 1 + c.utf8Size) cs
  | c :: cs =>
    if isLineBreak c || (c == '/' && !inClass) then ⟨offset, c :: cs⟩
    else regexBody (if c == '[' then true else if c == ']' then false else inClass)
      (offset + c.utf8Size) cs

/-- The body of a regular expression leaves no more characters than there were. -/
theorem length_regexBody_le (inClass : Bool) (offset : Nat) (cs : List Char) :
    (regexBody inClass offset cs).rest.length ≤ cs.length := by
  fun_induction regexBody inClass offset cs <;> grind

/-- Whether the flags are known letters, each at most once, and not both Unicode modes. -/
def validRegexFlags (flags : List Char) : Bool :=
  flags.all ("dgimsuyv".toList.contains ·) && flags.Nodup &&
    !(flags.contains 'u' && flags.contains 'v')

variable [NameClasses]

/-- Reads a regular expression literal from its opening slash on. -/
def regexLiteral (c : Cursor) : Lexeme :=
  let start := c.next
  let body := regexBody false start.offset start.rest
  match body.rest with
  | '/' :: _ =>
    let flagsStart := body.next
    let stop := flagsStart.skipWhile isNamePart
    let flags := flagsStart.charsUntil stop
    { kind := .regex
      value := start.textUntil body
      raw := String.ofList flags
      faults := if validRegexFlags flags then [] else [⟨.regexFlags, flagsStart.offset⟩]
      stop }
  | _ =>
    { kind := .regex
      value := start.textUntil body
      flags := { unterminated := true }
      faults := [⟨.unterminatedRegex, c.offset⟩]
      stop := body }

/-- A regular expression leaves fewer characters. -/
theorem length_regexLiteral_lt {c : Cursor} {ch : Char} {cs : List Char} (h : c.rest = ch :: cs) :
    (regexLiteral c).stop.rest.length < c.rest.length := by
  have hn := Cursor.length_next_lt h
  have hb := length_regexBody_le false c.next.offset c.next.rest
  have hbn := (regexBody false c.next.offset c.next.rest).length_next_le
  have hs := Cursor.length_skipWhile_le isNamePart
    (regexBody false c.next.offset c.next.rest).next
  unfold regexLiteral
  grind

end EcmaScript.Lexer
