import EcmaScript.Character.Class
import EcmaScript.Diagnostic.Problem
import EcmaScript.Text.Cursor

/-!
# Escape sequences

Reading what follows a backslash in a string, a template or a name. An escape stands for no
character (a line continuation), for one character, or is malformed; in each case reading
goes on behind the part of it that was understood.
-/

namespace EcmaScript.Lexer

open Character

/-- A run of hexadecimal digits. -/
structure HexRun where
  /-- The number that the digits spell. -/
  value : Nat
  /-- How many digits there are. -/
  count : Nat
  /-- The place behind the digits. -/
  stop : Cursor

/-- Reads the longest run of hexadecimal digits, after `count`
digits that spell `value`. -/
def hexRun (value count offset : Nat) : List Char → HexRun
  | [] => ⟨value, count, ⟨offset, []⟩⟩
  | c :: cs =>
    match hexValue? c with
    | some d => hexRun (value * 16 + d) (count + 1) (offset + c.utf8Size) cs
    | none => ⟨value, count, ⟨offset, c :: cs⟩⟩

/-- Hexadecimal digits leave no more characters than there were. -/
theorem length_stop_hexRun_le (value count offset : Nat) (cs : List Char) :
    (hexRun value count offset cs).stop.rest.length ≤ cs.length := by
  induction cs generalizing value count offset with
  | nil => simp [hexRun]
  | cons c cs ih =>
    unfold hexRun
    split
    · exact Nat.le_succ_of_le (ih _ _ _)
    · simp

/-- The value of exactly `n` hexadecimal digits at the start of a text. -/
def hexDigits? (value : Nat) : Nat → List Char → Option Nat
  | 0, _ => some value
  | _ + 1, [] => none
  | n + 1, c :: cs =>
    match hexValue? c with
    | some d => hexDigits? (value * 16 + d) n cs
    | none => none

/-- The last code point. -/
def lastCodePoint : Nat := 0x10FFFF

/-- Reads the code point of a Unicode escape from behind its `u`: four digits, or any number
of digits between braces. -/
def codePoint (c : Cursor) : Except Problem Nat × Cursor :=
  match c.rest with
  | '\x7b' :: cs =>
    let run := hexRun 0 0 (c.offset + 1) cs
    match run.count, run.stop.rest with
    | _ + 1, '\x7d' :: _ =>
      (if run.value ≤ lastCodePoint then .ok run.value else .error .undefinedCodePoint,
        run.stop.next)
    | _, _ => (.error .unicodeEscape, run.stop)
  | cs =>
    match hexDigits? 0 4 cs with
    | some value => (.ok value, c.advance 4)
    | none => (.error .unicodeEscape, c)

/-- A code point leaves no more characters than there were. -/
theorem length_codePoint_le (c : Cursor) : (codePoint c).2.rest.length ≤ c.rest.length := by
  unfold codePoint
  split
  · rename_i cs h
    have hr := length_stop_hexRun_le 0 0 (c.offset + 1) cs
    have hn := (hexRun 0 0 (c.offset + 1) cs).stop.length_next_le
    simp only
    split <;> simp_all <;> omega
  · split
    · exact c.length_advance_le 4
    · simp

/-- The character with a given code; a surrogate, which is none, becomes the replacement
character. -/
def charOfCode (code : Nat) : Char :=
  if code.isValidChar then Char.ofNat code else '\ufffd'

/-- Whether a code is the first half of a surrogate pair. -/
def isHighSurrogate (code : Nat) : Bool := 0xD800 ≤ code && code < 0xDC00

/-- Whether a code is the second half of a surrogate pair. -/
def isLowSurrogate (code : Nat) : Bool := 0xDC00 ≤ code && code < 0xE000

/-- The code point that a surrogate pair stands for. -/
def joinSurrogates (high low : Nat) : Nat := 0x10000 + (high - 0xD800) * 1024 + (low - 0xDC00)

/-- The character of an escaped code point. The first half of a surrogate pair takes the
second half with it when an escape for that follows at once. -/
def joinedChar (code : Nat) (c : Cursor) : Char × Cursor :=
  match c.rest with
  | '\\' :: 'u' :: cs =>
    if isHighSurrogate code then
      match codePoint ⟨c.offset + 2, cs⟩ with
      | (.ok low, stop) =>
        if isLowSurrogate low then (charOfCode (joinSurrogates code low), stop)
        else (charOfCode code, c)
      | _ => (charOfCode code, c)
    else (charOfCode code, c)
  | _ => (charOfCode code, c)

/-- A second half of a pair leaves no more characters than there were. -/
theorem length_joinedChar_le (code : Nat) (c : Cursor) :
    (joinedChar code c).2.rest.length ≤ c.rest.length := by
  unfold joinedChar
  split
  · rename_i cs h
    have hc := length_codePoint_le ⟨c.offset + 2, cs⟩
    split
    · split
      · rename_i heq
        rw [heq] at hc
        split <;> simp_all
        omega
      · simp
    · simp
  · simp

/-- What an escape sequence stands for, and where reading goes on. -/
structure Escape where
  /-- The characters that the escape contributes, or what is wrong with it. -/
  meaning : Except Problem (List Char)
  /-- The place behind the escape. -/
  stop : Cursor

/-- Reads up to `limit` more octal digits after digits that spell `value`. -/
def octalRun (value : Nat) : Nat → Cursor → Nat × Cursor
  | 0, c => (value, c)
  | limit + 1, c =>
    match c.rest with
    | d :: _ =>
      if isOctalDigit d then octalRun (value * 8 + (d.toNat - '0'.toNat)) limit c.next
      else (value, c)
    | [] => (value, c)

/-- Octal digits leave no more characters than there were. -/
theorem length_octalRun_le (value limit : Nat) (c : Cursor) :
    (octalRun value limit c).2.rest.length ≤ c.rest.length := by
  induction limit generalizing value c with
  | zero => simp [octalRun]
  | succ limit ih =>
    unfold octalRun
    split
    · split
      · exact Nat.le_trans (ih _ _) c.length_next_le
      · simp
    · simp

/-- The character that a letter escape stands for. -/
def letterEscape? : Char → Option Char
  | 'n' => some '\n'
  | 't' => some '\t'
  | 'r' => some '\r'
  | 'b' => some '\x08'
  | 'f' => some '\x0c'
  | 'v' => some '\x0b'
  | _ => none

/-- Reads an escape whose backslash stands right before `c`. Octal escapes and escaped
eights and nines belong to strings only, so a template refuses them. -/
def escape (inTemplate : Bool) (c : Cursor) : Escape :=
  match c.rest with
  | [] => ⟨.ok [], c⟩
  | ch :: cs =>
    let behind := c.next
    match letterEscape? ch with
    | some plain => ⟨.ok [plain], behind⟩
    | none =>
      if ch == '0' && !(cs.head?.any isDigit) then ⟨.ok ['\x00'], behind⟩
      else if isOctalDigit ch then
        if inTemplate then ⟨.error .templateEscape, behind⟩
        else
          let (value, stop) := octalRun (ch.toNat - '0'.toNat) (if ch ≤ '3' then 2 else 1) behind
          ⟨.ok [Char.ofNat value], stop⟩
      else if ch == '8' || ch == '9' then
        ⟨if inTemplate then .error .templateEscape else .ok [ch], behind⟩
      else if ch == 'x' then
        match hexDigits? 0 2 cs with
        | some value => ⟨.ok [Char.ofNat value], behind.advance 2⟩
        | none => ⟨.error .hexEscape, behind⟩
      else if ch == 'u' then
        match codePoint behind with
        | (.ok code, stop) =>
          let (joined, stop) := joinedChar code stop
          ⟨.ok [joined], stop⟩
        | (.error problem, stop) => ⟨.error problem, stop⟩
      else if ch == '\r' then
        ⟨.ok [], if cs.head? == some '\n' then behind.next else behind⟩
      else if isLineBreak ch then ⟨.ok [], behind⟩
      else ⟨.ok [ch], behind⟩

/-- An escape leaves no more characters than there were. -/
theorem length_escape_le (inTemplate : Bool) (c : Cursor) :
    (escape inTemplate c).stop.rest.length ≤ c.rest.length := by
  unfold escape
  split
  · simp
  · rename_i ch cs h
    have hn := c.length_next_le
    have hnn := c.next.length_next_le
    have ho := length_octalRun_le (ch.toNat - '0'.toNat) (if ch ≤ '3' then 2 else 1) c.next
    have ha := c.next.length_advance_le 2
    have hc := length_codePoint_le c.next
    have hj := length_joinedChar_le
    grind

end EcmaScript.Lexer
