import EcmaScript.Lexer.Escape
import EcmaScript.Lexer.Lexeme

/-!
# Names

Identifiers, keywords and private names. Any character of a name may be written as a
Unicode escape; a word that is spelled with escapes is never a keyword, and it is not a
name either if it spells a reserved word.
-/

namespace EcmaScript.Lexer

open Character

/-- The kind of a word spelled without escapes. -/
def plainWordKind (word : String) : TokenKind :=
  match Keyword.ofText? word with
  | some w => .word w
  | none => .identifier

/-- The kind of a word spelled with escapes. -/
def escapedWordKind (word : String) : TokenKind :=
  match Keyword.ofText? word with
  | some w => if w.isReserved then .escapedReservedWord else .identifier
  | none => .identifier

variable [NameClasses]

/-- Whether `ch` may follow the characters of a name that were read so far. -/
def continuesName (name : List Char) (ch : Char) : Bool :=
  if name.isEmpty then isNameStart ch else isNamePart ch

/-- Reads the rest of a name that may hold escapes, behind the characters `name`, of which
the last one comes first. -/
def escapedName (name : List Char) (c : Cursor) : Except Fault (List Char) × Cursor :=
  match h : c.rest with
  | [] => (.ok name.reverse, c)
  | '\\' :: 'u' :: cs =>
    match _hp : codePoint ⟨c.offset + 2, cs⟩ with
    | (.ok code, stop) =>
      if code.isValidChar && continuesName name (Char.ofNat code) then
        escapedName (Char.ofNat code :: name) stop
      else (.error ⟨.unicodeEscape, c.offset⟩, stop)
    | (.error problem, stop) => (.error ⟨problem, c.offset⟩, stop)
  | '\\' :: cs => (.error ⟨.unicodeEscape, c.offset⟩, ⟨c.offset + 1, cs⟩)
  | ch :: cs =>
    if isNamePart ch then escapedName (ch :: name) ⟨c.offset + ch.utf8Size, cs⟩
    else (.ok name.reverse, c)
termination_by c.rest.length
decreasing_by
  · have := length_codePoint_le ⟨c.offset + 2, cs⟩
    simp_all
    omega
  · simp_all

/-- A name with escapes leaves no more characters than there were. -/
theorem length_escapedName_le (name : List Char) (c : Cursor) :
    (escapedName name c).2.rest.length ≤ c.rest.length := by
  fun_induction escapedName name c with
  | case1 => simp
  | case2 name c cs h code stop hp hv ih =>
    have := length_codePoint_le ⟨c.offset + 2, cs⟩
    grind
  | case3 name c cs h code stop hp hv =>
    have := length_codePoint_le ⟨c.offset + 2, cs⟩
    grind
  | case4 name c cs h problem stop hp =>
    have := length_codePoint_le ⟨c.offset + 2, cs⟩
    grind
  | case5 => simp_all
  | case6 => grind
  | case7 => simp

/-- Reads a name or a keyword. -/
def word (c : Cursor) : Lexeme :=
  let plain := c.skipWhile isNamePart
  match plain.rest with
  | '\\' :: _ =>
    match escapedName (c.charsUntil plain).reverse plain with
    | (.ok name, stop) =>
      let name := String.ofList name
      { kind := escapedWordKind name, value := name, flags := { escaped := true }, stop }
    | (.error fault, stop) => { kind := .illegal, faults := [fault], stop }
  | _ =>
    let name := c.textUntil plain
    { kind := plainWordKind name, value := name, stop := plain }

/-- A word leaves no more characters than there were. -/
theorem length_word_le (c : Cursor) : (word c).stop.rest.length ≤ c.rest.length := by
  have hp := Cursor.length_skipWhile_le isNamePart c
  have he := length_escapedName_le (c.charsUntil (c.skipWhile isNamePart)).reverse
    (c.skipWhile isNamePart)
  unfold word
  grind

private theorem length_escapedName_lt {name cs : List Char} {c : Cursor}
    (h : c.rest = '\\' :: cs) : (escapedName name c).2.rest.length < c.rest.length := by
  have hc := fun cs => length_codePoint_le ⟨c.offset + 2, cs⟩
  have he := length_escapedName_le
  unfold escapedName
  grind

/-- A word that is there leaves fewer characters. -/
theorem length_word_lt [NameClasses.Lawful] {c : Cursor} {ch : Char} {cs : List Char}
    (h : c.rest = ch :: cs)
    (hs : isNameStart ch = true ∨ ch = '\\') : (word c).stop.rest.length < c.rest.length := by
  have hp := Cursor.length_skipWhile_le isNamePart c
  have hl := fun hn => Cursor.length_skipWhile_lt (p := isNamePart) h hn
  have hn := isNamePart_of_isNameStart (c := ch)
  have he := fun cs => @length_escapedName_lt _ (c.charsUntil (c.skipWhile isNamePart)).reverse cs
    (c.skipWhile isNamePart)
  have hi : ch = '\\' → c.skipWhile isNamePart = c := by
    rintro rfl
    rw [Cursor.skipWhile, h]
    simp only [Cursor.skipWhile.go, show isNamePart '\\' = false from rfl]
    cases c
    simp_all
  unfold word
  grind

/-- Reads a private name from its `#` on, which alone is no token. -/
def privateWord (c : Cursor) : Lexeme :=
  let behind := c.next
  match behind.rest with
  | ch :: _ =>
    if isNameStart ch || ch == '\\' then
      let name := word behind
      { name with kind := if name.kind = .illegal then .illegal else .privateName }
    else { kind := .illegal, faults := [⟨.illegalToken, c.offset⟩], stop := behind }
  | [] => { kind := .illegal, faults := [⟨.illegalToken, c.offset⟩], stop := behind }

/-- A private name leaves fewer characters. -/
theorem length_privateWord_lt {c : Cursor} {ch : Char} {cs : List Char} (h : c.rest = ch :: cs) :
    (privateWord c).stop.rest.length < c.rest.length := by
  have hn := Cursor.length_next_lt h
  have hw := length_word_le c.next
  unfold privateWord
  grind

end EcmaScript.Lexer
