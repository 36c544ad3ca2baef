import EcmaScript.Lexer.Escape
import EcmaScript.Lexer.Lexeme

/-!
# Strings and templates

A string ends at its quote and may not run over the end of a line. A template chunk ends at
a backquote or at the opening of a substitution; it has a raw text, in which only the line
ends are made uniform, and a cooked text, in which the escapes are resolved.
-/

namespace EcmaScript.Lexer

open Character

/-- The content of a string literal. -/
structure StringBody where
  /-- The characters of the string. -/
  value : List Char
  /-- Faults of the escapes in it. -/
  faults : List Fault
  /-- Whether the closing quote was found. -/
  closed : Bool
  /-- The place behind the literal. -/
  stop : Cursor

/-- Reads a string from behind its opening quote. What was read before is in `value` and
`faults`, the last part first. -/
def stringBody (quote : Char) (value : List Char) (faults : List Fault) (c : Cursor) :
    StringBody :=
  match _h : c.rest with
  | [] => ⟨value.reverse, faults.reverse, false, c⟩
  | ch :: cs =>
    if ch == quote then ⟨value.reverse, faults.reverse, true, ⟨c.offset + ch.utf8Size, cs⟩⟩
    else if ch == '\\' then
      let esc := escape false ⟨c.offset + 1, cs⟩
      match esc.meaning with
      | .ok chars => stringBody quote (chars.reverse ++ value) faults esc.stop
      | .error problem => stringBody quote value (⟨problem, c.offset⟩ :: faults) esc.stop
    else if ch == '\n' || ch == '\r' then ⟨value.reverse, faults.reverse, false, c⟩
    else stringBody quote (ch :: value) faults ⟨c.offset + ch.utf8Size, cs⟩
termination_by c.rest.length
decreasing_by
  · rw [_h]
    exact Nat.lt_succ_of_le (length_escape_le false ⟨c.offset + 1, cs⟩)
  · rw [_h]
    exact Nat.lt_succ_of_le (length_escape_le false ⟨c.offset + 1, cs⟩)
  · rw [_h]
    exact Nat.lt_succ_self _

/-- The body of a string leaves no more characters than there were. -/
theorem length_stringBody_le (quote : Char) (value : List Char) (faults : List Fault)
    (c : Cursor) : (stringBody quote value faults c).stop.rest.length ≤ c.rest.length := by
  fun_induction stringBody quote value faults c with
  | case1 => simp
  | case2 => simp_all
  | case3 value faults c ch cs h hq hb esc chars hm ih =>
    have := length_escape_le false ⟨c.offset + 1, cs⟩
    grind
  | case4 value faults c ch cs h hq hb esc problem hm ih =>
    have := length_escape_le false ⟨c.offset + 1, cs⟩
    grind
  | case5 => simp
  | case6 => grind

/-- Reads a string literal from its opening quote on. -/
def stringLiteral (quote : Char) (c : Cursor) : Lexeme :=
  let body := stringBody quote [] [] c.next
  { kind := .string
    value := String.ofList body.value
    flags := { unterminated := !body.closed }
    faults := if body.closed then body.faults
      else body.faults ++ [⟨.unterminatedString, c.offset⟩]
    stop := body.stop }

/-- A string leaves fewer characters. -/
theorem length_stringLiteral_lt {c : Cursor} {quote ch : Char} {cs : List Char}
    (h : c.rest = ch :: cs) : (stringLiteral quote c).stop.rest.length < c.rest.length :=
  Nat.lt_of_le_of_lt (length_stringBody_le quote [] [] c.next) (Cursor.length_next_lt h)

/-- The text with every carriage return, alone or before a line feed, made a line feed. -/
def uniformLineEnds : List Char → List Char
  | [] => []
  | '\r' :: '\n' :: cs => '\n' :: uniformLineEnds cs
  | '\r' :: cs => '\n' :: uniformLineEnds cs
  | c :: cs => c :: uniformLineEnds cs

/-- What a template chunk ends with. -/
inductive ChunkEnd where
  /-- A backquote. -/
  | closed
  /-- The opening of a substitution. -/
  | substitution
  /-- The end of the text. -/
  | missing
deriving Repr, DecidableEq

/-- The content of a template chunk. -/
structure TemplateChunk where
  /-- The text with escapes resolved, as far as they mean something. -/
  cooked : List Char
  /-- The text with escapes as they are spelled. -/
  raw : List Char
  /-- Whether every escape means something. -/
  valid : Bool
  /-- What the chunk ends with. -/
  ending : ChunkEnd
  /-- The place behind the chunk. -/
  stop : Cursor

/-- Reads a template chunk from behind its opening. What was read before is in `cooked` and
`raw`, the last character first. -/
def templateChunk (cooked raw : List Char) (valid : Bool) (c : Cursor) : TemplateChunk :=
  match _h : c.rest with
  | [] => ⟨cooked.reverse, raw.reverse, valid, .missing, c⟩
  | '\x60' :: cs => ⟨cooked.reverse, raw.reverse, valid, .closed, ⟨c.offset + 1, cs⟩⟩
  | '$' :: '\x7b' :: cs =>
    ⟨cooked.reverse, raw.reverse, valid, .substitution, ⟨c.offset + 2, cs⟩⟩
  | '\\' :: cs =>
    let esc := escape true ⟨c.offset + 1, cs⟩
    let spelling := uniformLineEnds (c.charsUntil esc.stop)
    match esc.meaning with
    | .ok chars =>
      templateChunk (chars.reverse ++ cooked) (spelling.reverse ++ raw) valid esc.stop
    | .error _ => templateChunk cooked (spelling.reverse ++ raw) false esc.stop
  | '\r' :: '\n' :: cs => templateChunk ('\n' :: cooked) ('\n' :: raw) valid ⟨c.offset + 2, cs⟩
  | '\r' :: cs => templateChunk ('\n' :: cooked) ('\n' :: raw) valid ⟨c.offset + 1, cs⟩
  | ch :: cs => templateChunk (ch :: cooked) (ch :: raw) valid ⟨c.offset + ch.utf8Size, cs⟩
termination_by c.rest.length
decreasing_by
  · rw [_h]
    exact Nat.lt_succ_of_le (length_escape_le true ⟨c.offset + 1, cs⟩)
  · rw [_h]
    exact Nat.lt_succ_of_le (length_escape_le true ⟨c.offset + 1, cs⟩)
  · rw [_h]
    exact Nat.lt_succ_of_lt (Nat.lt_succ_self _)
  · rw [_h]
    exact Nat.lt_succ_self _
  · rw [_h]
    exact Nat.lt_succ_self _

/-- A chunk of a template leaves no more characters than there were. -/
theorem length_templateChunk_le (cooked raw : List Char) (valid : Bool) (c : Cursor) :
    (templateChunk cooked raw valid c).stop.rest.length ≤ c.rest.length := by
  fun_induction templateChunk cooked raw valid c with
  | case1 => simp
  | case2 => simp_all
  | case3 => grind
  | case4 cooked raw valid c cs h esc spelling chars hm ih =>
    have := length_escape_le true ⟨c.offset + 1, cs⟩
    grind
  | case5 cooked raw valid c cs h esc spelling problem hm ih =>
    have := length_escape_le true ⟨c.offset + 1, cs⟩
    grind
  | case6 => grind
  | case7 => grind
  | case8 => grind

/-- The token that a chunk is: the kinds `whole` and `opening` are for a chunk that ends the
template and for one before a substitution. The text at `start` is blamed if the chunk does
not end. -/
def TemplateChunk.toLexeme (chunk : TemplateChunk) (whole opening : TokenKind) (start : Nat) :
    Lexeme :=
  { kind := if chunk.ending = .substitution then opening else whole
    value := if chunk.valid then String.ofList chunk.cooked else ""
    raw := String.ofList chunk.raw
    flags := { unterminated := chunk.ending = .missing, invalidEscape := !chunk.valid }
    faults := if chunk.ending = .missing then [⟨.unterminatedTemplate, start⟩] else []
    stop := chunk.stop }

/-- Reads a template, or its first chunk, from the opening backquote on. -/
def templateStart (c : Cursor) : Lexeme :=
  (templateChunk [] [] true c.next).toLexeme .template .templateHead c.offset

/-- Reads the next chunk of a template from the brace that closes a substitution on. -/
def templateContinuation (c : Cursor) : Lexeme :=
  (templateChunk [] [] true c.next).toLexeme .templateTail .templateMiddle c.offset

/-- The start of a template leaves fewer characters. -/
theorem length_templateStart_lt {c : Cursor} {ch : Char} {cs : List Char}
    (h : c.rest = ch :: cs) : (templateStart c).stop.rest.length < c.rest.length :=
  Nat.lt_of_le_of_lt (length_templateChunk_le [] [] true c.next) (Cursor.length_next_lt h)

/-- Going on with a template leaves fewer characters. -/
theorem length_templateContinuation_lt {c : Cursor} {ch : Char} {cs : List Char}
    (h : c.rest = ch :: cs) : (templateContinuation c).stop.rest.length < c.rest.length :=
  Nat.lt_of_le_of_lt (length_templateChunk_le [] [] true c.next) (Cursor.length_next_lt h)

end EcmaScript.Lexer
