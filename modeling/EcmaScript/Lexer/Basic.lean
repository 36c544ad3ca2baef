import EcmaScript.Lexer.Name
import EcmaScript.Lexer.Number
import EcmaScript.Lexer.Quoted
import EcmaScript.Lexer.Regex
import EcmaScript.Lexer.Trivia
import EcmaScript.Token.Basic

/-!
# The lexer

The lexer reads one token at a time and remembers it. Two decisions need more than the text
ahead. Whether a slash divides or starts a regular expression hangs on the token before it,
and a wrong guess can be mended by reading the slash again. Whether a closing brace ends a
substitution is known only to the caller, who then asks for the template to be resumed.
Faults are collected in the order in which they are met; going back to a snapshot takes
back those that were met since.
-/

namespace EcmaScript.Lexer

open Character

variable [NameClasses]

/-- Reads the token at `c`; nothing at the end of the text. -/
def lexeme? (regexAllowed : Bool) (c : Cursor) : Option Lexeme :=
  match c.rest with
  | [] => none
  | ch :: cs => some <|
    if ch == '"' || ch == '\'' then stringLiteral ch c
    else if ch == '\x60' then templateStart c
    else if isDigit ch || (ch == '.' && cs.head?.any isDigit) then numberLiteral c
    else if ch == '#' then privateWord c
    else if isNameStart ch || ch == '\\' then word c
    else if ch == '/' && regexAllowed then regexLiteral c
    else if ch == '?' && cs.head? == some '.' && cs.tail.head?.any isDigit then
      { kind := .mark .question, stop := c.next }
    else
      match Punctuator.startOf? c.rest with
      | some p => { kind := .mark p, stop := c.next.advance (p.text.length - 1) }
      | none => { kind := .illegal, faults := [⟨.illegalToken, c.offset⟩], stop := c.next }

/-- What is read leaves fewer characters. -/
theorem length_lexeme_lt [NameClasses.Lawful] {regexAllowed : Bool} {c : Cursor} {l : Lexeme}
    (h : lexeme? regexAllowed c = some l) : l.stop.rest.length < c.rest.length := by
  unfold lexeme? at h
  split at h
  · simp at h
  · rename_i ch cs hc
    have hn := Cursor.length_next_lt hc
    have ha := fun n => c.next.length_advance_le n
    have hs := @length_stringLiteral_lt c ch ch cs hc
    have ht := length_templateStart_lt hc
    have hd := length_numberLiteral_lt hc
    have hp := length_privateWord_lt hc
    have hw := length_word_lt hc
    have hr := length_regexLiteral_lt hc
    grind

end EcmaScript.Lexer

namespace EcmaScript

/-- The state of reading a text token by token. -/
structure Lexer where
  /-- The token that was read last. -/
  token : Token
  /-- Whether a slash that comes next starts a regular expression. -/
  regexAllowed : Bool
  /-- The faults met so far. -/
  faults : Array Fault
deriving Repr, Inhabited

namespace Lexer

/-- The lexer before the first token of a text. -/
def ofString (text : String) : Lexer :=
  let start := Cursor.ofString text
  { token := { kind := .unknown, value := "", raw := "", flags := {}, start, stop := start }
    regexAllowed := true
    faults := #[] }

/-- Moves over a first line that names an interpreter, up to the line break. -/
def skipHashbang (lexer : Lexer) : Lexer :=
  match lexer.token.stop with
  | ⟨0, '#' :: '!' :: cs⟩ =>
    { lexer with token.stop := Cursor.skipWhile (!Character.isLineBreak ·) ⟨2, cs⟩ }
  | _ => lexer

/-- Whether a token is the name of a property because a dot comes before it. -/
def isPropertyName (before kind : TokenKind) : Bool :=
  (before == .mark .dot || before == .mark .questionDot) && kind.isIdentifierName

variable [Character.NameClasses]

/-- Reads the next token. At the end of the text, what a slash would mean stays as it is. -/
def scan (lexer : Lexer) : Lexer :=
  let gap := trivia false lexer.token.stop
  match lexeme? lexer.regexAllowed gap.stop with
  | none =>
    { lexer with
      token :=
        { kind := .endOfFile, value := "", raw := ""
          flags := { afterLineBreak := gap.lineBreak }
          start := gap.stop, stop := gap.stop }
      faults := lexer.faults ++ gap.faults }
  | some l =>
    { token :=
        { kind := l.kind, value := l.value, raw := l.raw
          flags := { l.flags with afterLineBreak := gap.lineBreak }
          start := gap.stop, stop := l.stop }
      regexAllowed := !isPropertyName lexer.token.kind l.kind && l.kind.allowsRegexAfter
      faults := lexer.faults ++ gap.faults ++ l.faults }

/-- Reads a slash again as the start of a regular expression; any other token stays. -/
def rescanSlash (lexer : Lexer) : Lexer :=
  if lexer.token.kind == .mark .slash || lexer.token.kind == .mark .slashAssign then
    let l := regexLiteral lexer.token.start
    { token :=
        { lexer.token with
          kind := l.kind, value := l.value, raw := l.raw
          flags := { l.flags with afterLineBreak := lexer.token.flags.afterLineBreak }
          stop := l.stop }
      regexAllowed := false
      faults := lexer.faults ++ l.faults }
  else lexer

/-- Reads a closing brace again as the end of a substitution, with the template chunk behind
it. -/
def rescanTemplate (lexer : Lexer) : Lexer :=
  let l := templateContinuation lexer.token.start
  { token :=
      { lexer.token with
        kind := l.kind, value := l.value, raw := l.raw
        flags := { l.flags with afterLineBreak := lexer.token.flags.afterLineBreak }
        stop := l.stop }
    regexAllowed := l.kind.allowsRegexAfter
    faults := lexer.faults ++ l.faults }

/-- What is needed to go back to a lexer: all of it but the faults, of which only the number
is kept. -/
structure Snapshot where
  /-- The token that was current. -/
  token : Token
  /-- What a slash would have meant. -/
  regexAllowed : Bool
  /-- How many faults had been met. -/
  faultCount : Nat
deriving Repr

/-- A snapshot to go back to. -/
def save (lexer : Lexer) : Snapshot :=
  ⟨lexer.token, lexer.regexAllowed, lexer.faults.size⟩

/-- Goes back to a snapshot and takes back the faults met since. -/
def restore (lexer : Lexer) (snapshot : Snapshot) : Lexer :=
  ⟨snapshot.token, snapshot.regexAllowed, lexer.faults.take snapshot.faultCount⟩

/-- The kinds of the next `n` tokens. -/
def kindsAhead (lexer : Lexer) : Nat → List TokenKind
  | 0 => []
  | n + 1 =>
    let next := lexer.scan
    next.token.kind :: next.kindsAhead n

/-- A token that is not the end leaves fewer characters. -/
theorem length_scan_lt [Character.NameClasses.Lawful] {lexer : Lexer}
    (h : lexer.scan.token.kind ≠ .endOfFile) :
    lexer.scan.token.stop.rest.length < lexer.token.stop.rest.length := by
  have ht := length_trivia_le false lexer.token.stop
  have hl := @length_lexeme_lt _ _ lexer.regexAllowed (trivia false lexer.token.stop).stop
  unfold scan at h ⊢
  grind

/-- A token starts no further ahead than the one before it ended. -/
theorem length_start_scan_le (lexer : Lexer) :
    lexer.scan.token.start.rest.length ≤ lexer.token.stop.rest.length := by
  have ht := length_trivia_le false lexer.token.stop
  unfold scan
  grind

/-- A token that is not the end starts with a character. -/
theorem start_scan_ne_nil {lexer : Lexer} (h : lexer.scan.token.kind ≠ .endOfFile) :
    lexer.scan.token.start.rest ≠ [] := by
  unfold scan at h ⊢
  simp only [lexeme?] at h ⊢
  grind

end Lexer

end EcmaScript
