import EcmaScript.Text.Span
import EcmaScript.Token.Kind

/-!
# Tokens

A token with its place in the text. Both ends are kept as cursors, so that reading can go
on behind a token, or start again at it. Flags tell about the spelling of a token what its kind
and value do not tell.
-/

namespace EcmaScript

/-- What is remarkable about the spelling of a token. -/
structure TokenFlags where
  /-- A line break lies between the previous token and this one. -/
  afterLineBreak : Bool := false
  /-- A string, template or regular expression that is not closed. -/
  unterminated : Bool := false
  /-- A number with an exponent. -/
  scientific : Bool := false
  /-- An octal number marked by a leading zero alone. -/
  legacyOctal : Bool := false
  /-- A number that starts with `0x`. -/
  hexadecimal : Bool := false
  /-- A number that starts with `0b`. -/
  binary : Bool := false
  /-- A number that starts with `0o`. -/
  octal : Bool := false
  /-- A number with separators between digits. -/
  separated : Bool := false
  /-- A name with an escape in it. -/
  escaped : Bool := false
  /-- A template chunk with an escape that means nothing. -/
  invalidEscape : Bool := false
deriving Repr, DecidableEq, Inhabited

namespace TokenFlags

/-- The flags as the bits of a number, in the order of the fields. -/
def bits (f : TokenFlags) : Nat :=
  f.afterLineBreak.toNat + 2 * f.unterminated.toNat + 4 * f.scientific.toNat +
    8 * f.legacyOctal.toNat + 16 * f.hexadecimal.toNat + 32 * f.binary.toNat +
    64 * f.octal.toNat + 128 * f.separated.toNat + 256 * f.escaped.toNat +
    512 * f.invalidEscape.toNat

end TokenFlags

/-- A token of a source text. -/
structure Token where
  /-- What the grammar knows the token as. -/
  kind : TokenKind
  /-- What the token means: a name, the text of a number, the content of a string. -/
  value : String
  /-- The uninterpreted content of a template chunk, or the flags of a regular expression. -/
  raw : String
  /-- What is remarkable about the spelling. -/
  flags : TokenFlags
  /-- The place of the first character. -/
  start : Cursor
  /-- The place behind the last character. -/
  stop : Cursor
deriving Repr, Inhabited

namespace Token

/-- The place of the token in the text. -/
def span (t : Token) : Span := .ofOffsets t.start.offset t.stop.offset

/-- The spelling of the token. -/
def text (t : Token) : String := t.start.textUntil t.stop

/-- Whether a line break lies before the token. -/
def afterLineBreak (t : Token) : Bool := t.flags.afterLineBreak

end Token

end EcmaScript
