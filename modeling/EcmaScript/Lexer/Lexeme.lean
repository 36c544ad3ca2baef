import EcmaScript.Diagnostic.Problem
import EcmaScript.Token.Basic

/-!
# Lexemes

A lexeme is what the lexer reads in one step: a token without the place where it starts,
together with the faults of its spelling and the place behind it. A lexeme depends on the
text from its start on and on nothing before.
-/

namespace EcmaScript.Lexer

/-- A token as it was read. -/
structure Lexeme where
  /-- The kind of the token. -/
  kind : TokenKind
  /-- What the token means: a name, the text of a number, the content of a string. -/
  value : String := ""
  /-- The uninterpreted content of a template chunk, or the flags of a regular expression. -/
  raw : String := ""
  /-- What is remarkable about the spelling. -/
  flags : TokenFlags := {}
  /-- What is wrong with the spelling. -/
  faults : List Fault := []
  /-- The place behind the token. -/
  stop : Cursor
deriving Repr

end EcmaScript.Lexer
