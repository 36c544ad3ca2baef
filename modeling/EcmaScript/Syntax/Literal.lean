import EcmaScript.Number.Double
import EcmaScript.Text.Span

/-!
# Names and literals

The leaves of the syntax tree. A name has room for the number of the scope in which it was
found; zero means that nobody looked.
-/

namespace EcmaScript

/-- The number of a scope; zero stands for none. -/
abbrev ScopeId := Nat

/-- A name in a source text. -/
structure Identifier where
  /-- Where the name stands. -/
  span : Span
  /-- The name, with escapes resolved. -/
  name : String
  /-- The scope that the name was resolved to. -/
  scope : ScopeId := 0
deriving Repr, DecidableEq, Inhabited

/-- A name that starts with `#`. -/
structure PrivateName where
  /-- Where the name stands. -/
  span : Span
  /-- The name without its `#`. -/
  name : String
deriving Repr, DecidableEq, Inhabited

/-- A number. -/
structure NumberLiteral where
  /-- Where the literal stands. -/
  span : Span
  /-- The number that is meant. -/
  value : Double
  /-- The spelling. -/
  raw : String
deriving Repr, DecidableEq, Inhabited

/-- An integer of any size. -/
structure BigIntLiteral where
  /-- Where the literal stands. -/
  span : Span
  /-- The spelling, with its suffix. -/
  raw : String
deriving Repr, DecidableEq, Inhabited

/-- The digits of a big integer, with its radix marker but without separators and suffix. -/
def BigIntLiteral.digits (literal : BigIntLiteral) : String :=
  let body := (literal.raw.toList.reverse.dropWhile (· == 'n')).reverse
  String.ofList (body.filter (· != '_'))

/-- A string. -/
structure StringLiteral where
  /-- Where the literal stands. -/
  span : Span
  /-- The characters that are meant. -/
  value : String
  /-- The spelling, with its quotes. -/
  raw : String
deriving Repr, DecidableEq, Inhabited

/-- A regular expression. -/
structure RegexLiteral where
  /-- Where the literal stands. -/
  span : Span
  /-- What stands between the slashes. -/
  pattern : String
  /-- What stands behind them. -/
  flags : String
deriving Repr, DecidableEq, Inhabited

/-- A piece of a template between two substitutions. -/
structure TemplateElement where
  /-- Where the piece stands, without its delimiters. -/
  span : Span
  /-- The text as it is spelled. -/
  raw : String
  /-- The text that is meant, if all its escapes mean something. -/
  cooked : Option String
  /-- Whether the piece is the last one. -/
  tail : Bool
deriving Repr, DecidableEq, Inhabited

/-- The name of a property behind a dot. -/
inductive MemberName where
  | identifier (id : Identifier)
  | hidden (name : PrivateName)
deriving Repr, DecidableEq, Inhabited

/-- Where the name stands. -/
def MemberName.span : MemberName → Span
  | identifier id => id.span
  | hidden name => name.span

/-- The three words that declare variables. -/
inductive VariableKind where
  | varKind | letKind | constKind
deriving Repr, DecidableEq, Inhabited

namespace VariableKind

/-- The spelling of the word. -/
def text : VariableKind → String
  | varKind => "var"
  | letKind => "let"
  | constKind => "const"

/-- Whether the variable belongs to its block rather than its function. -/
def isLexical : VariableKind → Bool
  | varKind => false
  | _ => true

end VariableKind

/-- What a method of a class is for. -/
inductive MethodKind where
  | constructor | method | getter | setter
deriving Repr, DecidableEq, Inhabited

/-- The word for the kind. -/
def MethodKind.text : MethodKind → String
  | constructor => "constructor"
  | method => "method"
  | getter => "get"
  | setter => "set"

/-- What a property of an object literal is for. -/
inductive PropertyKind where
  | init | getter | setter
deriving Repr, DecidableEq, Inhabited

/-- The word for the kind. -/
def PropertyKind.text : PropertyKind → String
  | init => "init"
  | getter => "get"
  | setter => "set"

end EcmaScript
